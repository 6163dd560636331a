/-
# Images with a header

An image starts at a block with a header that has its size. The image is the kernel, with the root
file system behind it when it is at the start of the device, and in front of it otherwise. The
headers of U-Boot and of JBOOT differ, and so do some error codes.
-/

import OpenWrt.Mtdsplit.Master

namespace OpenWrt.Mtdsplit

open Lib Lib.Memory

/-- What differs between the formats of images. -/
structure Format where
  buflen : ℕ
  /-- The size of the image, unless the header is not right. -/
  imageSize : (buf : ℕ → UInt8) → Option ℕ
  /-- The result where there is no image. -/
  notFound : ℤ
  /-- The result where there is no root file system in front, from that of the check. -/
  noRootfs : ℤ → ℤ

namespace Master

variable (m : Master) (fmt : Format)

def header (offset : ℕ) : Option ℕ :=
  match m.read offset fmt.buflen with
  | .error _ => none
  | .ok _ => fmt.imageSize (m.buffer offset fmt.buflen)

/-- A turn of the loop over the blocks, with the size of the last image that was found. -/
def imageRound (s : ℕ × ℕ) : (ℕ × ℕ) ⊕ (ℕ × ℕ) :=
  let (offset, imageSize) := s
  if offset < m.size then
    match m.header fmt offset with
    | none => .inl (m.sizeT (offset + m.erasesize), 0)
    | some imageSize =>
      if m.size < m.sizeT (offset + imageSize) then
        .inl (m.sizeT (offset + m.erasesize), imageSize)
      else .inr (offset, imageSize)
  else .inr (offset, imageSize)

/-- The partitions of the kernel and the root file system. -/
structure Split where
  kernel : Partition
  rootfs : Partition
deriving DecidableEq, Repr

/-- The partitions, once the image was found. -/
def splitAt (fuel offset imageSize : ℕ) : Option (Except ℤ Split) :=
  if imageSize = 0 then some (.error fmt.notFound)
  else if offset = 0 then
    (m.findRootfsFrom fuel (m.sizeT (offset + imageSize)) (m.sizeT m.size)).map fun found =>
      found.bind fun (rootfsOffset, type) =>
        let rootfsSize := m.sizeT (m.size - rootfsOffset)
        if rootfsSize = 0 then .error enoent
        else .ok
          { kernel := ⟨kernelPartName, 0, rootfsOffset⟩
            rootfs := ⟨type.partName, rootfsOffset, rootfsSize⟩ }
  else
    match m.checkRootfsMagic 0 with
    | .error code => some (.error (fmt.noRootfs code))
    | .ok type => some (.ok
        { kernel := ⟨kernelPartName, offset, imageSize⟩
          rootfs := ⟨type.partName, 0, offset⟩ })

/-- `__mtdsplit_parse_uimage` and `__mtdsplit_parse_jimage`, unless a loop is still searching after
so many turns. -/
def parseImage (fuel : ℕ) : Option (Except ℤ Split) :=
  match Loop.after (m.imageRound fmt) fuel (0, 0) with
  | .inl _ => none
  | .inr (offset, imageSize) => m.splitAt fmt fuel offset imageSize

end Master

/-! ## U-Boot -/

/-- `IH_MAGIC` -/
def ihMagic : ℕ := 0x27051956

/-- `IH_OS_LINUX` -/
def ihOsLinux : ℕ := 5

/-- `IH_TYPE_KERNEL` -/
def ihTypeKernel : ℕ := 2

/-- `sizeof(struct uimage_header)` -/
def uimageHeaderSize : ℕ := 64

/-- A node of the device tree. -/
structure Node where
  /-- It is compatible with `openwrt,uimage`. -/
  compatible : Bool
  /-- `openwrt,padding` -/
  padding : Option UInt32
  /-- `openwrt,ih-magic` -/
  ihMagic : Option UInt32
  /-- `openwrt,ih-type` -/
  ihType : Option UInt32
  /-- `openwrt,offset` -/
  offset : Option UInt32
  /-- `openwrt,partition-magic` -/
  partitionMagic : Option UInt32

/-- What is looked for in a header. -/
structure UimageConfig where
  extralen : ℤ
  ihMagic : ℕ
  ihType : ℕ
  headerOffset : ℕ
  partMagic : ℕ

/-- `uimage_parse_dt` -/
def uimageParseDt (np : Option Node) : UimageConfig :=
  match np.filter Node.compatible with
  | none => ⟨0, ihMagic, ihTypeKernel, 0, 0⟩
  | some np =>
    { extralen := (np.padding.getD 0).toBitVec.toInt
      ihMagic := (np.ihMagic.map UInt32.toNat).getD ihMagic
      ihType := (np.ihType.map UInt32.toNat).getD ihTypeKernel
      headerOffset := (np.offset.getD 0).toNat
      partMagic := (np.partitionMagic.getD 0).toNat }

/-- `uimage_verify_default` -/
def uimageVerifyDefault (c : UimageConfig) (buf : ℕ → UInt8) : Bool :=
  readBe buf c.headerOffset 4 == c.ihMagic && (buf (c.headerOffset + 28)).toNat == ihOsLinux &&
    (buf (c.headerOffset + 30)).toNat == c.ihType

/-- `__mtdsplit_parse_uimage` with `uimage_verify_default` -/
def uimage (m : Master) (np : Option Node) : Format :=
  let c := uimageParseDt np
  { buflen := m.sizeT (uimageHeaderSize + c.headerOffset)
    imageSize := fun buf =>
      if c.headerOffset ≠ 0 ∧ c.partMagic ≠ 0 ∧ readBe buf 0 4 ≠ c.partMagic then none
      else if uimageVerifyDefault c buf then
        some ((uimageHeaderSize + readBe buf (c.headerOffset + 12) 4 + c.headerOffset +
          c.extralen : ℤ) % 2 ^ m.bits).toNat
      else none
    notFound := 0
    noRootfs := fun _ => enoent }

/-! ## JBOOT -/

/-- `STAG_ID` -/
def stagId : UInt8 := 0x04

/-- `STAG_MAGIC` -/
def stagMagic : ℕ := 0x2B24

/-- `SCH2_MAGIC` -/
def sch2Magic : ℕ := 0x2124

/-- `SCH2_VER` -/
def sch2Ver : UInt8 := 0x02

/-- `MAX_HEADER_LEN`, and `sizeof(struct jimage_header)` -/
def maxHeaderLen : ℕ := 16 + 40

/-- `jimage_verify_default` -/
def jimageVerifyDefault (isBig : Bool) (buf : ℕ → UInt8) : Bool :=
  readHost isBig buf 2 2 == stagMagic && readHost isBig buf 16 2 == sch2Magic &&
    buf 0 == buf 1 && buf 1 == stagId && buf 19 == sch2Ver

/-- `__mtdsplit_parse_jimage` with `jimage_verify_default` -/
def jimage (m : Master) : Format where
  buflen := maxHeaderLen
  imageSize := fun buf =>
    if jimageVerifyDefault m.isBig buf then
      some (m.sizeT (maxHeaderLen + readHost m.isBig buf 24 4))
    else none
  notFound := enoent
  noRootfs := fun code => code

end OpenWrt.Mtdsplit
