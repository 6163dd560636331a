/-
# Devices that are split

A parser reads headers from a device and finds from their sizes where the kernel ends and the root
file system starts. Offsets and sizes are of the type `size_t`, which has 32 or 64 bits, while the
size of the device has 64.

What a read gives is a parameter: all bytes of the range, or an error. A short read counts as an
error, as it does for each caller. Memory can be allocated. Left out is what is printed.
-/

import Mathlib.Algebra.Group.Int.Defs
import Mathlib.Algebra.Group.Nat.Defs
import OpenWrt.Lib.Loop
import OpenWrt.Lib.Memory

namespace OpenWrt.Mtdsplit

open Lib Lib.Memory

/-- A device, and the machine. -/
structure Master where
  size : ℕ
  erasesize : ℕ
  byte : ℕ → UInt8
  /-- `mtd_read` of so many bytes from an offset on. -/
  read : (offset len : ℕ) → Except ℤ Unit
  /-- The bits of a `size_t`. -/
  bits : ℕ
  /-- Numbers in memory have their highest byte first. -/
  isBig : Bool
  /-- What lies behind the end of a buffer. -/
  behind : ℕ → UInt8
  erasesize_pos : 0 < erasesize

/-- `enum mtdsplit_part_type` -/
inductive PartType
  | unk
  | squashfs
  | jffs2
  | ubi
deriving DecidableEq, Repr

/-- A partition. -/
structure Partition where
  name : String
  offset : ℕ
  size : ℕ
deriving DecidableEq, Repr

/-- `-ENOENT` -/
def enoent : ℤ := -2

/-- `-EINVAL` -/
def einval : ℤ := -22

/-- `KERNEL_PART_NAME` -/
def kernelPartName : String := "kernel"

/-- `ROOTFS_PART_NAME` -/
def rootfsPartName : String := "rootfs"

/-- `UBI_PART_NAME` -/
def ubiPartName : String := "ubi"

/-- `SQUASHFS_MAGIC` -/
def squashfsMagic : ℕ := 0x73717368

/-- `UBI_EC_MAGIC` -/
def ubiEcMagic : ℕ := 0x55424923

/-- The partition of a root file system has the name of its type. -/
def PartType.partName : PartType → String
  | .ubi => ubiPartName
  | _ => rootfsPartName

namespace Master

variable (m : Master)

/-- A number as a `size_t`. -/
def sizeT (n : ℕ) : ℕ := n % 2 ^ m.bits

def buffer (offset len : ℕ) : ℕ → UInt8 := fun i =>
  if i < len then m.byte (offset + i) else m.behind i

/-- `mtd_rounddown_to_eb`; the number of a block and its offset are computed in 32 bits. -/
def rounddownToEb (size : ℕ) : ℕ :=
  if size % m.erasesize = 0 then size else size / m.erasesize % 2 ^ 32 * m.erasesize % 2 ^ 32

/-- `mtd_roundup_to_eb` -/
def roundupToEb (size : ℕ) : ℕ :=
  if size % m.erasesize = 0 then size
  else (size / m.erasesize % 2 ^ 32 + 1) % 2 ^ 32 * m.erasesize % 2 ^ 32

/-- `mtd_next_eb` -/
def nextEb (offset : ℕ) : ℕ := m.sizeT (m.rounddownToEb offset + m.erasesize)

/-- `mtd_check_rootfs_magic` -/
def checkRootfsMagic (offset : ℕ) : Except ℤ PartType :=
  match m.read offset 4 with
  | .error code => .error code
  | .ok _ =>
    let magic := m.buffer offset 4
    if readLe magic 0 4 = squashfsMagic then .ok .squashfs
    else if readHost m.isBig magic 0 4 = 0x19852003 then .ok .jffs2
    else if readBe magic 0 4 = ubiEcMagic then .ok .ubi
    else .error einval

/-- A turn of the loop of `mtd_find_rootfs_from`. -/
def rootfsRound (limit offset : ℕ) : ℕ ⊕ Except ℤ (ℕ × PartType) :=
  if offset < limit then
    match m.checkRootfsMagic offset with
    | .error _ => .inl (m.nextEb offset)
    | .ok type => .inr (.ok (offset, type))
  else .inr (.error enoent)

/-- `mtd_find_rootfs_from`, unless it is still searching after so many turns. -/
def findRootfsFrom (fuel start limit : ℕ) : Option (Except ℤ (ℕ × PartType)) :=
  (Loop.after (m.rootfsRound limit) fuel start).elim (fun _ => none) some

end Master

end OpenWrt.Mtdsplit
