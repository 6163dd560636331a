/-
# The FIS directory

The directory is a table of partitions in one erase block, up to the first slot that is not used.
When an image is written in place of some partitions, their slots are given to the partitions of
the image, the rest of the table moves up or down, and the space of the old ones is divided among
the new ones.

Left out are the device under the table and what is printed. An access through a null pointer or
outside of the table is a fault.
-/

import Mathlib.Algebra.Group.Int.Defs
import Mathlib.Algebra.Ring.Nat

namespace OpenWrt.Mtd.Fis

/-- `struct fis_image_desc`, a slot of 256 bytes. -/
structure Desc where
  name : List UInt8
  flashBase : UInt32
  memBase : UInt32
  size : UInt32
  entryPoint : UInt32
  dataLength : UInt32
  pad : List UInt8
  crcDesc : UInt32
  crcFile : UInt32
deriving DecidableEq, Repr

/-- `struct fis_part` -/
structure FisPart where
  name : List UInt8
  loadaddr : UInt32
  size : UInt32
  length : UInt32
  crc : UInt32
deriving DecidableEq, Repr

/-- A slot after `memset` with `0xff`. -/
def Desc.erased : Desc :=
  ⟨List.replicate 16 0xff, 0xffffffff, 0xffffffff, 0xffffffff, 0xffffffff, 0xffffffff,
    List.replicate 212 0xff, 0xffffffff, 0xffffffff⟩

/-- The first character of the name is there. -/
def Desc.isUsed (desc : Desc) : Bool := desc.name.headD 0 != 0 && desc.name.headD 0 != 0xff

def used (table : List Desc) : List Desc := table.takeWhile Desc.isUsed

/-- What `strncmp` compares of a name of 16 bytes. -/
def significant (name : List UInt8) : List UInt8 := (name.take 16).takeWhile (· != 0)

/-- `strncmp` finds the name of an entry in a list of partitions. -/
def Desc.isIn (desc : Desc) (parts : List FisPart) : Bool :=
  parts.any fun part => significant desc.name == significant part.name

/-! ## Checking -/

/-- `fis_validate` -/
def validate (table : List Desc) (old new : List FisPart) : Bool :=
  new.dropLast.all (fun part => part.size != 0) &&
    (used table).countP (Desc.isIn · old) == old.length

/-! ## Updating -/

def maxBase (entries : List Desc) : UInt32 :=
  entries.foldl (fun offset desc => if offset < desc.flashBase then desc.flashBase else offset) 0

/-- The lowest base above another one, in the second loop over the entries. -/
def nextBase (entries : List Desc) (last offset : UInt32) : UInt32 :=
  entries.foldl
    (fun offset desc =>
      if last < desc.flashBase ∧ desc.flashBase < offset then desc.flashBase else offset)
    offset

def lastSlot (entries : List Desc) (old : List FisPart) : Option ℕ :=
  (entries.reverse.findIdx? (Desc.isIn · old)).map (entries.length - 1 - ·)

/-- `first`, `last`, the base of `first_fb` and the offset up to which there is space. -/
structure Space where
  first : ℕ
  last : ℕ
  start : UInt32
  stop : UInt32
deriving DecidableEq, Repr

def space (table : List Desc) (old : List FisPart) : Option Space :=
  let entries := used table
  (entries.findIdx? (Desc.isIn · old)).bind fun first =>
    (lastSlot entries old).bind fun last =>
      entries[first]?.bind fun firstDesc =>
        entries[last]?.map fun lastDesc =>
          let swapped := lastDesc.flashBase < firstDesc.flashBase
          let firstFb := if swapped then lastDesc else firstDesc
          let lastFb := if swapped then firstDesc else lastDesc
          { first, last
            start := firstFb.flashBase
            stop := nextBase entries lastFb.flashBase (maxBase entries) }

def FisPart.desc (part : FisPart) (offset size : UInt32) : Desc where
  name := part.name
  flashBase := offset
  memBase := part.loadaddr
  size := if 0 < part.size then part.size else size
  entryPoint := part.loadaddr
  dataLength :=
    if 0 < part.length then part.length else if 0 < part.size then part.size else size
  pad := List.replicate 212 0
  crcDesc := 0
  crcFile := part.crc

/-- The entries of the new partitions, one after the other. -/
def layout : (offset size : UInt32) → List FisPart → List Desc
  | _, _, [] => []
  | offset, size, part :: parts =>
    let desc := part.desc offset size
    desc :: layout (offset + desc.size) (size - desc.size) parts

/-- `memmove` of some slots. -/
def memmove (table : List Desc) (target source count : ℕ) : List Desc :=
  table.take target ++ (table.drop source).take count ++ table.drop (target + count)

/-- Slots are set. -/
def put (table : List Desc) (target : ℕ) (descs : List Desc) : List Desc :=
  table.take target ++ descs ++ table.drop (target + descs.length)

/-- The entries after the old ones are moved behind the slots of the new ones. -/
def moveRest (table : List Desc) (desc last : ℕ) : Option (List Desc) :=
  if desc = last then some table
  else if table.length < max desc last then none
  else
    let moved := memmove table desc last (table.length - max desc last)
    if desc < last then
      some (put moved (table.length - (last - desc)) (List.replicate (last - desc) Desc.erased))
    else some moved

/-- `fis_remap` -/
def remap (table : List Desc) (old new : List FisPart) : Option (List Desc) :=
  (space table old).bind fun space =>
    (moveRest table (space.first + new.length) (space.last + 1)).map fun moved =>
      put moved space.first (layout space.start (space.stop - space.start) new)

end OpenWrt.Mtd.Fis
