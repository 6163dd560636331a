/-
# Reading a TFFS on NAND flash

The flash has blocks of sectors, and each sector but the first of a block has one segment of an
entry, in any order and in several revisions. The blocks are checked once, which marks bad sectors.
A lookup goes over the good sectors up to the end of each block and collects the segments of the
newest revision; the ids that it saw are kept, so that the next one need not read these sectors.

An access outside of a table or buffer is a fault, and so is a segment table that cannot be
allocated. The rest of the allocations succeed. Left out is what is printed.
-/

import Mathlib.Algebra.Group.Int.Defs
import Mathlib.Algebra.Group.Nat.Defs
import Mathlib.Logic.Function.Basic
import OpenWrt.Lib.Memory

namespace OpenWrt.Fritz.TffsNand

open Lib.Memory

/-! ## The flash -/

/-- The end of the program before its time. -/
inductive Stop
  | /-- `exit(EXIT_FAILURE)` -/
    exit
  | /-- An access outside of a buffer. -/
    fault
deriving DecidableEq, Repr

/-- A flash, and the options. -/
structure Flash where
  size : ℕ
  /-- `info.erasesize` -/
  blocksize : ℕ
  /-- The content of a sector. -/
  sector : ℕ → ℕ → UInt8
  /-- The OOB data of a sector. -/
  oob : ℕ → ℕ → UInt8
  reads : ℕ → Bool
  readsOob : ℕ → Bool
  /-- A segment table of so many entries can be allocated. -/
  allocates : ℕ → Bool
  /-- Numbers have their highest byte first: on such a machine, or with `-b`. -/
  isBig : Bool
  /-- `-o` -/
  readOobSectorHealth : Bool
  blocksize_pos : 0 < blocksize
  size_lt : size < 2 ^ 32

/-- `TFFS_SECTOR_SIZE` -/
def sectorSize : ℕ := 0x800

theorem fourSectors_pos : 0 < 4 * sectorSize := by decide

theorem fourSectors_lt : 4 * sectorSize < 2 ^ 32 := by decide

/-- `TFFS_ENTRY_HEADER_SIZE` -/
def entryHeaderSize : ℕ := 0x18

/-- `TFFS_MAXIMUM_SEGMENT_SIZE` -/
def maximumSegmentSize : ℕ := sectorSize - entryHeaderSize

/-- `TFFS_ID_END` -/
def idEnd : ℕ := 0xffffffff

/-- `TFFS_ID_TABLE_NAME` -/
def idTableName : ℕ := 0x1ff

/-- `TFFS_SEGMENT_CLEARED` -/
def segmentCleared : ℕ := 0xffffffff

/-- `TFFS_BLOCK_HEADER_MAGIC` -/
def blockHeaderMagic : ℕ := 0x41564d5f54464653

/-- `TFFS_SECTORS_PER_PAGE` -/
def sectorsPerPage : ℕ := 2

def number (isBig : Bool) (bytes : List UInt8) : ℕ :=
  (if isBig then bytes else bytes.reverse).foldl (fun value byte => 256 * value + byte.toNat) 0

namespace Flash

variable (f : Flash)

/-- `num_sectors` -/
def numSectors : ℕ := f.size / sectorSize

/-- `read_uint32` -/
def readUint32 (buf : ℕ → UInt8) (off : ℕ) : ℕ := number f.isBig (slice buf off 4)

/-- `read_uint64` -/
def readUint64 (buf : ℕ → UInt8) (off : ℕ) : ℕ := number f.isBig (slice buf off 8)

/-! ## Good sectors -/

def bitmapSize : ℕ := (f.numSectors + 7) / 8

/-- `sector_mark_bad`. From `2 ^ 31` on the number is negative. -/
def markBad (sectors : ℕ → UInt8) (num : ℕ) : Except Stop (ℕ → UInt8) :=
  if num < 2 ^ 31 ∧ num / 8 < f.bitmapSize then
    .ok (Function.update sectors (num / 8)
      (sectors (num / 8) &&& ~~~(0x80 >>> UInt8.ofNat (num % 8))))
  else .error .fault

/-- `sector_get_good` -/
def getGood (sectors : ℕ → UInt8) (num : ℕ) : Except Stop Bool :=
  if num < 2 ^ 31 ∧ num / 8 < f.bitmapSize then
    .ok (sectors (num / 8) &&& (0x80 >>> UInt8.ofNat (num % 8)) != 0)
  else .error .fault

def canRead (sector : ℕ) : Bool := (sector + 1) * sectorSize ≤ f.size && f.reads sector

/-- `read_sector`: the id of a sector that was read is kept. -/
def readSector (ids : ℕ → ℕ) (sector : ℕ) : ℕ → ℕ :=
  Function.update ids sector (f.readUint32 (f.sector sector) 0)

/-! ## Scanning -/

/-- `check_sector` -/
def checkSector (sector : ℕ) : Bool :=
  !f.readOobSectorHealth ||
    f.readsOob sector && f.oob sector 0 == 0xff && f.oob sector 1 == 0xff

/-- `sectors` and `sector_ids` with the variables of `scan_mtd`. -/
structure Scan where
  sectors : ℕ → UInt8
  ids : ℕ → ℕ
  validBlocks : ℕ
  blockOk : Bool

/-- The number of bad sectors in the header of a block, which is read from the same place as the
number of sectors in a page. -/
def numHdrBad (sector : ℕ) : ℕ := f.readUint32 (f.sector sector) 0x0c

/-- The number of a bad sector, a `uint32_t`. -/
def hdrBad (sector i : ℕ) : ℕ :=
  (sector + f.readUint64 (f.sector sector) (0x1c + 8 * i)) % 2 ^ 32

def isBlockHeader (sector : ℕ) : Bool :=
  f.checkSector sector && f.canRead sector &&
    f.readUint64 (f.sector sector) 0 == blockHeaderMagic && f.numHdrBad sector == sectorsPerPage

/-- `check_block` -/
def checkBlock (s : Scan) (sector : ℕ) : Except Stop Scan :=
  let s := if f.checkSector sector && f.canRead sector then
    { s with ids := f.readSector s.ids sector } else s
  if f.isBlockHeader sector then
    ((List.range (f.numHdrBad sector)).foldlM (fun sectors i =>
      f.markBad sectors (f.hdrBad sector i)) s.sectors).map fun sectors =>
        { s with sectors, blockOk := true }
  else .ok { s with blockOk := false }

/-- One turn of the loop of `scan_mtd`. -/
def scanSector (s : Scan) (sector : ℕ) : Except Stop Scan :=
  if sector * sectorSize % f.blocksize = 0 then
    (f.checkBlock s sector).bind fun s =>
      (f.markBad s.sectors sector).map fun sectors =>
        { s with sectors, validBlocks := s.validBlocks + if s.blockOk then 1 else 0 }
  else if !s.blockOk then
    (f.markBad s.sectors sector).map fun sectors => { s with sectors }
  else
    (f.getGood s.sectors sector).bind fun good =>
      if !good || !f.checkSector sector then
        (f.markBad s.sectors sector).map fun sectors => { s with sectors }
      else .ok s

/-- `scan_mtd`; the last sector may be a part of one. -/
def scanMtd : Except Stop Scan :=
  (List.range ((f.size + (sectorSize - 1)) / sectorSize)).foldlM f.scanSector
    ⟨fun _ => 0xff, fun _ => 0, 0, false⟩

/-! ## Lookup -/

/-- What a sector has of an entry. -/
structure Segment where
  rev : ℕ
  seg : ℕ
  nextSeg : ℕ
  val : List UInt8
deriving DecidableEq, Repr

/-- What comes of a sector that is read. -/
inductive Found
  | nothing
  | blockEnd
  | segment (segment : Segment)
deriving DecidableEq, Repr

/-- The OOB data has the same numbers as the sector. -/
def isConsistent (sector : ℕ) : Bool :=
  f.readUint32 (f.oob sector) 0x02 == f.readUint32 (f.sector sector) 0x00 &&
    f.readUint32 (f.oob sector) 0x06 == f.readUint32 (f.sector sector) 0x04 &&
      f.readUint32 (f.oob sector) 0x0a == f.readUint32 (f.sector sector) 0x0c

def inspect (id sector : ℕ) : Found :=
  let readbuf := f.sector sector
  if f.readOobSectorHealth && !f.isConsistent sector then .nothing
  else if f.readUint32 readbuf 0x00 = idEnd then .blockEnd
  else if maximumSegmentSize < f.readUint32 readbuf 0x04 then .nothing
  else if f.readUint32 readbuf 0x00 ≠ id then .nothing
  else .segment
    { rev := f.readUint32 readbuf 0x0c
      seg := f.readUint32 readbuf 0x10
      nextSeg := f.readUint32 readbuf 0x14
      val := slice readbuf entryHeaderSize (f.readUint32 readbuf 0x04) }

/-- The segments of the newest revision so far. -/
structure Collected where
  rev : ℕ
  segments : List (Option (List UInt8))
deriving DecidableEq, Repr

/-- `new_num_segs`, a `uint32_t`. -/
def Segment.newNumSegs (s : Segment) : ℕ :=
  (if s.nextSeg = 0 then s.seg + 1 else s.nextSeg + 1) % 2 ^ 32

/-- The table for so many segments. -/
def grow (segments : List (Option (List UInt8))) (count : ℕ) :
    Except Stop (List (Option (List UInt8))) :=
  if segments.length < count then
    if f.allocates count then
      .ok (segments ++ List.replicate (count - segments.length) none)
    else .error .fault
  else .ok segments

/-- A segment of the entry is stored. -/
def collect (c : Collected) (s : Segment) : Except Stop Collected :=
  if s.rev < c.rev then .ok c
  else
    let c := if c.rev < s.rev then { rev := s.rev, segments := [] } else c
    if s.seg = segmentCleared then .ok c
    else
      (f.grow c.segments s.newNumSegs).bind fun segments =>
        if s.seg < segments.length then
          .ok { c with segments := segments.set s.seg (some s.val) }
        else .error .fault

/-- The variables of `find_entry`. -/
structure Search where
  blockEnd : Bool
  collected : Collected
  ids : ℕ → ℕ

/-- One turn of the loop of `find_entry`. -/
def visit (sectors : ℕ → UInt8) (id : ℕ) (s : Search) (sector : ℕ) : Except Stop Search :=
  if s.blockEnd then
    .ok (if sector * sectorSize % f.blocksize = 0 then { s with blockEnd := false } else s)
  else
    (f.getGood sectors sector).bind fun good =>
      if !good then .ok s
      else if s.ids sector ≠ 0 ∧ s.ids sector = idEnd then .ok { s with blockEnd := true }
      else if s.ids sector ≠ 0 ∧ s.ids sector ≠ id then .ok s
      else if !(f.readsOob sector && f.canRead sector) then .error .exit
      else
        let s := { s with ids := f.readSector s.ids sector }
        match f.inspect id sector with
        | .nothing => .ok s
        | .blockEnd => .ok { s with blockEnd := true }
        | .segment segment =>
          (f.collect s.collected segment).map fun collected => { s with collected }

/-- The value of the segments, unless one is missing. -/
def Collected.value (c : Collected) : Option (List UInt8) :=
  if c.segments = [] then none
  else if c.segments.all Option.isSome then some (c.segments.filterMap id).flatten
  else none

/-- `find_entry` -/
def findEntry (sectors : ℕ → UInt8) (ids : ℕ → ℕ) (id : ℕ) :
    Except Stop (Option (List UInt8) × (ℕ → ℕ)) :=
  ((List.range f.numSectors).foldlM (f.visit sectors id) ⟨false, ⟨0, []⟩, ids⟩).map fun s =>
    (s.collected.value, s.ids)

/-! ## Names -/

/-- `get_walk_size` -/
def walkSize (entryLen : ℕ) : ℕ := (entryLen + 3) / 4 * 4

/-- A turn of the loop of `parse_key_names`, with the position and the names so far. The value is
never so long that a position overflows. -/
def parseRound (val : List UInt8) (s : ℕ × List (ℕ × List UInt8)) :
    (ℕ × List (ℕ × List UInt8)) ⊕ Except Stop (List (ℕ × List UInt8)) :=
  let rest := val.drop (s.1 + 4)
  let name := rest.takeWhile (· ≠ 0)
  if val.length < s.1 + 4 ∨ name.length = rest.length then .inr (.error .fault)
  else
    let names := s.2 ++ [(number f.isBig ((val.drop s.1).take 4), name)]
    let pos := s.1 + 4 + walkSize (name.length + 1)
    if pos < val.length then .inl (pos, names) else .inr (.ok names)

end Flash

end OpenWrt.Fritz.TffsNand
