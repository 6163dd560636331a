/-
# An NMBM instance and the flash under it

NMBM keeps a state of two bits for each physical block and a mapping for each
logical one. The data blocks come first; the management blocks after them hold
two copies of the information table, from `mgmt_start_ba` on, then the unmapped
spare blocks, then the spares in use, and near the end of the chip the signature.

The flash is reached page by page through the operations of the MTD driver. They
are parameters, and each of the three tries of an operation may end differently.
-/

import Mathlib.Data.List.Basic
import OpenWrt.Lib.Packed
import OpenWrt.MtkBmt.Nand

namespace OpenWrt.MtkBmt.Nmbm

open OpenWrt.Lib

/-- A 32-bit word, the unit of everything NMBM stores. -/
abbrev Word := BitVec 32

abbrev Page := List Word

/-! ## The chip -/

/-- The geometry of the chip and the properties of the device tree node. -/
structure Chip where
  blockCount : ℕ
  pagesPerBlk : ℕ
  pgWords : ℕ
  oobSize : ℕ
  maxRatio : ℕ
  maxReservedBlocks : ℕ
  emptyPageEccOk : Bool
  bitflipThreshold : ℕ
  eccStrength : ℕ
  pagesPerBlk_pos : 0 < pagesPerBlk
  pgWords_pos : 0 < pgWords
  /-- Block numbers have 16 bits. -/
  blockCount_lt : blockCount < 0x10000

/-- A chip whose management region is a part of it in sixteenths, not all of it. -/
structure Geometry extends Chip where
  sixteen_le : 16 ≤ blockCount
  maxRatio_lt : maxRatio < 16

instance : Coe Geometry Chip := ⟨Geometry.toChip⟩

namespace Chip

variable (g : Chip)

/-- Round a number of words up to whole pages. -/
def alignPages (words : ℕ) : ℕ := (words + g.pgWords - 1) / g.pgWords * g.pgWords

def stateTableWords : ℕ := (g.blockCount + 15) / 16

def mappingTableWords : ℕ := g.blockCount

/-- Where the state table starts, after the header of eight words. -/
def stateTableOff : ℕ := g.alignPages 8

def mappingTableOff : ℕ := g.stateTableOff + g.alignPages g.stateTableWords

def infoTableWords : ℕ := g.mappingTableOff + g.alignPages g.mappingTableWords

def infoTablePages : ℕ := g.infoTableWords / g.pgWords

/-- The erase blocks that hold an information table. -/
def infoTableBlks : ℕ := (g.infoTablePages + g.pagesPerBlk - 1) / g.pagesPerBlk

/-- The good blocks left free between the two tables. -/
def infoTableSpareBlocks : ℕ := max 2 ((g.infoTableBlks + 1) / 2)

end Chip

/-! ## Memory -/

def blockStBad : Word := 0
def blockStNeedRemap : Word := 2
def blockStGood : Word := 3

/-- `NMM0` and `NMM1`. -/
def magicSignature : Word := 0x304d4d4e
def magicInfoTable : Word := 0x314d4d4e

def nmbmVer : Word := 1

/-- The header of an information table, offsets and size in bytes. -/
structure InfoTableHeader where
  magic : Word
  version : Word
  size : Word
  checksum : Word
  writeCount : Word
  stateTableOff : Word
  mappingTableOff : Word
  padding : Word
  deriving DecidableEq

/-- The signature, sizes in bytes. -/
structure Signature where
  magic : Word
  version : Word
  size : Word
  checksum : Word
  nandSizeLow : Word
  nandSizeHigh : Word
  blockSize : Word
  pageSize : Word
  spareSize : Word
  mgmtStartPb : Word
  maxTryCount : Word
  tail : Word
  deriving DecidableEq

/-- The instance. The ends of the tables are kept beside their starts: the source
has them in local variables when it records a start. -/
structure Instance where
  blockState : ℕ → Word
  blockStateChanged : ℕ
  blockMapping : ℕ → ℤ
  blockMappingChanged : ℕ
  isProtected : Bool
  dataBlockCount : ℕ
  mgmtStartBa : ℕ
  mainTableBa : ℕ
  mainTableEnd : ℕ
  backupTableBa : ℕ
  backupTableEnd : ℕ
  mappingBlocksBa : ℕ
  mappingBlocksTopBa : ℕ
  signatureBa : ℕ
  signature : Signature
  infoTable : InfoTableHeader
  infoTableCache : List Page

namespace Instance

variable (ni : Instance)

def getBlockState (ba : ℕ) : Word := packedGet 2 16 ni.blockState ba

def setBlockState (ba : ℕ) (state : Word) : Instance :=
  { ni with
    blockState := packedSet 2 16 ni.blockState ba (state &&& 3)
    blockStateChanged :=
      if ni.getBlockState ba = state &&& 3 then ni.blockStateChanged
      else ni.blockStateChanged + 1 }

def IsGood (ba : ℕ) : Prop := ni.getBlockState ba = blockStGood

instance (ba : ℕ) : Decidable (ni.IsGood ba) :=
  inferInstanceAs (Decidable (ni.getBlockState ba = blockStGood))

/-- Walk up from `ba`, at most `fuel` blocks, and return the good block after
`count` good ones. -/
def walkAscFrom : (fuel ba count : ℕ) → Option ℕ
  | 0, _, _ => none
  | fuel + 1, ba, count =>
    if ni.IsGood ba then
      match count with
      | 0 => some ba
      | count + 1 => walkAscFrom fuel (ba + 1) count
    else walkAscFrom fuel (ba + 1) count

/-- Skip `count` good blocks from `ba` up, below `limit`. -/
def blockWalkAsc (g : Chip) (ba count limit : ℕ) : Option ℕ :=
  ni.walkAscFrom (min limit (g.blockCount - 1) - ba) ba count

/-- Walk down from `ba`, at most `fuel` blocks, and return the good block after
`count` good ones. -/
def walkDescFrom : (fuel ba count : ℕ) → Option ℕ
  | 0, _, _ => none
  | fuel + 1, ba, count =>
    if ni.IsGood ba then
      match count with
      | 0 => some ba
      | count + 1 => walkDescFrom fuel (ba - 1) count
    else walkDescFrom fuel (ba - 1) count

/-- Skip `count` good blocks from `ba` down, above `limit`. -/
def blockWalkDesc (g : Chip) (ba count limit : ℕ) : Option ℕ :=
  ni.walkDescFrom (ba - min limit (g.blockCount - 1)) ba count

end Instance

/-! ## Device operations -/

/-- The operations of the driver. A read tells what it returns on the given try,
the error code or the number of bitflips and the words of the page; the others
tell whether they succeeded. -/
structure Mtd (σ : Type) where
  readOob : σ → (ba page tries : ℕ) → ℤ × Page
  writeOob : σ → (ba page : ℕ) → Page → Bool × σ
  erase : σ → (ba : ℕ) → Bool × σ
  blockIsBad : σ → (ba : ℕ) → Bool
  blockMarkbad : σ → (ba : ℕ) → σ

/-- `NMBM_TRY_COUNT` -/
def tryCount : ℕ := 3

section Device

variable {σ : Type} (g : Chip) (mtd : Mtd σ)

/-- The operations as the code shared by the backends uses them. -/
def Mtd.nand : Nand σ Unit Page where
  read _ _ _ := none
  readPage s ba page :=
    let (ret, data) := mtd.readOob s ba page 0
    if ret < 0 ∧ ret ≠ eUclean then none else some data
  erase := mtd.erase
  writeTable s _ _ _ := (false, s)
  writePage := mtd.writeOob

/-- Read a page, trying again from the given try on. -/
def readPhysPageFrom (s : σ) (ba page : ℕ) : (left tries : ℕ) → ℤ × Page
  | 0, tries => mtd.readOob s ba page tries
  | left + 1, tries =>
    let (ret, data) := mtd.readOob s ba page tries
    if ret = eUclean then (min (g.bitflipThreshold + 1) g.eccStrength, data)
    else if 0 ≤ ret then (0, data)
    else if left = 0 then (ret, data)
    else readPhysPageFrom s ba page left (tries + 1)

/-- Read a page with retry: an error, or the bitflips that were corrected. -/
def readPhysPage (s : σ) (ba page : ℕ) : ℤ × Page :=
  readPhysPageFrom g mtd s ba page tryCount 0

/-- Try an operation until it succeeds. -/
def retry (op : σ → Bool × σ) : ℕ → σ → Bool × σ
  | 0, s => (false, s)
  | left + 1, s =>
    match op s with
    | (true, s) => (true, s)
    | (false, s) => retry op left s

def writePhysPage (ba page : ℕ) (data : Page) (s : σ) : Bool × σ :=
  retry (fun s => mtd.writeOob s ba page data) tryCount s

def erasePhysBlock (ba : ℕ) (s : σ) : Bool × σ := retry (fun s => mtd.erase s ba) tryCount s

def eraseBlockAndCheck (ba : ℕ) (s : σ) : Bool × σ :=
  match erasePhysBlock mtd ba s with
  | (false, s) => (false, s)
  | (true, s) =>
    if g.emptyPageEccOk then
      ((List.range g.pagesPerBlk).all fun page =>
        decide ((readPhysPage g mtd s ba page).1 ≠ eBadMsg), s)
    else (true, s)

/-- Write pages from `page` on, reading each back; `size` words of a page count. -/
def writeVerifyFrom (ba size : ℕ) : List Page → (page : ℕ) → σ → Bool × σ
  | [], _, s => (true, s)
  | data :: rest, page, s =>
    match writePhysPage mtd ba page data s with
    | (false, s) => (false, s)
    | (true, s) =>
      let (ret, back) := readPhysPage g mtd s ba page
      if ret < 0 then (false, s)
      else if back.take size = data.take size then writeVerifyFrom ba size rest (page + 1) s
      else (false, s)

/-- Write whole pages into a block and verify them. -/
def writeVerifyData (ba : ℕ) (data : List Page) (s : σ) : Bool × σ :=
  writeVerifyFrom g mtd ba g.pgWords data 0 s

def writeRepeatedData (ba : ℕ) (data : List Word) (s : σ) : Bool × σ :=
  if g.pgWords < data.length then (false, s)
  else
    let page := data ++ List.replicate (g.pgWords - data.length) (-1)
    writeVerifyFrom g mtd ba data.length (List.replicate g.pagesPerBlk page) 0 s

end Device

/-! ## The instance on its flash -/

/-- The instance and the state of the device. -/
structure Sys (σ : Type) where
  ni : Instance
  dev : σ

section Blocks

variable {σ : Type} (g : Chip) (mtd : Mtd σ)

/-- Record that the driver knows a block as bad. -/
def Sys.noteBad (x : Sys σ) (ba : ℕ) : Sys σ :=
  { x with ni := x.ni.setBlockState ba blockStBad }

/-- Mark a block bad, on the flash and in the state table. -/
def Sys.markBad (x : Sys σ) (ba : ℕ) : Sys σ :=
  { ni := x.ni.setBlockState ba blockStBad, dev := mtd.blockMarkbad x.dev ba }

/-- Record the bad blocks of the chip from `ba` on. -/
def scanBadblocksFrom : (fuel ba : ℕ) → Sys σ → Sys σ
  | 0, _, x => x
  | fuel + 1, ba, x =>
    scanBadblocksFrom fuel (ba + 1) (if mtd.blockIsBad x.dev ba then x.noteBad ba else x)

/-- Record all bad blocks of the chip. -/
def scanBadblocks (x : Sys σ) : Sys σ := scanBadblocksFrom mtd g.blockCount 0 x

/-- Erase the good blocks of a range; those that fail are marked bad. -/
def eraseRangeFrom : (fuel ba : ℕ) → Sys σ → Sys σ
  | 0, _, x => x
  | fuel + 1, ba, x =>
    if ¬ x.ni.IsGood ba then eraseRangeFrom fuel (ba + 1) x
    else if mtd.blockIsBad x.dev ba then eraseRangeFrom fuel (ba + 1) (x.noteBad ba)
    else
      match eraseBlockAndCheck g mtd ba x.dev with
      | (true, s) => eraseRangeFrom fuel (ba + 1) { x with dev := s }
      | (false, s) => eraseRangeFrom fuel (ba + 1) (Sys.markBad mtd { x with dev := s } ba)

/-- Erase the blocks from `ba` to below `limit`. -/
def eraseRange (ba limit : ℕ) (x : Sys σ) : Sys σ := eraseRangeFrom g mtd (limit - ba) ba x

/-- Write pages into the good blocks of a range, from `ba` on, at most `fuel`
blocks. Returns the first block written and the block after the last one. -/
def writeMgmtRangeFrom : (fuel ba : ℕ) → (start : Option ℕ) → List Page → Sys σ →
    Option (ℕ × ℕ) × Sys σ
  | _, ba, start, [], x => (some (start.getD ba, ba), x)
  | 0, _, _, _ :: _, x => (none, x)
  | fuel + 1, ba, start, page :: rest, x =>
    let data := page :: rest
    if ¬ x.ni.IsGood ba then writeMgmtRangeFrom fuel (ba + 1) start data x
    else if mtd.blockIsBad x.dev ba then
      writeMgmtRangeFrom fuel (ba + 1) start data (x.noteBad ba)
    else
      match eraseBlockAndCheck g mtd ba x.dev with
      | (false, s) =>
        writeMgmtRangeFrom fuel (ba + 1) start data (Sys.markBad mtd { x with dev := s } ba)
      | (true, s) =>
        match writeVerifyData g mtd ba (data.take g.pagesPerBlk) s with
        | (false, s) =>
          writeMgmtRangeFrom fuel (ba + 1) start data
            (Sys.markBad mtd { x with dev := s } ba)
        | (true, s) =>
          writeMgmtRangeFrom fuel (ba + 1) (some (start.getD ba))
            (data.drop g.pagesPerBlk) { x with dev := s }

/-- Write pages into the good blocks from `ba` to below `limit`. -/
def writeMgmtRange (ba limit : ℕ) (data : List Page) (x : Sys σ) : Option (ℕ × ℕ) × Sys σ :=
  writeMgmtRangeFrom g mtd (limit - ba) ba none data x

end Blocks

end OpenWrt.MtkBmt.Nmbm
