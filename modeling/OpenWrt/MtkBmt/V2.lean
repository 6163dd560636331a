/-
# The version 2 bad block table

Logical blocks below the pool are mapped by `bb_tbl`. The first scan gives each
of them the next good block, and lists the good blocks that remain as a pool in
`bmt_tbl`. A logical block that fails later gets a free block of the pool. The
table itself is kept in the last pool block that accepts it, and `upload_bmt`
walks down from the block it was in until an erase and a write succeed.

At the next boot the blocks are read from the last one down for a table with the
right signatures.
-/

import Mathlib.Data.List.Basic
import OpenWrt.MtkBmt.Nand

namespace OpenWrt.MtkBmt.V2

/-! ## Tables -/

/-- The use of a pool block. -/
inductive Mapped
  | noMapped
  | normalMapped
  | bmtMapped
  | other (value : ℕ)
  deriving DecidableEq

/-- An entry of the pool table; block 0 ends the table or marks a lost entry. -/
structure Bbmt where
  block : ℕ
  mapped : Mapped

/-- The table as it is kept in memory and on the flash. -/
structure Bbbt where
  signature : List UInt8
  version : UInt8
  bbTbl : ℕ → ℕ
  bmtTbl : ℕ → Bbmt

/-- `BMT` -/
def mainSignature : List UInt8 := [0x42, 0x4d, 0x54]

/-- `bmt`, written to the spare area. -/
def oobSignature : List UInt8 := [0x62, 0x6d, 0x74]

def bbmtVersion : UInt8 := 2

/-- What `upload_bmt` returns when no block took the table. -/
def noIndex : ℕ := 0xffff

/-- The geometry of the flash and the properties of the device tree node. -/
structure Config where
  totalBlks : ℕ
  blkPages : ℕ
  pgSize : ℕ
  bmtPoolSize : ℕ
  tableSize : ℕ
  /-- The pool and the two blocks before it are blocks of the flash. -/
  pool_le : bmtPoolSize + 2 ≤ totalBlks
  /-- Block numbers have 16 bits. -/
  total_lt : totalBlks < 0xffff

namespace Config

variable (c : Config)

/-- The first block of the pool, and the number of logical blocks in `bb_tbl`. -/
def poolLba : ℕ := c.totalBlks - c.bmtPoolSize

/-- The number of bad blocks in a row that the vendor allows. -/
def bbMax : ℕ := c.totalBlks * 2 / 100

/-- The pages that store the table. -/
def bmtPgs : ℕ := (4 + c.tableSize * 4 + c.pgSize - 1) / c.pgSize

theorem poolLba_pos : 0 < c.poolLba := by
  have := c.pool_le
  unfold poolLba
  omega

end Config

/-- What the driver keeps in memory. -/
structure Desc where
  bbt : Bbbt
  poolPba : ℕ
  bmtBlkIdx : ℕ

namespace Desc

variable (d : Desc)

/-- The block an index of the pool stands for. -/
def poolBlock (k : ℕ) : ℕ := (d.bbt.bmtTbl k).block

def poolUse (k : ℕ) : Mapped := (d.bbt.bmtTbl k).mapped

def tableBlock : ℕ := d.poolBlock d.bmtBlkIdx

end Desc

/-! ## The first scan -/

section Scan

variable (c : Config) (isBad : ℕ → Bool)

/-- The first good block from `block` on, skipping `loops` bad ones at most. -/
def findValidBlockFrom : (loops block : ℕ) → ℕ
  | loops, block =>
    if c.totalBlks ≤ block then 0
    else if isBad block then
      match loops with
      | 0 => 0
      | loops + 1 => findValidBlockFrom loops (block + 1)
    else block

/-- The first good block from `block` on, or 0. -/
def findValidBlock (block : ℕ) : ℕ := findValidBlockFrom c isBad c.bbMax block

/-- Map the logical blocks up to the given one, each to the next good block.
Block 0 is guaranteed to be good and is not read. -/
def scanData (old : ℕ → ℕ) : ℕ → Option (ℕ → ℕ)
  | 0 => some (Function.update old 0 0)
  | i + 1 => do
      let bbTbl ← scanData old i
      let block := findValidBlock c isBad (bbTbl i + 1)
      if block = 0 then none else some (Function.update bbTbl (i + 1) block)

/-- List the good blocks from `block` on as free entries from index `i` on. The
number of blocks left bounds the loop. -/
def scanPool : (fuel block i : ℕ) → (ℕ → Bbmt) → (ℕ → Bbmt) × ℕ
  | 0, _, i, bmtTbl => (bmtTbl, i)
  | fuel + 1, block, i, bmtTbl =>
    let found := findValidBlock c isBad block
    if found = 0 then (bmtTbl, i)
    else scanPool fuel (found + 1) (i + 1) (Function.update bmtTbl i ⟨found, .noMapped⟩)

/-- Fill both tables of an empty buffer; the last pool block becomes the table's. -/
def scanBadBlocks (bbt : Bbbt) : Option Desc := do
  let bbTbl ← scanData c isBad bbt.bbTbl (c.poolLba - 1)
  let poolPba := bbTbl (c.poolLba - 1) + 1
  if c.totalBlks - 2 ≤ poolPba then none
  else
    let (bmtTbl, i) := scanPool c isBad c.totalBlks poolPba 0 bbt.bmtTbl
    if i < 1 then none
    else
      some
        { bbt := { bbt with
            bbTbl := bbTbl
            bmtTbl := Function.update bmtTbl (i - 1) ⟨(bmtTbl (i - 1)).block, .bmtMapped⟩ }
          poolPba := poolPba
          bmtBlkIdx := i - 1 }

end Scan

/-! ## Storing and finding the table -/

section Flash

variable {σ Page : Type} (c : Config) (nand : Nand σ Bbbt Page)

/-- A block whose first page cannot be read or whose bad block marker is set. -/
def blockBad (s : σ) (block : ℕ) : Bool :=
  match nand.read s block 1 with
  | none => true
  | some readout => readout.fdm[0]? ≠ some 0xff

/-- Zero the block of an entry that did not take the table. -/
def Bbbt.drop (bbt : Bbbt) (n : ℕ) : Bbbt :=
  { bbt with bmtTbl := Function.update bbt.bmtTbl n ⟨0, (bbt.bmtTbl n).mapped⟩ }

/-- The signature and version that are put in before each write. -/
def Bbbt.sign (bbt : Bbbt) : Bbbt :=
  { bbt with signature := mainSignature, version := bbmtVersion }

/-- Store the table below the given count of entries, trying each in turn from
the top, down to a spare in use. -/
def uploadFrom : ℕ → Bbbt → σ → ℕ × Bbbt × σ
  | 0, bbt, s => (noIndex, bbt, s)
  | n + 1, bbt, s =>
    if (bbt.bmtTbl n).mapped = .normalMapped then (noIndex, bbt, s)
    else
      match nand.erase s (bbt.bmtTbl n).block with
      | (false, s) => uploadFrom n (bbt.drop n) s
      | (true, s) =>
        match nand.writeTable s (bbt.bmtTbl n).block oobSignature bbt.sign with
        | (false, s) => uploadFrom n (bbt.sign.drop n) s
        | (true, s) => (n, bbt.sign, s)

/-- Store the table at entry `n` or below. -/
def uploadBmt (bbt : Bbbt) (n : ℕ) (s : σ) : ℕ × Bbbt × σ :=
  uploadFrom nand (n + 1) bbt s

/-- Store the table from the index it has, and keep the index it gets. -/
def upload (d : Desc) (s : σ) : Desc × σ :=
  match uploadBmt nand d.bbt d.bmtBlkIdx s with
  | (index, bbt, s) => ({ d with bbt := bbt, bmtBlkIdx := index }, s)

/-- The signatures and the version are those of this table. -/
def isValidBmt (readout : Readout Bbbt) : Bool :=
  readout.data.signature = mainSignature ∧ (readout.fdm.drop 1).take 3 = oobSignature ∧
    readout.data.version = bbmtVersion

/-- The entry that is marked as the table's, up to the first empty entry. -/
def getBmtIndexFrom (bmtTbl : ℕ → Bbmt) : (fuel i : ℕ) → ℕ
  | 0, _ => 0
  | fuel + 1, i =>
    if (bmtTbl i).block = 0 then 0
    else if (bmtTbl i).mapped = .bmtMapped then i
    else getBmtIndexFrom bmtTbl fuel (i + 1)

/-- The search over the entries an index of 16 bits can name. -/
def getBmtIndex (bmtTbl : ℕ → Bbmt) : ℕ := getBmtIndexFrom bmtTbl 0x10000 0

/-- Read `count` blocks of the pool from the last one down for a table; a table
without an index ends the search. -/
def findTable (s : σ) : (count : ℕ) → Option (Bbbt × ℕ)
  | 0 => none
  | count + 1 =>
    match nand.read s (c.poolLba + count) c.bmtPgs with
    | none => findTable s count
    | some readout =>
      if isValidBmt readout then
        let index := getBmtIndex readout.data.bmtTbl
        if index = 0 then none else some (readout.data, index)
      else findTable s count

/-- A buffer for a table that is built from nothing. -/
def emptyBbt (old : Bbbt) : Bbbt := { old with bmtTbl := fun _ => ⟨0, .noMapped⟩ }

/-- Build a table by a scan and store it. -/
def initFresh (old : Bbbt) (s : σ) : Option (Desc × σ) :=
  if c.tableSize + c.tableSize * 2 / 100 < c.totalBlks then none
  else
    match scanBadBlocks c (blockBad nand s) (emptyBbt old) with
    | none => none
    | some scanned =>
      match upload nand scanned s with
      | (d, s) => if d.bmtBlkIdx = noIndex then none else some (d, s)

/-- Boot: use the table on the flash, or build one. What the search left in the
buffer is `old`. -/
def mtkBmtInitV2 (old : Bbbt) (s : σ) : Option (Desc × σ) :=
  match findTable c nand s c.bmtPoolSize with
  | some (bbt, index) => some ({ bbt := bbt, poolPba := 0, bmtBlkIdx := index }, s)
  | none => initFresh c nand old s

/-! ## Remapping -/

/-- Take the first free block of the pool below the table's: its index. -/
def findValidBlockInPool (d : Desc) : Option ℕ :=
  (List.range d.bmtBlkIdx).find? fun i =>
    decide (d.poolBlock i ≠ 0) && decide (d.poolUse i = .noMapped)

/-- Mark an entry of the pool as a spare in use. -/
def Bbbt.use (bbt : Bbbt) (k : ℕ) : Bbbt :=
  { bbt with bmtTbl := Function.update bbt.bmtTbl k ⟨(bbt.bmtTbl k).block, .normalMapped⟩ }

def Bbbt.map (bbt : Bbbt) (block phys : ℕ) : Bbbt :=
  { bbt with bbTbl := Function.update bbt.bbTbl block phys }

/-- Make an entry of the pool the spare of a logical block. -/
def Desc.assign (d : Desc) (block k : ℕ) : Desc :=
  { d with bbt := (d.bbt.use k).map block (d.poolBlock k) }

/-- Erase a spare and copy the data of a block to it, up to `copyLen`. -/
def prepareSpare (newBlock mappedBlock copyLen : ℕ) (s : σ) : σ :=
  let s := (nand.erase s newBlock).2
  if 0 < copyLen then (nand.bbtNandCopy c.pgSize c.blkPages newBlock mappedBlock copyLen s).2
  else s

/-- Give a logical block a free block of the pool. -/
def remapBlockV2 (block mappedBlock copyLen : ℕ) (d : Desc) (s : σ) : Bool × Desc × σ :=
  match findValidBlockInPool d with
  | none => (false, d, s)
  | some k =>
    let s := prepareSpare c nand (d.poolBlock k) mappedBlock copyLen s
    (true, upload nand (d.assign block k) s)

/-- The physical block of a logical one. -/
def getMappingBlockIndexV2 (r : RemapRange) (d : Desc) (block : ℕ) : ℕ :=
  if c.poolLba ≤ block then block
  else
    match r.mappingBlockInRange block with
    | none => block
    | some _ => d.bbt.bbTbl block

/-- Map a logical block to the physical block of the same number. -/
def Desc.restore (d : Desc) (block : ℕ) : Desc := { d with bbt := d.bbt.map block block }

def unmapBlockV2 (block : ℕ) (d : Desc) (s : σ) : Desc × σ := upload nand (d.restore block) s

end Flash

end OpenWrt.MtkBmt.V2
