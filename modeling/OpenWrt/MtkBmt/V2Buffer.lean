/-
# The buffer of the version 2 table

The table is kept in one allocation: a header of four bytes, `bb_tbl` with `table_size`
numbers of two bytes, and behind it `bmt_tbl` with entries of four bytes. The size of the
allocation counts `table_size` entries of four bytes in all, rounded up to pages.

Here the setup of the driver works on the bytes of the allocation, and stops where it
would leave it. What the flash answers is given for each block, as no block is read,
erased or written twice in one phase of the setup.
-/

import Mathlib.Algebra.Group.Int.Defs
import Mathlib.Algebra.Group.Nat.Defs
import OpenWrt.Lib.Fault

namespace OpenWrt.MtkBmt.V2.Buffer

open OpenWrt.Lib

/-! ## Memory -/

/-- Bytes by their distance from the start of the allocation. -/
abbrev Bytes := ℕ → UInt8

/-- The `u16` at an offset. -/
def get16 (buf : Bytes) (off : ℕ) : ℕ := (buf off).toNat + 256 * (buf (off + 1)).toNat

/-- Put a `u16` at an offset. -/
def put16 (buf : Bytes) (off value : ℕ) : Bytes :=
  Function.update (Function.update buf off (UInt8.ofNat value)) (off + 1) (UInt8.ofNat (value / 256))

/-- Why a setup stops: it leaves the allocation, it reads blocks forever, or it fails. -/
inductive Stop where
  | outside
  | hang
  | fail
deriving DecidableEq

/-- The flash and the device tree node as the setup sees them. Numbers that the node does
not give have a default. -/
structure Setup where
  totalBlks : UInt16
  pgSize : UInt32
  /-- `ffs(pg_size) - 1`. -/
  pgShift : ℕ
  bmtPoolSize : Option UInt32
  bmtTableSize : Option UInt32
  /-- Whether there is memory for an allocation. -/
  kzalloc : ℕ → Bool
  /-- The length of a read is passed as an `int`. -/
  kzalloc_lt : ∀ size, kzalloc size → size < 2 ^ 31

namespace Setup

variable (c : Setup)

/-- `total_blks` as a number. -/
def total : ℕ := c.totalBlks.toNat

/-- `table_size`. -/
def tableSize : ℕ := (c.bmtTableSize.getD 0x2000).toNat

/-- `pmt_block`, a `u16`. -/
def pmtBlock : ℕ := (c.total + 2 ^ 32 - (c.bmtPoolSize.getD 80).toNat + 2 ^ 32 - 2) % 2 ^ 16

/-- `pool_lba`. -/
def poolLba : ℕ := (c.pmtBlock + 2) % 2 ^ 16

/-- `bb_max`. -/
def bbMax : ℕ := c.total * 2 / 100

/-- `round_up(sizeof(struct bbbt) + bmt_table_size * sizeof(struct bbmt), pg_size)` as a
`u32`. -/
def bufsz : ℕ :=
  (((4 + c.tableSize * 4 - 1) ||| ((c.pgSize.toNat + 2 ^ 32 - 1) % 2 ^ 32)) + 1) % 2 ^ 32

/-- The end of the pages that are written. -/
def written : ℕ := (c.bufsz >>> c.pgShift) <<< c.pgShift

/-- `total_blks > BB_TABLE_MAX + BMT_TABLE_MAX`, in `u32`. -/
def TooMany : Prop := (c.tableSize + c.tableSize * 2 % 2 ^ 32 / 100) % 2 ^ 32 < c.total

instance : Decidable c.TooMany := inferInstanceAs (Decidable (_ < _))

/-- The offset of `bb_tbl[i]`. -/
def bbTbl (i : ℕ) : ℕ := 4 + 2 * i

/-- The offset of `bmt_tbl[i]`. -/
def bmtTbl (i : ℕ) : ℕ := bbTbl c.tableSize + 4 * i

/-- The blocks that are searched for a table, from the last one down to the pool. The
number of a block is a `u16`, and one below 0 is the last of all: without a lower bound the
search goes over all numbers again and again. -/
def searched : List ℕ :=
  let last := (c.total + 2 ^ 16 - 1) % 2 ^ 16
  let count := if c.poolLba = 0 then 2 ^ 16 else last + 1 - c.poolLba
  (List.range count).map fun turn => (last + 2 ^ 16 - turn) % 2 ^ 16

end Setup

/-- What the flash answers: whether the first pages of a block can be read, what they leave
in the buffer and the spare bytes; the first spare byte of its first page; whether
an erase and a write succeed. -/
structure Flash where
  readTable : ℕ → Bool × Bytes × List UInt8
  readFdm : ℕ → Option UInt8
  erase : ℕ → Bool
  write : ℕ → Bool

/-! ## Accesses -/

section Accesses

variable (c : Setup)

/-- Access some bytes. -/
def touch (off len : ℕ) : Except Stop Unit :=
  if len = 0 ∨ off + len ≤ c.bufsz then .ok () else .error .outside

/-- Read a `u16`. -/
def load16 (buf : Bytes) (off : ℕ) : Except Stop ℕ := do
  touch c off 2
  pure (get16 buf off)

/-- Write a `u16`. -/
def store16 (buf : Bytes) (off value : ℕ) : Except Stop Bytes := do
  touch c off 2
  pure (put16 buf off value)

/-- `memset` with zeros. -/
def memset (buf : Bytes) (off len : ℕ) : Except Stop Bytes := do
  touch c off len
  pure fun i => if off ≤ i ∧ i < off + len then 0 else buf i

end Accesses

/-! ## The first scan -/

section Scan

variable (c : Setup) (flash : Flash)

/-- The first page of a block cannot be read or is marked. -/
def Flash.isBad (block : ℕ) : Bool := flash.readFdm block ≠ some 0xff

/-- The first good block from `block` on, skipping `loops` bad ones at most. -/
def findValidBlockFrom : (loops block : ℕ) → ℕ
  | loops, block =>
    if c.total ≤ block then 0
    else if flash.isBad block then
      match loops with
      | 0 => 0
      | loops + 1 => findValidBlockFrom loops (block + 1)
    else block

/-- `find_valid_block`. -/
def findValidBlock (block : ℕ) : ℕ := findValidBlockFrom c flash c.bbMax block

/-- A turn of the loop over `bb_tbl`. -/
def scanStep (buf : Bytes) (i : ℕ) : Except Stop Bytes := do
  let before ← load16 c buf (Setup.bbTbl (i - 1))
  let buf ← store16 c buf (Setup.bbTbl i) (findValidBlock c flash ((before + 1) % 2 ^ 16))
  let block ← load16 c buf (Setup.bbTbl i)
  if block = 0 then .error .fail else pure buf

/-- The loop over the pool. The number of blocks left bounds it. -/
def scanPool : (fuel block i : ℕ) → Bytes → Except Stop (Bytes × ℕ)
  | 0, _, _, _ => .error .hang
  | fuel + 1, block, i, buf =>
    let found := findValidBlock c flash block
    if found = 0 then pure (buf, i)
    else do
      let buf ← store16 c buf (c.bmtTbl i) found
      let buf ← store16 c buf (c.bmtTbl i + 2) 0
      scanPool fuel (found + 1) (i + 1) buf

/-- `scan_bad_blocks`, with the index of the block for the table. -/
def scanBadBlocks (buf : Bytes) : Except Stop (ℕ × Bytes) := do
  let buf ← store16 c buf (Setup.bbTbl 0) 0
  let buf ← (List.range' 1 (c.poolLba - 1)).foldlM (scanStep c flash) buf
  let last ← load16 c buf (Setup.bbTbl (c.poolLba - 1))
  let poolPba := (last + 1) % 2 ^ 16
  if c.total - 2 ≤ poolPba then .error .fail
  else
    let (buf, i) ← scanPool c flash (c.total + 1) poolPba 0 buf
    let bmtBlkIdx := (i + 2 ^ 16 - 1) % 2 ^ 16
    let buf ← store16 c buf (c.bmtTbl bmtBlkIdx + 2) 2
    if i < 1 then .error .fail else pure (bmtBlkIdx, buf)

end Scan

/-! ## Storing and finding the table -/

section Table

variable (c : Setup) (flash : Flash)

/-- The signature and the version, written before each write of the table. -/
def sign (buf : Bytes) : Except Stop Bytes := do
  touch c 0 3
  touch c 3 1
  pure fun i => [0x42, 0x4d, 0x54, 2].getD i (buf i)

/-- `upload_bmt` from the entry below the count on. -/
def uploadBmt : ℕ → Bytes → Except Stop (ℕ × Bytes)
  | 0, buf => pure (2 ^ 16 - 1, buf)
  | n + 1, buf => do
      let mapped ← load16 c buf (c.bmtTbl n + 2)
      if mapped = 1 then pure (2 ^ 16 - 1, buf)
      else do
        let block ← load16 c buf (c.bmtTbl n)
        if flash.erase block then do
          let buf ← sign c buf
          touch c 0 c.written
          if flash.write block then pure (n, buf)
          else do
            let buf ← store16 c buf (c.bmtTbl n) 0
            uploadBmt n buf
        else do
          let buf ← store16 c buf (c.bmtTbl n) 0
          uploadBmt n buf

/-- The signatures and the version are those of this table. -/
def validBmt (buf : Bytes) (fdm : List UInt8) : Bool :=
  (List.range 3).map buf = [0x42, 0x4d, 0x54] ∧ (fdm.drop 1).take 3 = [0x62, 0x6d, 0x74] ∧ buf 3 = 2

/-- `is_valid_bmt`. -/
def isValidBmt (buf : Bytes) (fdm : List UInt8) : Except Stop Bool := do
  touch c 0 3
  if (List.range 3).map buf = [0x42, 0x4d, 0x54] ∧ (fdm.drop 1).take 3 = [0x62, 0x6d, 0x74] then do
    touch c 3 1
    pure (buf 3 = 2)
  else pure false

/-- `get_bmt_index` from an entry on. The allocation ends before as many entries as it has
bytes. -/
def getBmtIndexFrom (buf : Bytes) : (fuel i : ℕ) → Except Stop ℕ
  | 0, _ => .error .outside
  | fuel + 1, i => do
      let block ← load16 c buf (c.bmtTbl i)
      if block = 0 then pure 0
      else do
        let mapped ← load16 c buf (c.bmtTbl i + 2)
        if mapped = 2 then pure (i % 2 ^ 16) else getBmtIndexFrom buf fuel (i + 1)

/-- `get_bmt_index`. -/
def getBmtIndex (buf : Bytes) : Except Stop ℕ := getBmtIndexFrom c buf (c.bufsz + 1) 0

/-- The search for a table: the index of the block it is in, if there is one, and the
buffer. -/
def findTable : List ℕ → Bytes → Except Stop (Option ℕ × Bytes)
  | [], buf => if c.poolLba = 0 then .error .hang else pure (none, buf)
  | block :: blocks, _ => do
      touch c 0 c.bufsz
      let (isRead, buf, fdm) := flash.readTable block
      if isRead then do
        let isValid ← isValidBmt c buf fdm
        if isValid then do
          let bmtBlkIdx ← getBmtIndex c buf
          if bmtBlkIdx = 0 then pure (none, buf) else pure (some bmtBlkIdx, buf)
        else findTable blocks buf
      else findTable blocks buf

/-- Build a table and store it. -/
def initFresh (buf : Bytes) : Except Stop (ℕ × Bytes) :=
  if c.TooMany then .error .fail
  else do
    let buf ← memset c buf (c.bmtTbl 0) (c.tableSize * 4)
    let (bmtBlkIdx, buf) ← scanBadBlocks c flash buf
    let (bmtBlkIdx, buf) ← uploadBmt c flash (bmtBlkIdx + 1) buf
    -- the block, for a message
    let _ ← load16 c buf (c.bmtTbl bmtBlkIdx)
    if bmtBlkIdx = 2 ^ 16 - 1 then .error .fail else pure (bmtBlkIdx, buf)

/-- `mtk_bmt_init_v2`. -/
def mtkBmtInitV2 : Except Stop (ℕ × Bytes) :=
  if c.kzalloc c.bufsz then do
    touch c 0 c.bufsz
    let (bmtBlkIdx, buf) ← findTable c flash c.searched fun _ => 0xff
    match bmtBlkIdx with
    | some bmtBlkIdx => pure (bmtBlkIdx, buf)
    | none => initFresh c flash buf
  else .error .fail

end Table

end OpenWrt.MtkBmt.V2.Buffer
