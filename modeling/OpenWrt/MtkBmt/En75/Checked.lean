/-
# The tables in memory with their sizes

The driver has three arrays: the entries of mapped blocks, those of factory bad blocks, and
one for the reserve area. Here its functions check every index against the size of
the array, and every step of a size field against its eight bits, and stop at the first
breach. What the flash answers is arbitrary, and may depend on all that was done to it.
-/

import OpenWrt.Lib.Fault
import OpenWrt.MtkBmt.En75.Driver

namespace OpenWrt.MtkBmt.En75.Checked

open OpenWrt.Lib

/-! ## Data -/

/-- An index that is not in its array, or a size field that wraps. -/
inductive Breach where
  | outside
  | wraps
deriving DecidableEq

/-- `bbt_table`, with what follows its last entry. -/
structure RawBbt where
  version : UInt8
  size : UInt8
  table : ℕ → UInt16

/-- `en75_bmt_m`, and the entries of the workspace that a table of factory bad blocks is
read into. -/
structure Mem where
  bbt : RawBbt
  workspace : ℕ → UInt16
  bbtTableSize : ℕ
  bmt : Bmt
  rblocks : ℕ → BlockInfo
  /-- How many blocks there is memory for in `rblocks`. -/
  allocated : ℕ
  reserveAreaBegin : ℕ
  canRemapRanges : List (ℕ × ℕ)
  bbtDirty : Int8
  bmtDirty : Int8
  canWriteFactoryBbt : Bool

/-- The size of the flash and the properties of the device tree node. -/
structure Node where
  totalBlks : UInt16
  bbtTableSize : Option UInt32
  assertReserveSize : Option ℤ
  canWriteFactoryBbt : Bool
  /-- More than `MAX_FACTORY_BAD_BLOCKS_OF` are not read. -/
  factoryBadblocks : Option (List UInt32)
  factoryBadblocks_le : ∀ blocks ∈ factoryBadblocks, blocks.length ≤ 32
  enableRemap : Bool
  remapPartitions : List (ℕ × ℕ)

/-- The operations of the flash, and whether there is memory for `rblocks`. -/
structure Chip (σ : Type) where
  /-- The first page of a block and its spare bytes. -/
  read : ℕ → σ → Option (List UInt8 × Fdm) × σ
  /-- Write to the data or to the spare bytes. -/
  write : (block : ℕ) → (data oob : List UInt8) → σ → Bool × σ
  erase : ℕ → σ → Bool × σ
  copy : (dest src len : ℕ) → σ → Bool × σ
  krealloc : ℕ → Bool

/-! ## Accesses -/

/-- An index of an array of some capacity. -/
def check (i cap : ℕ) : Except Breach Unit := if i < cap then .ok () else .error .outside

/-- The first entries of an array. -/
def checkAll (n cap : ℕ) : Except Breach Unit := if n ≤ cap then .ok () else .error .outside

/-- Add one to a size field. -/
def increase (size : UInt8) : Except Breach UInt8 :=
  if size = 0xff then .error .wraps else .ok (size + 1)

/-- Take one from a size field. -/
def decrease (size : UInt8) : Except Breach UInt8 :=
  if size = 0 then .error .wraps else .ok (size - 1)

/-- Look at entries from `i` up for one of a kind, `n` of them at most. -/
def findUp (cap : ℕ) (p : ℕ → Bool) : (n i : ℕ) → Except Breach (Option ℕ)
  | 0, _ => pure none
  | n + 1, i => do
      check i cap
      if p i then pure (some i) else findUp cap p n (i + 1)

/-- Look at the entries below `n` for one of a kind, from the last one down. -/
def findDown (cap : ℕ) (p : ℕ → Bool) : (n : ℕ) → Except Breach (Option ℕ)
  | 0 => pure none
  | n + 1 => do
      check n cap
      if p n then pure (some n) else findDown cap p n

section Driver

variable {σ : Type} (node : Node) (chip : Chip σ)

/-- `total_blks` as a number. -/
def Node.total : ℕ := node.totalBlks.toNat

/-! ## In memory -/

/-- `reserve_block_count`. A count below zero is one of no blocks. -/
def reserveBlockCount (m : Mem) : ℕ := node.total - m.reserveAreaBegin

/-- Set the status of an entry of `rblocks`. -/
def Mem.setStatus (m : Mem) (i : ℕ) (status : BlockStatus) : Except Breach Mem := do
  check i m.allocated
  pure { m with rblocks := Function.update m.rblocks i { m.rblocks i with status } }

/-- `find_available_block`: an index of `rblocks`. -/
def findAvailableBlock (m : Mem) (startFromEnd : Bool) : Except Breach (Option ℕ) :=
  let isAvailable := fun i => decide ((m.rblocks i).status = .available)
  if startFromEnd then findUp m.allocated isAvailable (reserveBlockCount node m) 0
  else findDown m.allocated isAvailable (reserveBlockCount node m)

/-- `sort_bbt`: the entries up to the size in ascending order. -/
def sortBbt (size : UInt8) (table : ℕ → UInt16) : Except Breach (ℕ → UInt16) := do
  checkAll size.toNat MAX_BBT_SIZE
  let sorted := ((List.range size.toNat).map table).insertionSort (· ≤ ·)
  pure fun i => if i < size.toNat then sorted.getD i 0 else table i

/-- The loop of `get_mapping_block_bbt`. -/
def shiftFrom (m : Mem) : (n i block : ℕ) → Except Breach ℕ
  | 0, _, block => pure block
  | n + 1, i, block => do
      check i MAX_BBT_SIZE
      shiftFrom m n (i + 1) (if (m.bbt.table i).toNat ≤ block then block + 1 else block)

/-- `get_mapping_block_bbt`, with nothing for `-EINVAL`. -/
def getMappingBlockBbt (m : Mem) (block : ℕ) : Except Breach (Option ℕ) := do
  let block ← shiftFrom m m.bbt.size.toNat 0 block
  pure (if block ≥ m.reserveAreaBegin then none else some block)

/-- `get_mapping_block`. -/
def getMappingBlock (m : Mem) (block : ℕ) : Except Breach (Option ℕ) := do
  match ← getMappingBlockBbt m block with
  | none => pure none
  | some block =>
    match ← findDown MAX_BMT_SIZE (fun i => (m.bmt.entry i).fromBlock.toNat = block)
      m.bmt.size.toNat with
    | none => pure (some block)
    | some i => pure (some (m.bmt.entry i).toBlock.toNat)

/-- `block_index_is_sane` -/
def blockIndexIsSane (m : Mem) (block : ℕ) (userBlock : Bool) : Bool :=
  decide (block < node.total) &&
    if userBlock then decide (block < m.reserveAreaBegin) else decide (m.reserveAreaBegin ≤ block)

/-! ## Writing -/

/-- Try an operation again while it fails. -/
def retry (op : σ → Bool × σ) : (tries : ℕ) → σ → Bool × σ
  | 0, d => (false, d)
  | tries + 1, d =>
    match op d with
    | (true, d) => (true, d)
    | (false, d) => retry op tries d

/-- `w_write` -/
def wWrite (m : Mem) (block : ℕ) (userArea : Bool) (data oob : List UInt8) (d : σ) : Ret × σ :=
  if ¬ blockIndexIsSane node m block userArea then (.einval, d)
  else
    match retry (chip.write block data oob) WRITE_TRIES d with
    | (true, d) => (.ok, d)
    | (false, d) => (.eio, d)

/-- `w_mark_bad` -/
def wMarkBad (m : Mem) (block : ℕ) (userArea : Bool) (d : σ) : Ret × σ :=
  wWrite node chip m block userArea [] [BLOCK_WORN_MARK, 0xff, 0xff, 0xff] d

/-- `w_erase_one` -/
def wEraseOne (m : Mem) (block : ℕ) (userArea : Bool) (d : σ) : Ret × σ :=
  if ¬ blockIndexIsSane node m block userArea then (.einval, d)
  else
    match retry (chip.erase block) ERASE_TRIES d with
    | (true, d) => (.ok, d)
    | (false, d) => (.eio, d)

/-- The loop of `w_erase_pending`. -/
def erasePending : (n i : ℕ) → Mem → σ → Except Breach (Mem × σ)
  | 0, _, m, d => pure (m, d)
  | n + 1, i, m, d => do
      check i m.allocated
      let info := m.rblocks i
      if info.status ≠ .needErase then erasePending n (i + 1) m d
      else
        match wEraseOne node chip m info.index false d with
        | (.ok, d) => do
            let m ← m.setStatus i .available
            erasePending n (i + 1) m d
        | (.einval, d) => do
            let m ← m.setStatus i .bad
            erasePending n (i + 1) m d
        | (_, d) => do
            let d := (wMarkBad node chip m info.index false d).2
            let m ← m.setStatus i .bad
            erasePending n (i + 1) m d

/-- `w_erase_pending` -/
def wErasePending (m : Mem) (d : σ) : Except Breach (Mem × σ) :=
  erasePending node chip (reserveBlockCount node m) 0 m d

/-- The loop of `mark_for_erasure`. -/
def markFrom (withStatus : BlockStatus) : (n i : ℕ) → Mem → Except Breach Mem
  | 0, _, m => pure m
  | n + 1, i, m => do
      check i m.allocated
      if (m.rblocks i).status = withStatus then do
        let m ← m.setStatus i .needErase
        markFrom withStatus n (i + 1) m
      else markFrom withStatus n (i + 1) m

/-- `mark_for_erasure` -/
def markForErasure (m : Mem) (withStatus : BlockStatus) : Except Breach Mem :=
  markFrom withStatus (reserveBlockCount node m) 0 m

/-- `w_update_table`: write a table to a free block, an index of `rblocks`. -/
def wUpdateTable (startFromEnd : Bool) (buf : List UInt8) :
    (tries : ℕ) → Mem → σ → Except Breach (Option ℕ × Mem × σ)
  | 0, m, d => pure (none, m, d)
  | tries + 1, m, d => do
      match ← findAvailableBlock node m startFromEnd with
      | none => pure (none, m, d)
      | some i =>
        match wWrite node chip m (m.rblocks i).index false buf [] d with
        | (.ok, d) => pure (some i, m, d)
        | (_, d) => do
            let m ← m.setStatus i .needErase
            wUpdateTable startFromEnd buf tries m d

/-- Clear `n` entries from `i` on. -/
def clearBmtFrom : (n i : ℕ) → Bmt → Except Breach Bmt
  | 0, _, bmt => pure bmt
  | n + 1, i, bmt => do
      check i MAX_BMT_SIZE
      clearBmtFrom n (i + 1) (bmt.setEntry i ⟨0, 0⟩)

/-- Clear `n` entries from `i` on. -/
def clearBbtFrom : (n i : ℕ) → (ℕ → UInt16) → Except Breach (ℕ → UInt16)
  | 0, _, table => pure table
  | n + 1, i, table => do
      check i MAX_BBT_SIZE
      clearBbtFrom n (i + 1) (Function.update table i 0)

/-- The bytes of a table of factory bad blocks, which are written up to the configured size. -/
def bbtBytes (bbt : RawBbt) (tableSize : ℕ) : List UInt8 :=
  let entries := (List.range tableSize).flatMap fun i =>
    [(bbt.table i).toUInt8, ((bbt.table i) >>> 8).toUInt8]
  let checksum := entries.foldl (fun sum b => sum + b.toUInt16)
    (bbt.version.toUInt16 + bbt.size.toUInt16)
  [82, 65, 87, 66, checksum.toUInt8, (checksum >>> 8).toUInt8, 0, 0, bbt.version, bbt.size, 0xff, 0xff]
    ++ entries

/-- The part of `w_sync_tables` for the mapped blocks: whether it goes on to the other table. -/
def syncBmt (m : Mem) (d : σ) : Except Breach (Bool × Mem × σ) :=
  if m.bmtDirty = 0 then pure (true, m, d)
  else do
    let bmt ← clearBmtFrom (reserveBlockCount node m - m.bmt.size.toNat) m.bmt.size.toNat m.bmt
    checkAll m.bmt.size.toNat MAX_BMT_SIZE
    let m := { m with bmt := { bmt with checksum := bmtChecksum bmt bmt.size.toNat } }
    match ← wUpdateTable node chip true m.bmt.bytes UPDATE_TABLE_TRIES m d with
    | (none, m, d) => pure (false, m, d)
    | (some i, m, d) => do
        let m ← markForErasure node m .bmt
        let m ← m.setStatus i .bmt
        pure (true, { m with bmtDirty := 0 }, d)

/-- The part of `w_sync_tables` for the factory bad blocks. -/
def syncBbt (m : Mem) (d : σ) : Except Breach (Bool × Mem × σ) :=
  if m.bbtDirty = 0 ∨ ¬ m.canWriteFactoryBbt then pure (true, m, d)
  else do
    let table ← clearBbtFrom (m.bbtTableSize - m.bbt.size.toNat) m.bbt.size.toNat m.bbt.table
    checkAll m.bbtTableSize MAX_BBT_SIZE
    let m := { m with bbt := { m.bbt with table } }
    match ← wUpdateTable node chip false (bbtBytes m.bbt m.bbtTableSize) UPDATE_TABLE_TRIES m d with
    | (none, m, d) => pure (false, m, d)
    | (some i, m, d) => do
        let m ← markForErasure node m .bbt
        let m ← m.setStatus i .bbt
        pure (true, { m with bbtDirty := 0 }, d)

/-- `w_sync_tables` -/
def wSyncTables (m : Mem) (d : σ) : Except Breach (Mem × σ) := do
  let (m, d) ← wErasePending node chip m d
  let (goOn, m, d) ← syncBmt node chip m d
  if ¬ goOn then pure (m, d)
  else do
    let (goOn, m, d) ← syncBbt node chip m d
    if ¬ goOn then pure (m, d) else wErasePending node chip m d

/-! ## Remapping -/

/-- `w_make_mapping` -/
def wMakeMapping (m : Mem) (replacement : BlockInfo) (badBlockIndex : ℕ) (d : σ) : Ret × σ :=
  if badBlockIndex ≥ m.reserveAreaBegin then (.einval, d)
  else if replacement.status ≠ .available then (.einval, d)
  else
    let index := UInt16.ofNat badBlockIndex
    wWrite node chip m replacement.index false [] [0xff, 0xff, index.toUInt8, (index >>> 8).toUInt8] d

/-- The entry of a block is changed, or a new one made. -/
def remapEntry (bmt : Bmt) (block newBlock : ℕ) : Except Breach Bmt := do
  match ← findUp MAX_BMT_SIZE (fun i => (bmt.entry i).fromBlock.toNat = block) bmt.size.toNat 0 with
  | some i => pure (bmt.setEntry i { bmt.entry i with toBlock := UInt16.ofNat newBlock })
  | none => do
      check bmt.size.toNat MAX_BMT_SIZE
      let size ← increase bmt.size
      pure { bmt.setEntry bmt.size.toNat ⟨UInt16.ofNat block, UInt16.ofNat newBlock⟩ with size }

/-- `w_remap_block`, the mapped block being an index of `rblocks`. -/
def wRemapBlock (block : ℕ) (maybeMapped : Option ℕ) (copyLen : ℕ) (m : Mem) (d : σ) :
    Except Breach (Ret × Mem × σ) :=
  if m.bmt.size = 0xff then pure (.enospc, m, d)
  else do
    match ← findAvailableBlock node m false with
    | none => pure (.enospc, m, d)
    | some new =>
      match wMakeMapping node chip m (m.rblocks new) block d with
      | (.ok, d) => do
          let newBlock := (m.rblocks new).index
          let copyFrom := (maybeMapped.map fun i => (m.rblocks i).index).getD block
          let d := if copyLen ≠ 0 then
            (retry (chip.copy newBlock copyFrom copyLen) REMAP_COPY_TRIES d).2 else d
          let bmt ← remapEntry m.bmt block newBlock
          let m := { m with bmt, bmtDirty := m.bmtDirty + 1 }
          let m ← m.setStatus new .mapped
          let d := (wMarkBad node chip m block true d).2
          match maybeMapped with
          | none => pure (.ok, m, d)
          | some i => do
              let m ← m.setStatus i .needErase
              pure (.ok, m, d)
      | (ret, d) => do
          let m ← m.setStatus new .needErase
          pure (ret, m, d)

/-- The last entry takes the place of one that is taken out. -/
def unmapEntry (bmt : Bmt) (i : ℕ) : Except Breach Bmt := do
  let size ← decrease bmt.size
  check i MAX_BMT_SIZE
  check size.toNat MAX_BMT_SIZE
  pure { (bmt.setEntry i (bmt.entry size.toNat)).setEntry size.toNat ⟨0, 0⟩ with size }

/-- `w_unmap_block`; the erase is required, or not tried. -/
def wUnmapBlock (block : ℕ) (erase : Bool) (m : Mem) (d : σ) : Except Breach (Ret × Mem × σ) := do
  match ← findUp MAX_BMT_SIZE (fun i => (m.bmt.entry i).fromBlock.toNat = block)
    m.bmt.size.toNat 0 with
  | none => pure (.einval, m, d)
  | some bmtIndex =>
    match ← findUp m.allocated
      (fun j => (m.rblocks j).index = (m.bmt.entry bmtIndex).toBlock.toNat)
      (reserveBlockCount node m) 0 with
    | none => pure (.einval, m, d)
    | some mapped =>
      match if erase then wEraseOne node chip m (m.rblocks mapped).index false d else (.ok, d) with
      | (.ok, d) => do
          let bmt ← unmapEntry m.bmt bmtIndex
          let m := { m with bmt, bmtDirty := m.bmtDirty + 1 }
          let m ← m.setStatus mapped .needErase
          pure (.ok, m, d)
      | (ret, d) => pure (ret, m, d)

/-! ## Starting -/

/-- `try_parse_bbt`: whether a table was found. The workspace takes the entries in any case. -/
def tryParseBbt (m : Mem) (buf : List UInt8) : Except Breach (Bool × Mem) :=
  if buf.length < bbtHeaderSize + 2 * m.bbtTableSize then pure (false, m)
  else do
    checkAll m.bbtTableSize MAX_BBT_SIZE
    let workspace := fun i =>
      if i < m.bbtTableSize then halfAt buf (bbtHeaderSize + 2 * i) else m.workspace i
    if buf.take 4 ≠ [82, 65, 87, 66] then pure (false, { m with workspace })
    else if halfAt buf 4 ≠ bbtChecksum buf m.bbtTableSize ∨ halfAt buf 6 ≠ 0 then
      pure (false, { m with workspace })
    else do
      let size := buf.getD 9 0
      let workspace ← sortBbt size workspace
      let table := fun i => if i < m.bbtTableSize then workspace i else m.bbt.table i
      pure (true, { m with workspace, bbt := { version := buf.getD 8 0, size, table } })

/-- What a block of the reserve area is used for, and the tables it has. -/
def classify (m : Mem) (buf : List UInt8) (fdm : Fdm) : Except Breach (BlockStatus × Mem) :=
  if fdmIsBad fdm ≠ .good then pure (.bad, m)
  else if fdmIsMapped fdm then pure (.mapped, m)
  else do
    let (isBbt, m) ← tryParseBbt m buf
    if isBbt then pure (.bbt, m)
    else
      match tryParseBmt buf with
      | some bmt => pure (.bmt, { m with bmt })
      | none => pure (if blockIsErased buf fdm then .available else .needErase, m)

/-- What reading a block of the reserve area tells. -/
def scanned (m : Mem) : Option (List UInt8 × Fdm) → Except Breach (BlockStatus × Mem)
  | none => pure (.bad, m)
  | some (buf, fdm) => classify m buf fdm

/-- Read a block again while that fails. -/
def tryRead (block : ℕ) : (tries : ℕ) → σ → Option (List UInt8 × Fdm) × σ
  | 0, d => (none, d)
  | tries + 1, d =>
    match chip.read block d with
    | (some readout, d) => (some readout, d)
    | (none, d) => tryRead block tries d

/-- The loop of `r_scan_reserve`: from a block down, with the number of blocks that are in
`rblocks` and of the good ones. -/
def scanFrom : (cursor rblock goodBlocks : ℕ) → Mem → σ → Except Breach (Option Mem × σ)
  | 0, _, _, _, d => pure (none, d)
  | cursor + 1, rblock, goodBlocks, m, d =>
    let allocated := if m.allocated ≤ rblock then m.allocated + (cursor + 1) else m.allocated
    if m.allocated ≤ rblock ∧ ¬ chip.krealloc allocated then pure (none, d)
    else do
      let m := { m with allocated }
      let (readout, d) := tryRead chip (cursor + 1) INITIAL_READ_TRIES d
      let (status, m) ← scanned m readout
      check rblock m.allocated
      let m := { m with rblocks := Function.update m.rblocks rblock ⟨cursor + 1, status⟩ }
      let goodBlocks := if status ≠ .bad then goodBlocks + 1 else goodBlocks
      if goodBlocks ≥ requiredGoodBlocks node.total then
        pure (some { m with reserveAreaBegin := cursor + 1 }, d)
      else scanFrom cursor (rblock + 1) goodBlocks m d

/-- `r_scan_reserve`. With no block at all the cursor starts at -1, and is kept as a `u16`. -/
def rScanReserve (m : Mem) (d : σ) : Except Breach (Option Mem × σ) :=
  if node.total = 0 then pure (some { m with reserveAreaBegin := 2 ^ 16 - 1 }, d)
  else scanFrom node chip (node.total - 1) 0 0 m d

/-- The loop of `r_reconstruct_bmt`, from below a block down. -/
def reconstructBmtFrom (start : ℕ) : (block : ℕ) → Bmt → σ → Except Breach (Bmt × σ)
  | 0, bmt, d => pure (bmt, d)
  | block + 1, bmt, d =>
    if block < start then pure (bmt, d)
    else
      match chip.read block d with
      | (none, d) => reconstructBmtFrom start block bmt d
      | (some (_, fdm), d) =>
        let mapped := fdm.b2.toUInt16 ||| fdm.b3.toUInt16 <<< 8
        if fdmIsBad fdm ≠ .good ∨ mapped.toNat ≥ start then
          reconstructBmtFrom start block bmt d
        else do
          check bmt.size.toNat MAX_BMT_SIZE
          let size ← increase bmt.size
          reconstructBmtFrom start block
            { bmt.setEntry bmt.size.toNat ⟨mapped, UInt16.ofNat block⟩ with size } d

/-- `r_reconstruct_bmt`. It clears as many bytes as the entries have, header included, so that
the last five entries stay. -/
def rReconstructBmt (m : Mem) (d : σ) : Except Breach (Mem × σ) := do
  let bmt : Bmt :=
    { Bmt.zero with
      signature := bmtSignature
      version := 1
      table := fun i => if (i : ℕ) < 251 then ⟨0, 0⟩ else m.bmt.table i }
  let (bmt, d) ← reconstructBmtFrom chip m.reserveAreaBegin node.total bmt d
  pure ({ m with bmt, bmtDirty := m.bmtDirty + 1 }, d)

/-- The loop of `r_reconstruct_bbt`, `n` blocks from `block` up. -/
def reconstructBbtFrom (bmt : Bmt) : (n block : ℕ) → RawBbt → σ → Except Breach (RawBbt × σ)
  | 0, _, bbt, d => pure (bbt, d)
  | n + 1, block, bbt, d => do
      match ← findUp MAX_BMT_SIZE (fun j => (bmt.entry j).fromBlock.toNat = block)
        bmt.size.toNat 0 with
      | some _ => reconstructBbtFrom bmt n (block + 1) bbt d
      | none =>
        let (readout, d) := chip.read block d
        let isGood : Bool :=
          match readout with
          | none => false
          | some (_, fdm) => decide (fdmIsBad fdm = .good ∨ fdmIsBad fdm = .worn)
        if isGood then reconstructBbtFrom bmt n (block + 1) bbt d
        else do
          check bbt.size.toNat MAX_BBT_SIZE
          let size ← increase bbt.size
          let table := Function.update bbt.table bbt.size.toNat (UInt16.ofNat block)
          reconstructBbtFrom bmt n (block + 1) { bbt with size, table } d

/-- `r_reconstruct_bbt` -/
def rReconstructBbt (m : Mem) (d : σ) : Except Breach (Ret × Mem × σ) :=
  if m.bmt.version = 0 then pure (.einval, m, d)
  else do
    checkAll m.bbtTableSize MAX_BBT_SIZE
    let bbt : RawBbt := ⟨1, 0, fun i => if i < m.bbtTableSize then 0 else m.bbt.table i⟩
    let (bbt, d) ← reconstructBbtFrom chip m.bmt m.reserveAreaBegin 0 bbt d
    let table ← sortBbt bbt.size bbt.table
    pure (.ok, { m with bbt := { bbt with table } }, d)

/-- The loop of `w_factory_badblocks` that clears the table, from below an entry down. Blocks
that are not added back are erased. -/
def clearBbt (blocks : List UInt32) : (n : ℕ) → Mem → σ → Except Breach (Mem × σ)
  | 0, m, d => pure (m, d)
  | i + 1, m, d => do
      check i MAX_BBT_SIZE
      let isKept := blocks.any fun block => (m.bbt.table i).toNat = block.toNat
      let size ← decrease m.bbt.size
      check size.toNat MAX_BBT_SIZE
      let table := Function.update m.bbt.table i (m.bbt.table size.toNat)
      let m := { m with bbt := { m.bbt with size, table := Function.update table size.toNat 0 } }
      if isKept then clearBbt blocks i m d
      else clearBbt blocks i m (wEraseOne node chip m (m.bbt.table i).toNat true d).2

/-- The loop of `w_factory_badblocks` that takes the blocks out of the other table. -/
def unmapAll : List UInt32 → Mem → σ → Except Breach (Mem × σ)
  | [], m, d => pure (m, d)
  | block :: blocks, m, d => do
      match ← getMappingBlock m block.toNat with
      | none => unmapAll blocks m d
      | some mapped =>
        if mapped < m.reserveAreaBegin then unmapAll blocks m d
        else do
          let (_, m, d) ← wUnmapBlock node chip (block.toNat % 2 ^ 16) false m d
          unmapAll blocks m d

/-- The loop of `w_factory_badblocks` that adds the blocks. -/
def addAll : List UInt32 → Mem → σ → Except Breach (Mem × σ)
  | [], m, d => pure (m, d)
  | block :: blocks, m, d => do
      match ← findUp MAX_BBT_SIZE (fun j => (m.bbt.table j).toNat = block.toNat)
        m.bbt.size.toNat 0 with
      | some _ => addAll blocks m d
      | none => do
          check m.bbt.size.toNat MAX_BBT_SIZE
          let size ← increase m.bbt.size
          let table := Function.update m.bbt.table m.bbt.size.toNat (UInt16.ofNat block.toNat)
          let m := { m with bbt := { m.bbt with size, table } }
          addAll blocks m (wMarkBad node chip m block.toNat true d).2

/-- The loop of `w_factory_badblocks` that only compares. -/
def allListed (m : Mem) : List UInt32 → Except Breach Bool
  | [] => pure true
  | block :: blocks => do
      match ← findUp MAX_BBT_SIZE (fun j => (m.bbt.table j).toNat = block.toNat)
        m.bbt.size.toNat 0 with
      | none => if m.bbt.size = 0 then allListed m blocks else pure false
      | some _ => allListed m blocks

/-- `w_factory_badblocks` -/
def wFactoryBadblocks (blocks : List UInt32) (m : Mem) (d : σ) : Except Breach (Ret × Mem × σ) :=
  if m.bbt.version = 0 ∨ m.bmt.version = 0 then pure (.einval, m, d)
  else if blocks.any fun block => block.toNat ≥ m.reserveAreaBegin then pure (.einval, m, d)
  else if blocks.length > m.bbtTableSize then pure (.enospc, m, d)
  else if ¬ m.canWriteFactoryBbt then
    if m.bbt.size.toNat ≠ blocks.length then pure (.eio, m, d)
    else do
      let isListed ← allListed m blocks
      pure (if isListed then .ok else .eio, m, d)
  else do
    let (m, d) ← clearBbt node chip blocks m.bbt.size.toNat m d
    let (m, d) ← unmapAll node chip blocks m d
    let (m, d) ← addAll node chip blocks m d
    let table ← sortBbt m.bbt.size m.bbt.table
    pure (.ok, { m with bbt := { m.bbt with table }, bbtDirty := m.bbtDirty + 1 }, d)

/-- `add_remap_range` -/
def addRemapRange (m : Mem) (r : ℕ × ℕ) : Mem :=
  if r.1 + r.2 > m.reserveAreaBegin then m
  else { m with canRemapRanges := m.canRemapRanges ++ [(r.1, r.1 + r.2)] }

/-- The state before the start. -/
def Mem.initial (bbtTableSize : ℕ) : Mem where
  bbt := ⟨0, 0, fun _ => 0⟩
  workspace _ := 0
  bbtTableSize := bbtTableSize
  bmt := .zero
  rblocks _ := ⟨0, .needErase⟩
  allocated := 0
  reserveAreaBegin := 0
  canRemapRanges := []
  bbtDirty := 0
  bmtDirty := 0
  canWriteFactoryBbt := false

/-- The part of `w_init` that reads the properties and the reserve area. -/
def wInitScan (d : σ) : Except Breach (Option Mem × σ) :=
  let bbtTableSize := (node.bbtTableSize.getD 1000).toNat
  if bbtTableSize > MAX_BBT_SIZE then pure (none, d)
  else do
    match ← rScanReserve node chip (.initial bbtTableSize) d with
    | (none, d) => pure (none, d)
    | (some m, d) =>
      if node.assertReserveSize.any fun size =>
        size ≠ (node.total : ℤ) - (m.reserveAreaBegin : ℤ) then pure (none, d)
      else
        let m := { m with canWriteFactoryBbt := node.canWriteFactoryBbt }
        pure (some (if node.enableRemap then addRemapRange m (0, m.reserveAreaBegin)
          else node.remapPartitions.foldl addRemapRange m), d)

/-- The part of `w_init` that puts a table in place of one that was not found. -/
def wInitTables (m : Mem) (d : σ) : Except Breach (Ret × Mem × σ) :=
  if m.bbt.version ≠ 0 then
    if m.bmt.version = 0 then do
      let (m, d) ← rReconstructBmt node chip m d
      pure (.ok, m, d)
    else pure (.ok, m, d)
  else if ¬ m.canWriteFactoryBbt then pure (.eio, m, d)
  else if node.factoryBadblocks.isSome then
    if m.bmt.version = 0 then do
      let (m, d) ← rReconstructBmt node chip m d
      pure (.ok, m, d)
    else pure (.ok, m, d)
  else if m.bmt.version ≠ 0 then rReconstructBbt chip m d
  else do
    let (m, d) ← rReconstructBmt node chip m d
    rReconstructBbt chip m d

/-- The part of `w_init` with the blocks of the device tree. -/
def wInitFactory (m : Mem) (d : σ) : Except Breach (Ret × Mem × σ) :=
  match node.factoryBadblocks with
  | none => pure (.ok, m, d)
  | some blocks => wFactoryBadblocks node chip blocks m d

/-- `pub_init` up to the tables being written: nothing where it fails. -/
def pubInitHead (d : σ) : Except Breach (Option Mem × σ) := do
  match ← wInitScan node chip d with
  | (none, d) => pure (none, d)
  | (some m, d) =>
    match ← wInitTables node chip m d with
    | (.ok, m, d) =>
      match ← wInitFactory node chip m d with
      | (.ok, m, d) => do
          -- the tables are listed for the log
          checkAll m.bbt.size.toNat MAX_BBT_SIZE
          checkAll m.bmt.size.toNat MAX_BMT_SIZE
          pure (some m, d)
      | (_, _, d) => pure (none, d)
    | (_, _, d) => pure (none, d)

/-! ## Calls -/

/-- A call into the driver once it has started. -/
inductive Call where
  | remapBlock (userBlock : UInt16) (mappedBlockIdx : UInt16) (copyLen : ℕ)
  | unmapBlock (userBlock : UInt16)
  | getMappingBlock (userBlock : ℕ)

/-- `pub_remap_block` up to the tables being written: whether they are. A block that the other
table maps nowhere is `-EINVAL` in 16 bits. -/
def pubRemapHead (userBlock mappedBlockIdx copyLen : ℕ) (m : Mem) (d : σ) :
    Except Breach (Bool × Mem × σ) :=
  if ¬ m.canRemapRanges.any fun r => decide (r.1 ≤ userBlock) && decide (userBlock < r.2) then
    pure (false, m, d)
  else do
    let block := (← getMappingBlockBbt m userBlock).getD 65514
    if userBlock ≥ m.reserveAreaBegin then pure (false, m, d)
    else if mappedBlockIdx = block then do
      let (_, m, d) ← wRemapBlock node chip block none copyLen m d
      pure (true, m, d)
    else do
      match ← findUp m.allocated (fun i => (m.rblocks i).index = mappedBlockIdx)
        (reserveBlockCount node m) 0 with
      | none => pure (false, m, d)
      | some i => do
          let (_, m, d) ← wRemapBlock node chip block (some i) copyLen m d
          pure (true, m, d)

/-- `pub_unmap_block` up to the tables being written: whether they are. -/
def pubUnmapHead (userBlock : ℕ) (m : Mem) (d : σ) : Except Breach (Bool × Mem × σ) := do
  match ← getMappingBlockBbt m userBlock with
  | none => pure (false, m, d)
  | some block =>
    if userBlock ≥ m.reserveAreaBegin then pure (false, m, d)
    else do
      let (_, m, d) ← wUnmapBlock node chip block true m d
      pure (true, m, d)

/-- A call up to the tables being written: whether they are. -/
def Call.head (call : Call) (m : Mem) (d : σ) : Except Breach (Bool × Mem × σ) :=
  match call with
  | .remapBlock userBlock mappedBlockIdx copyLen =>
    pubRemapHead node chip userBlock.toNat mappedBlockIdx.toNat copyLen m d
  | .unmapBlock userBlock => pubUnmapHead node chip userBlock.toNat m d
  | .getMappingBlock userBlock => do
      let _ ← Checked.getMappingBlock m userBlock
      pure (false, m, d)

def Call.run (state : Mem × σ) (call : Call) : Except Breach (Mem × σ) := do
  let (isChanged, m, d) ← call.head node chip state.1 state.2
  if isChanged then wSyncTables node chip m d else pure (m, d)

/-- `pub_init` -/
def pubInit (d : σ) : Except Breach (Option (Mem × σ)) := do
  match ← pubInitHead node chip d with
  | (none, _) => pure none
  | (some m, d) => do
      let state ← wSyncTables node chip m d
      pure (some state)

/-- The start, and calls after it where it succeeds. -/
def run (calls : List Call) (d : σ) : Except Breach (Option (Mem × σ)) := do
  match ← pubInit node chip d with
  | none => pure none
  | some state => do
      let state ← calls.foldlM (Call.run node chip) state
      pure (some state)

end Driver

end OpenWrt.MtkBmt.En75.Checked
