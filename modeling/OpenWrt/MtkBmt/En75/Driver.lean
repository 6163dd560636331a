/-
# Blocks mapped into the reserve area

The reserve area is at the end of the flash. It has the two tables, the blocks that are used
for worn blocks of the user area, and free blocks. What a block of it is used for is not
stored: at boot it is read off the block, whose spare bytes name the worn block if there is
one. This module has the functions of the source. A write outside of the table in memory
gives no result.

The properties that let the table of factory bad blocks be written are taken as not set, so
that a boot without that table fails.
-/

import OpenWrt.MtkBmt.En75.Tables

namespace OpenWrt.MtkBmt.En75

def WRITE_TRIES : ℕ := 3
def ERASE_TRIES : ℕ := 3
def UPDATE_TABLE_TRIES : ℕ := 3
def REMAP_COPY_TRIES : ℕ := 10
def INITIAL_READ_TRIES : ℕ := 3
def BLOCK_WORN_MARK : UInt8 := 0x55

/-! ## Data -/

/-- The chip and its properties. -/
structure Chip where
  totalBlks : ℕ
  pgSize : ℕ
  blkPages : ℕ
  /-- `econet,bbt-table-size` -/
  bbtTableSize : ℕ
  /-- `econet,assert-reserve-size` -/
  assertReserveSize : Option ℕ
  /-- `econet,factory-badblocks` -/
  factoryBadblocks : Option (List ℕ)
  /-- `econet,enable-remap` on the device. -/
  enableRemap : Bool
  /-- First block and number of blocks of the partitions that have it. -/
  remapPartitions : List (ℕ × ℕ)
  /-- Blocks have 16 bits. -/
  totalBlks_lt : totalBlks < 0x10000

/-- `REQUIRED_GOOD_BLOCKS` -/
def requiredGoodBlocks (totalBlks : ℕ) : ℕ := totalBlks * 8 / 100

/-- `block_status` -/
inductive BlockStatus where
  | available
  | bad
  | mapped
  | bmt
  | bbt
  | needErase
  deriving DecidableEq, Repr

/-- `block_info` -/
structure BlockInfo where
  index : ℕ
  status : BlockStatus
  deriving DecidableEq, Repr

/-- `en75_bmt_m` -/
structure Ctx where
  bbt : Bbt
  bmt : Bmt
  /-- The blocks of the reserve area, from the last to the first. -/
  rblocks : List BlockInfo
  reserveAreaBegin : ℕ
  /-- First block and end of the ranges of user blocks that may be remapped. -/
  canRemapRanges : List (ℕ × ℕ)
  bmtDirty : Int8

/-- What an operation returns. -/
inductive Ret where
  | ok
  | einval
  | eio
  | enospc
  deriving DecidableEq, Repr

/-! ## In memory -/

/-- `get_mapping_block_bbt` -/
def getMappingBlockBbt (ctx : Ctx) (block : ℕ) : Option ℕ :=
  let block := ctx.bbt.table.foldl (fun block bad => if bad.toNat ≤ block then block + 1 else block)
    block
  if block ≥ ctx.reserveAreaBegin then none else some block

/-- Where the table maps a block, looking from its last entry. -/
def Bmt.lookup (bmt : Bmt) (block : ℕ) : Option ℕ :=
  ((List.range bmt.size.toNat).reverse.find? fun i =>
    (bmt.entry i).fromBlock.toNat = block).map fun i => (bmt.entry i).toBlock.toNat

def Bmt.indexOf (bmt : Bmt) (block : ℕ) : Option ℕ :=
  (List.range bmt.size.toNat).find? fun i => (bmt.entry i).fromBlock.toNat = block

/-- `get_mapping_block` -/
def getMappingBlock (ctx : Ctx) (block : ℕ) : Option ℕ :=
  (getMappingBlockBbt ctx block).map fun block => (ctx.bmt.lookup block).getD block

/-- `block_is_bad` -/
inductive BlockIsBad where
  | good
  | factoryBad
  | worn
  | unknownBad
  deriving DecidableEq, Repr

/-- `fdm_is_bad` -/
def fdmIsBad (fdm : Fdm) : BlockIsBad :=
  if fdm.b0 = 0xff ∧ fdm.b1 = 0xff then .good
  else if fdm.b0 = BLOCK_WORN_MARK then .worn
  else if fdm.b0 = 0 ∨ fdm.b1 = 0 then .factoryBad
  else .unknownBad

/-- `fdm_is_mapped` -/
def fdmIsMapped (fdm : Fdm) : Bool :=
  if fdm.b0 ≠ 0xff ∨ fdm.b1 ≠ 0xff then false
  else fdm.b2 ≠ 0xff || fdm.b3 ≠ 0xff

/-- `block_is_erased` -/
def blockIsErased (data : List UInt8) (fdm : Fdm) : Bool :=
  data.all (· = 0xff) && decide (fdm = .blank)

/-! ## Writing -/

section Write

variable (c : Chip) (faults : Faults)

/-! ## Remapping -/

/-- The entry of a block is changed, or a new one made. -/
def Bmt.remap (bmt : Bmt) (block newBlock : ℕ) : Bmt :=
  match bmt.indexOf block with
  | some i => bmt.setEntry i { bmt.entry i with toBlock := UInt16.ofNat newBlock }
  | none =>
    { bmt.setEntry bmt.size.toNat ⟨UInt16.ofNat block, UInt16.ofNat newBlock⟩ with
      size := bmt.size + 1 }

end Write

/-! ## Starting -/

section Init

variable (c : Chip) (faults : Faults)

/-- The state before the start. -/
def Ctx.initial : Ctx := ⟨.zero, .zero, [], 0, [], 0⟩

end Init

end OpenWrt.MtkBmt.En75
