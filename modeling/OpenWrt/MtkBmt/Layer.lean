/-
# The layer over the flash

The management replaces the read, write and erase operations of the MTD device.
A request is cut at the ends of blocks. Each piece goes to the physical block that
the logical one is mapped to, and when it fails, the block is remapped and the
piece tried again, ten times at most. A read remaps a block with too many corrected
bitflips as well.

The operations are written as their loops run, one iteration at a time. The driver
and the backend are parameters.
-/

import OpenWrt.MtkBmt.Nand

namespace OpenWrt.MtkBmt.Layer

/-! ## Below -/

/-- The geometry of the flash; `oobAvail` is the number of spare bytes of a page. -/
structure Chip extends RemapRange where
  pgSize : ℕ
  oobAvail : ℕ
  bitflipThreshold : ℕ
  /-- Block numbers have 16 bits. -/
  total_u16 : totalBlks < 0x10000

namespace Chip

variable (c : Chip)

def blkSize : ℕ := 2 ^ c.blkShift

/-- The spare bytes of a block, page after page. -/
def spareSize : ℕ := c.blkSize / c.pgSize * c.oobAvail

/-- The place of a spare byte of the page at an offset, in its block. -/
def spareOff (offset ooboffs : ℕ) : ℕ := offset / c.pgSize * c.oobAvail + ooboffs

theorem blkSize_pos : 0 < c.blkSize := Nat.two_pow_pos _

end Chip

/-- What a read returns: its code, and the bytes put into the two buffers. -/
structure ReadReply where
  ret : ℤ
  data : List UInt8
  oob : List UInt8

/-- What a write returns: its code, and how many bytes of either buffer it wrote. -/
structure WriteReply where
  ret : ℤ
  retlen : ℕ
  oobretlen : ℕ

/-- The operations of the driver, and the two of the backend. -/
structure Ops (σ : Type) where
  readOob : (addr len ooblen ooboffs : ℕ) → σ → ReadReply × σ
  writeOob : (addr : ℕ) → (data oob : List UInt8) → (ooboffs : ℕ) → σ → WriteReply × σ
  erase : (addr : ℕ) → σ → ℤ × σ
  getMappingBlock : σ → (block : ℕ) → ℤ
  remapBlock : (block mappedBlock copyLen : ℕ) → σ → Bool × σ

section Loops

variable {σ : Type} (c : Chip) (ops : Ops σ)

def mtkBmtRemapBlock (block mappedBlock copyLen : ℕ) (s : σ) : Bool × σ :=
  match c.mappingBlockInRange block with
  | none => (false, s)
  | some _ => ops.remapBlock block mappedBlock copyLen s

/-- What a request is answered with. The code is missing when the source returns a
variable that was never set. `failed` tells that the loop was left because a piece
failed for good; the source has no variable for it. -/
structure Answer where
  ret : Option ℤ
  data : List UInt8
  oob : List UInt8
  retlen : ℕ
  oobretlen : ℕ
  failed : Bool

/-! ## Reading -/

/-- The arguments of a read. -/
structure ReadOps where
  addr : ℕ
  len : ℕ
  ooblen : ℕ
  ooboffs : ℕ

/-- A read under way: `retlen` and `oobretlen` are the lengths of what is in the
buffers. -/
structure Reading where
  ops : ReadOps
  pos : ℕ
  data : List UInt8
  oob : List UInt8
  curOoblen : ℕ
  curOoboffs : ℕ
  ret : ℤ
  maxBitflips : ℤ
  retryCount : ℕ

namespace Reading

/-- The start of `mtk_bmt_read`. -/
def start (request : ReadOps) : Reading where
  ops := request
  pos := request.addr
  data := []
  oob := []
  curOoblen := request.ooblen
  curOoboffs := request.ooboffs
  ret := 0
  maxBitflips := 0
  retryCount := 0

variable (r : Reading)

/-- The condition of the loop. -/
def Busy : Prop := r.data.length < r.ops.len ∨ r.oob.length < r.ops.ooblen

instance : Decidable r.Busy := inferInstanceAs (Decidable (_ ∨ _))

def pieceLen : ℕ := min (c.blkSize - r.pos % c.blkSize) (r.ops.len - r.data.length)

def attempt (curBlock : ℕ) (s : σ) : ReadReply × σ :=
  ops.readOob (curBlock * c.blkSize + r.pos % c.blkSize) (r.pieceLen c) r.curOoblen r.curOoboffs s

/-- Keep the code of a piece. -/
def note (ret : ℤ) : Reading :=
  if ret < 0 then { r with ret := ret } else { r with maxBitflips := max r.maxBitflips ret }

/-- Go on to the next piece. -/
def advance (reply : ReadReply) : Reading :=
  { r with
    pos := r.pos + if r.pieceLen c = 0 then c.blkSize - r.pos % c.blkSize else r.pieceLen c
    data := r.data ++ reply.data
    oob := r.oob ++ reply.oob
    curOoblen := r.curOoblen - reply.oob.length
    curOoboffs := 0
    retryCount := 0 }

/-- Leave the loop. -/
def answer (failed : Bool) : Answer where
  ret := some (if r.ret < 0 then r.ret else r.maxBitflips)
  data := r.data
  oob := r.oob
  retlen := r.data.length
  oobretlen := r.oob.length
  failed := failed

/-- One iteration of `mtk_bmt_read`. -/
def iterate (s : σ) : (Reading ⊕ Answer) × σ :=
  if r.Busy then
    let block := r.pos / c.blkSize
    let curBlock := ops.getMappingBlock s block
    if curBlock < 0 then (.inr { r.answer true with ret := some eIo }, s)
    else
      let (reply, s) := r.attempt c ops curBlock.toNat s
      let r := r.note reply.ret
      if reply.ret < 0 ∧ reply.ret ≠ eUclean then
        match mtkBmtRemapBlock c ops block curBlock.toNat c.blkSize s with
        | (true, s) =>
          if r.retryCount < 10 then (.inl { r with retryCount := r.retryCount + 1 }, s)
          else (.inr (r.answer true), s)
        | (false, s) => (.inr (r.answer true), s)
      else
        let s :=
          if c.bitflipThreshold ≠ 0 ∧ (c.bitflipThreshold : ℤ) ≤ reply.ret then
            (mtkBmtRemapBlock c ops block curBlock.toNat c.blkSize s).2
          else s
        (.inl (r.advance c reply), s)
  else (.inr (r.answer false), s)

end Reading

/-! ## Writing -/

/-- The arguments of a write. -/
structure WriteOps where
  addr : ℕ
  data : List UInt8
  oob : List UInt8
  ooboffs : ℕ

/-- A write under way. -/
structure Writing where
  ops : WriteOps
  pos : ℕ
  retlen : ℕ
  oobretlen : ℕ
  curOob : List UInt8
  curOoboffs : ℕ
  retryCount : ℕ

namespace Writing

/-- The start of `mtk_bmt_write`. -/
def start (request : WriteOps) : Writing where
  ops := request
  pos := request.addr
  retlen := 0
  oobretlen := 0
  curOob := request.oob
  curOoboffs := request.ooboffs
  retryCount := 0

variable (w : Writing)

/-- The condition of the loop. -/
def Busy : Prop := w.retlen < w.ops.data.length ∨ w.oobretlen < w.ops.oob.length

instance : Decidable w.Busy := inferInstanceAs (Decidable (_ ∨ _))

/-- The bytes of the next piece. -/
def piece : List UInt8 :=
  (w.ops.data.drop w.retlen).take (min (c.blkSize - w.pos % c.blkSize)
    (w.ops.data.length - w.retlen))

def attempt (curBlock : ℕ) (s : σ) : WriteReply × σ :=
  ops.writeOob (curBlock * c.blkSize + w.pos % c.blkSize) (w.piece c) w.curOob w.curOoboffs s

/-- Go on to the next piece. -/
def advance (reply : WriteReply) : Writing :=
  { w with
    pos := w.pos +
      if (w.piece c).length = 0 then c.blkSize - w.pos % c.blkSize else (w.piece c).length
    retlen := w.retlen + reply.retlen
    oobretlen := w.oobretlen + reply.oobretlen
    curOob := w.curOob.drop reply.oobretlen
    curOoboffs := 0
    retryCount := 0 }

/-- Leave the loop. -/
def answer (ret : ℤ) (failed : Bool) : Answer where
  ret := some ret
  data := []
  oob := []
  retlen := w.retlen
  oobretlen := w.oobretlen
  failed := failed

/-- One iteration of `mtk_bmt_write`. -/
def iterate (s : σ) : (Writing ⊕ Answer) × σ :=
  if w.Busy then
    let block := w.pos / c.blkSize
    let curBlock := ops.getMappingBlock s block
    if curBlock < 0 then (.inr (w.answer eIo true), s)
    else
      let (reply, s) := w.attempt c ops curBlock.toNat s
      if reply.ret < 0 then
        match mtkBmtRemapBlock c ops block curBlock.toNat (w.pos % c.blkSize) s with
        | (true, s) =>
          if w.retryCount < 10 then (.inl { w with retryCount := w.retryCount + 1 }, s)
          else (.inr (w.answer reply.ret true), s)
        | (false, s) => (.inr (w.answer reply.ret true), s)
      else (.inl (w.advance c reply), s)
  else (.inr (w.answer 0 false), s)

end Writing

/-! ## Erasing -/

/-- The arguments of an erase. -/
structure EraseInfo where
  addr : ℕ
  len : ℕ

/-- An erase under way; `ret` is not set before the first block. -/
structure Erasing where
  instr : EraseInfo
  startAddr : ℕ
  ret : Option ℤ
  retryCount : ℕ

namespace Erasing

/-- The start of `mtk_bmt_mtd_erase`. -/
def start (instr : EraseInfo) : Erasing where
  instr := instr
  startAddr := instr.addr / c.blkSize * c.blkSize
  ret := none
  retryCount := 0

def attempt (block : ℕ) (s : σ) : ℤ × σ := ops.erase (block * c.blkSize) s

variable (e : Erasing)

/-- The condition of the loop. -/
def Busy : Prop := e.startAddr < e.instr.addr + e.instr.len

instance : Decidable e.Busy := inferInstanceAs (Decidable (_ < _))

/-- Leave the loop; the blocks before `startAddr` have been erased. -/
def answer (ret : Option ℤ) (failed : Bool) : Answer where
  ret := ret
  data := []
  oob := []
  retlen := e.startAddr - e.instr.addr / c.blkSize * c.blkSize
  oobretlen := 0
  failed := failed

/-- One iteration of `mtk_bmt_mtd_erase`. -/
def iterate (s : σ) : (Erasing ⊕ Answer) × σ :=
  if e.Busy then
    let origBlock := e.startAddr / c.blkSize % 0x10000
    let block := ops.getMappingBlock s origBlock
    if block < 0 then (.inr (e.answer c (some eIo) true), s)
    else
      let (ret, s) := attempt c ops block.toNat s
      if ret ≠ 0 then
        match mtkBmtRemapBlock c ops origBlock block.toNat 0 s with
        | (true, s) =>
          if e.retryCount < 10 then
            (.inl { e with ret := some ret, retryCount := e.retryCount + 1 }, s)
          else (.inr (e.answer c (some ret) true), s)
        | (false, s) => (.inr (e.answer c (some ret) true), s)
      else
        (.inl { e with startAddr := e.startAddr + c.blkSize, ret := some ret, retryCount := 0 }, s)
  else (.inr (e.answer c e.ret false), s)

end Erasing

end Loops

end OpenWrt.MtkBmt.Layer
