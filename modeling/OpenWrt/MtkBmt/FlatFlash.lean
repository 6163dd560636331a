/-
# The layer as one flat flash

To its users the layer is a flash without bad blocks: a store of data bytes and one
of spare bytes, changed by writes and erases. What a failed operation leaves in the
piece that failed is not known.

Three slips show through. A read keeps the error of an attempt that was made good
by a remap. Spare bytes are cut at no end of a block, and no remap moves them. And a
remap during a write moves the bytes before the piece only. The runs that meet none
of them are those of a flat flash.
-/

import OpenWrt.Lib.Run
import OpenWrt.Lib.Store
import OpenWrt.MtkBmt.Layer

namespace OpenWrt.MtkBmt.Layer

open OpenWrt.Lib

/-! ## Laws of the driver and the backend -/

/-- What the physical blocks hold. -/
structure View (σ : Type) where
  cell : σ → (block offset : ℕ) → UInt8
  spare : σ → (block offset : ℕ) → UInt8

section Laws

variable {σ : Type} (c : Chip) (ops : Ops σ) (view : View σ)

/-- A logical block is at the same block, which holds the same. -/
def SameAt (s t : σ) (b : ℕ) : Prop :=
  ops.getMappingBlock t b = ops.getMappingBlock s b ∧
    ∀ p : ℕ, ops.getMappingBlock s b = p →
      (∀ off < c.blkSize, view.cell t p off = view.cell s p off) ∧
        ∀ off < c.spareSize, view.spare t p off = view.spare s p off

def OnlyBlock (s t : σ) (p : ℕ) : Prop :=
  (∀ b, ops.getMappingBlock t b = ops.getMappingBlock s b) ∧
    ∀ q, q ≠ p → (∀ off, view.cell t q off = view.cell s q off) ∧
      ∀ off, view.spare t q off = view.spare s q off

/-- Spare bytes from a place on that end in the block. -/
def OobFits (ooblen offset ooboffs : ℕ) : Prop :=
  ooblen = 0 ∨ c.spareOff offset ooboffs + ooblen ≤ c.spareSize

instance (ooblen offset ooboffs : ℕ) : Decidable (OobFits c ooblen offset ooboffs) :=
  inferInstanceAs (Decidable (_ ∨ _))

/-- The driver does what it reports, and touches the blocks it is asked to. The
backend maps distinct blocks to distinct ones, keeps the mapping but for the block
that is remapped, and copies as many bytes as it is told to, into an erased block. -/
structure Lawful : Prop where
  injective {s : σ} {b b' : ℕ} (hb : b < c.totalBlks) (hb' : b' < c.totalBlks)
    (hmapped : 0 ≤ ops.getMappingBlock s b)
    (hsame : ops.getMappingBlock s b = ops.getMappingBlock s b') : b = b'
  read_leaves (addr len ooblen ooboffs : ℕ) (s : σ) (b : ℕ) :
    SameAt c ops view s (ops.readOob addr len ooblen ooboffs s).2 b
  read_reply {s : σ} {p off len ooblen ooboffs : ℕ} (hoff : off < c.blkSize)
    (hlen : off + len ≤ c.blkSize)
    (hoob : OobFits c ooblen off ooboffs)
    (hok : 0 ≤ (ops.readOob (p * c.blkSize + off) len ooblen ooboffs s).1.ret) :
    (ops.readOob (p * c.blkSize + off) len ooblen ooboffs s).1.data =
        (List.range len).map (fun i => view.cell s p (off + i)) ∧
      (ops.readOob (p * c.blkSize + off) len ooblen ooboffs s).1.oob =
        (List.range ooblen).map fun i => view.spare s p (c.spareOff off ooboffs + i)
  write_leaves {s : σ} {p off ooboffs : ℕ} {data oob : List UInt8} (hoff : off < c.blkSize)
    (hlen : off + data.length ≤ c.blkSize) (hoob : OobFits c oob.length off ooboffs) :
    OnlyBlock ops view s (ops.writeOob (p * c.blkSize + off) data oob ooboffs s).2 p ∧
      (∀ o, o < off ∨ off + data.length ≤ o →
        view.cell (ops.writeOob (p * c.blkSize + off) data oob ooboffs s).2 p o =
          view.cell s p o) ∧
      ∀ o, o < c.spareOff off ooboffs ∨ c.spareOff off ooboffs + oob.length ≤ o →
        view.spare (ops.writeOob (p * c.blkSize + off) data oob ooboffs s).2 p o =
          view.spare s p o
  write_reply {s : σ} {p off ooboffs : ℕ} {data oob : List UInt8} (hoff : off < c.blkSize)
    (hlen : off + data.length ≤ c.blkSize) (hoob : OobFits c oob.length off ooboffs)
    (hok : 0 ≤ (ops.writeOob (p * c.blkSize + off) data oob ooboffs s).1.ret) :
    (ops.writeOob (p * c.blkSize + off) data oob ooboffs s).1.retlen = data.length ∧
      (ops.writeOob (p * c.blkSize + off) data oob ooboffs s).1.oobretlen = oob.length ∧
      (∀ i x, data[i]? = some x →
        view.cell (ops.writeOob (p * c.blkSize + off) data oob ooboffs s).2 p (off + i) = x) ∧
      ∀ i x, oob[i]? = some x →
        view.spare (ops.writeOob (p * c.blkSize + off) data oob ooboffs s).2 p
          (c.spareOff off ooboffs + i) = x
  erase_leaves (p : ℕ) (s : σ) : OnlyBlock ops view s (ops.erase (p * c.blkSize) s).2 p
  erase_reply {p : ℕ} {s : σ} (hok : (ops.erase (p * c.blkSize) s).1 = 0) :
    (∀ off < c.blkSize, view.cell (ops.erase (p * c.blkSize) s).2 p off = 0xff) ∧
      ∀ off < c.spareSize, view.spare (ops.erase (p * c.blkSize) s).2 p off = 0xff
  erase_ret (p : ℕ) (s : σ) : (ops.erase (p * c.blkSize) s).1 ≤ 0
  remap_leaves {b p copyLen : ℕ} {s : σ} {b' : ℕ} (hb' : b' < c.totalBlks)
    (h : b' ≠ b ∨ (ops.remapBlock b p copyLen s).1 = false) :
    SameAt c ops view s (ops.remapBlock b p copyLen s).2 b'
  remap_copies {b p copyLen : ℕ} {s : σ} (hb : b < c.totalBlks)
    (hp : ops.getMappingBlock s b = p) (hok : (ops.remapBlock b p copyLen s).1 = true) :
    ∃ q : ℕ, ops.getMappingBlock (ops.remapBlock b p copyLen s).2 b = q ∧
      (∀ off < c.blkSize, view.cell (ops.remapBlock b p copyLen s).2 q off =
        if off < copyLen then view.cell s p off else 0xff) ∧
      ∀ off < c.spareSize, view.spare (ops.remapBlock b p copyLen s).2 q off = 0xff

end Laws

/-! ## The flat flash -/

/-- Data and spare bytes by logical address. -/
structure Flat where
  data : Store UInt8
  oob : Store UInt8

def Chip.spareAddr (c : Chip) (addr ooboffs : ℕ) : ℕ :=
  addr / c.blkSize * c.spareSize + c.spareOff (addr % c.blkSize) ooboffs

/-- A request. -/
inductive Request where
  | read (ops : ReadOps)
  | write (ops : WriteOps)
  | erase (instr : EraseInfo)

namespace Flat

variable (c : Chip) (flat : Flat)

/-- After a write of so many bytes: what of the next piece is left is not known. -/
def written (w : WriteOps) (retlen oobretlen : ℕ) : Flat where
  data := (flat.data.write w.addr (w.data.take retlen)).forget (w.addr + retlen)
    (min (c.blkSize - (w.addr + retlen) % c.blkSize) (w.data.length - retlen))
  oob := (flat.oob.write (c.spareAddr w.addr w.ooboffs) (w.oob.take oobretlen)).forget
    (c.spareAddr w.addr w.ooboffs + oobretlen) (w.oob.length - oobretlen)

/-- After an erase of so many blocks, and `lost` more that are not known. -/
def erased (start blocks lost : ℕ) : Flat where
  data := (flat.data.fill (start * c.blkSize) (blocks * c.blkSize) 0xff).forget
    ((start + blocks) * c.blkSize) (lost * c.blkSize)
  oob := (flat.oob.fill (start * c.spareSize) (blocks * c.spareSize) 0xff).forget
    ((start + blocks) * c.spareSize) (lost * c.spareSize)

/-- What a request that was answered did to the flash. -/
def after (answer : Answer) : Request → Flat
  | .read _ => flat
  | .write w => flat.written c w answer.retlen answer.oobretlen
  | .erase instr =>
    flat.erased c (instr.addr / c.blkSize) (answer.retlen / c.blkSize)
      (if answer.failed then 1 else 0)

/-- An answer that a flat flash may give to a request. -/
structure Answers (request : Request) (answer : Answer) : Prop where
  code : ∃ ret, answer.ret = some ret ∧ (ret < 0 ↔ answer.failed = true)
  reads : ∀ r, request = .read r → flat.data.Reads r.addr answer.data ∧
    flat.oob.Reads (c.spareAddr r.addr r.ooboffs) answer.oob ∧
    answer.retlen = answer.data.length ∧ answer.oobretlen = answer.oob.length ∧
    (answer.failed = false → answer.retlen = r.len ∧ answer.oobretlen = r.ooblen)
  writes : ∀ w, request = .write w → answer.failed = false →
    answer.retlen = w.data.length ∧ answer.oobretlen = w.oob.length
  erases : ∀ e, request = .erase e → answer.failed = false →
    e.addr + e.len ≤ e.addr / c.blkSize * c.blkSize + answer.retlen

end Flat

/-! ## Runs -/

/-- What the layer is doing. -/
inductive Phase where
  | idle
  | reading (r : Reading)
  | writing (w : Writing)
  | erasing (e : Erasing)
  | returned (request : Request) (answer : Answer)

/-- The layer over its device, and the flat flash it stands for, as it was when the
last request began. -/
structure Machine (σ : Type) where
  phase : Phase
  dev : σ
  flat : Flat

/-- A request arrives, or the loop of one goes round. -/
inductive Event where
  | start (request : Request)
  | iterate

section Runs

variable {σ : Type} (c : Chip) (ops : Ops σ) (view : View σ)

/-- Requests that the MTD core passes on: they end on the flash. -/
def Request.OnFlash : Request → Prop
  | .read r => r.addr + r.len ≤ c.totalBlks * c.blkSize ∧
      (0 < r.ooblen → r.addr < c.totalBlks * c.blkSize)
  | .write w => w.addr + w.data.length ≤ c.totalBlks * c.blkSize ∧
      (0 < w.oob.length → w.addr < c.totalBlks * c.blkSize)
  | .erase e => e.addr < c.totalBlks * c.blkSize ∧ e.addr + e.len ≤ c.totalBlks * c.blkSize

instance : (request : Request) → Decidable (request.OnFlash c)
  | .read _ => inferInstanceAs (Decidable (_ ∧ _))
  | .write _ => inferInstanceAs (Decidable (_ ∧ _))
  | .erase _ => inferInstanceAs (Decidable (_ ∧ _))

def Request.begin : Request → Phase
  | .read r => .reading (.start r)
  | .write w => .writing (.start w)
  | .erase e => .erasing (.start c e)

/-- The flat flash takes part when a request is answered. -/
def Machine.return (flat : Flat) (request : Request) (answer : Answer) (s : σ) : Machine σ :=
  ⟨.returned request answer, s, flat.after c answer request⟩

def Machine.next (m : Machine σ) : Event → Option (Machine σ)
  | .start request =>
    match m.phase with
    | .idle | .returned _ _ =>
      if request.OnFlash c then some { m with phase := request.begin c } else none
    | _ => none
  | .iterate =>
    match m.phase with
    | .reading r =>
      match r.iterate c ops m.dev with
      | (.inl r, s) => some { m with phase := .reading r, dev := s }
      | (.inr answer, s) => some (.return c m.flat (.read r.ops) answer s)
    | .writing w =>
      match w.iterate c ops m.dev with
      | (.inl w, s) => some { m with phase := .writing w, dev := s }
      | (.inr answer, s) => some (.return c m.flat (.write w.ops) answer s)
    | .erasing e =>
      match e.iterate c ops m.dev with
      | (.inl e, s) => some { m with phase := .erasing e, dev := s }
      | (.inr answer, s) => some (.return c m.flat (.erase e.instr) answer s)
    | _ => none

/-- The device holds what is known of the flat flash. -/
structure ShownBy (flat : Flat) (s : σ) : Prop where
  data : Shows c.blkSize c.totalBlks (ops.getMappingBlock s) (view.cell s) flat.data
  oob : Shows c.spareSize c.totalBlks (ops.getMappingBlock s) (view.spare s) flat.oob

/-- The runs from any contents of the flash. -/
def system : System (Machine σ) Event :=
  .ofFn (fun m => m.phase = .idle ∧ ShownBy c ops view m.flat m.dev) (Machine.next c ops)

/-! ## The runs without a slip -/

/-- Spare bytes end in the first block, and something is erased. -/
def Request.Steady : Request → Prop
  | .read r => OobFits c r.ooblen (r.addr % c.blkSize) r.ooboffs
  | .write w => OobFits c w.oob.length (w.addr % c.blkSize) w.ooboffs
  | .erase e => 0 < e.len

instance : (request : Request) → Decidable (request.Steady c)
  | .read _ => inferInstanceAs (Decidable (OobFits _ _ _ _))
  | .write _ => inferInstanceAs (Decidable (OobFits _ _ _ _))
  | .erase _ => inferInstanceAs (Decidable (_ < _))

/-- A block without spare bytes but for a range. -/
def BlankSpare (s : σ) (p start stop : ℕ) : Prop :=
  ∀ off < c.spareSize, off < start ∨ stop ≤ off → view.spare s p off = 0xff

instance (s : σ) (p start stop : ℕ) : Decidable (BlankSpare c view s p start stop) :=
  inferInstanceAs (Decidable (∀ off < _, _))

/-- No corrected read is reported as an error, none succeeds after one that failed,
and no block with spare bytes is remapped. -/
def Reading.Steady (r : Reading) (s : σ) : Prop :=
  let block := r.pos / c.blkSize
  let p := (ops.getMappingBlock s block).toNat
  let ret := (r.attempt c ops p s).1.ret
  let moved := (mtkBmtRemapBlock c ops block p c.blkSize (r.attempt c ops p s).2).1
  r.Busy → 0 ≤ ops.getMappingBlock s block →
    ret ≠ eUclean ∧ (0 ≤ ret → 0 ≤ r.ret) ∧
      (ret < 0 ∨ (c.bitflipThreshold ≠ 0 ∧ (c.bitflipThreshold : ℤ) ≤ ret) → moved = true →
        BlankSpare c view s p 0 0)

instance (r : Reading) (s : σ) : Decidable (r.Steady c ops view s) :=
  inferInstanceAs (Decidable (_ → _ → _))

/-- When a piece fails and its block is remapped, nothing is in the block after the
piece, and no spare bytes but those of the piece. -/
def Writing.Steady (w : Writing) (s : σ) : Prop :=
  let block := w.pos / c.blkSize
  let offset := w.pos % c.blkSize
  let p := (ops.getMappingBlock s block).toNat
  let moved := (mtkBmtRemapBlock c ops block p offset (w.attempt c ops p s).2).1
  w.Busy → 0 ≤ ops.getMappingBlock s block → (w.attempt c ops p s).1.ret < 0 → moved = true →
    (∀ off < c.blkSize, offset + (w.piece c).length ≤ off → view.cell s p off = 0xff) ∧
      BlankSpare c view s p (c.spareOff offset w.curOoboffs)
        (c.spareOff offset w.curOoboffs + w.curOob.length)

instance (w : Writing) (s : σ) : Decidable (w.Steady c ops view s) :=
  inferInstanceAs (Decidable (_ → _ → _ → _ → _))

/-- What is asked of a step. -/
def Machine.Steady (m : Machine σ) : Event → Prop
  | .start request => request.Steady c
  | .iterate =>
    match m.phase with
    | .reading r => r.Steady c ops view m.dev
    | .writing w => w.Steady c ops view m.dev
    | _ => True

instance (m : Machine σ) : (event : Event) → Decidable (m.Steady c ops view event)
  | .start _ => inferInstanceAs (Decidable (Request.Steady _ _))
  | .iterate =>
    match m with
    | ⟨.reading r, s, _⟩ => inferInstanceAs (Decidable (r.Steady c ops view s))
    | ⟨.writing w, s, _⟩ => inferInstanceAs (Decidable (w.Steady c ops view s))
    | ⟨.idle, _, _⟩ | ⟨.erasing _, _, _⟩ | ⟨.returned _ _, _, _⟩ =>
      inferInstanceAs (Decidable True)

end Runs

end OpenWrt.MtkBmt.Layer
