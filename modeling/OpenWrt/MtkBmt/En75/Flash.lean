/-
# A flash that fails now and then

The chip below the block management, seen through the driver's erase, write and read. An
erase sets the bits of a block, a write can only clear bits, and either is done whole or not
at all when the power is cut. Which operations fail, and what a failed one leaves in its
block, is a parameter, so that every pattern of failures is one instance of it. The contents
the flash has gone through are kept: they are what a cut of the power may leave.

Of the spare area only the first four bytes of the first page are used.
-/

import Mathlib.Logic.Function.Basic
import Mathlib.Data.Nat.Notation

namespace OpenWrt.MtkBmt.En75

/-! ## Blocks -/

abbrev Page := ℕ → UInt8

/-- The first spare bytes of a block. -/
structure Fdm where
  b0 : UInt8
  b1 : UInt8
  b2 : UInt8
  b3 : UInt8
  deriving DecidableEq, Repr

/-- The pages of a block and its spare bytes. -/
structure Block where
  page : ℕ → Page
  fdm : Fdm

abbrev Blocks := ℕ → Block

/-- Write bytes over a page. -/
def Page.program (page : Page) (data : List UInt8) : Page := fun i => page i &&& data.getD i 0xff

/-- Write bytes over the spare bytes. -/
def Fdm.program (fdm : Fdm) (oob : List UInt8) : Fdm where
  b0 := fdm.b0 &&& oob.getD 0 0xff
  b1 := fdm.b1 &&& oob.getD 1 0xff
  b2 := fdm.b2 &&& oob.getD 2 0xff
  b3 := fdm.b3 &&& oob.getD 3 0xff

/-- The spare bytes of an erased block. -/
def Fdm.blank : Fdm := ⟨0xff, 0xff, 0xff, 0xff⟩

def Block.blank : Block := ⟨fun _ _ => 0xff, .blank⟩

/-! ## Operations -/

/-- An operation that changes the flash. -/
inductive Op where
  | erase (block : ℕ)
  | program (block page : ℕ) (data oob : List UInt8)
  deriving DecidableEq, Repr

def Op.block : Op → ℕ
  | .erase block | .program block _ _ _ => block

def Op.effect (b : Block) : Op → Block
  | .erase _ => .blank
  | .program _ page data oob =>
    { page := Function.update b.page page ((b.page page).program data)
      fdm := if page = 0 then b.fdm.program oob else b.fdm }

/-- The flash after an operation. -/
def Op.apply (op : Op) (f : Blocks) : Blocks :=
  Function.update f op.block (op.effect (f op.block))

/-- Which operations fail. Each operation has a number, and so does each read. -/
structure Faults where
  /-- What a failed operation leaves in its block. -/
  write : (block clock : ℕ) → Option Block
  /-- A read fails. -/
  read : (block clock : ℕ) → Bool

/-- The flash. -/
structure Device where
  blocks : Blocks
  /-- How many operations and reads there were. -/
  clock : ℕ
  /-- The contents before each operation. -/
  past : List Blocks

namespace Device

variable (faults : Faults)

/-- Do an operation. -/
def perform (op : Op) (d : Device) : Bool × Device :=
  match faults.write op.block d.clock with
  | none =>
    (true,
      { blocks := op.apply d.blocks
        clock := d.clock + 1
        past := d.blocks :: d.past })
  | some left =>
    (false,
      { blocks := Function.update d.blocks op.block left
        clock := d.clock + 1
        past := d.blocks :: d.past })

/-- Read a page of a block, and its spare bytes. -/
def read (block page : ℕ) (d : Device) : Option (Page × Fdm) × Device :=
  (if faults.read block d.clock then none else some ((d.blocks block).page page, (d.blocks block).fdm),
    { d with clock := d.clock + 1 })

/-- `bbt_nand_copy`: copy pages up to an offset, without their spare bytes. -/
def bbtNandCopy (pgSize dest src maxOffset : ℕ) : (pages page : ℕ) → Device → Bool × Device
  | 0, _, d => (true, d)
  | pages + 1, page, d =>
    if maxOffset ≤ page * pgSize then (true, d)
    else
      match d.read faults src page with
      | (none, d) => (false, d)
      | (some (data, _), d) =>
        match d.perform faults (.program dest page ((List.range pgSize).map data) []) with
        | (false, d) => (false, d)
        | (true, d) => bbtNandCopy pgSize dest src maxOffset pages (page + 1) d

/-! ## What the flash goes through -/

/-- From one state to the other, the contents the flash went through and the ones it ends with
all have a property. -/
structure Within (d d' : Device) (P : Blocks → Prop) : Prop where
  past : ∃ new, d'.past = new ++ d.past ∧ ∀ f ∈ new, P f
  blocks : P d'.blocks

variable {faults} {d d' d'' : Device} {P Q : Blocks → Prop}

theorem Within.refl (h : P d.blocks) : d.Within d P :=
  ⟨⟨[], rfl, fun _ hf => by cases hf⟩, h⟩

theorem Within.trans (h : d.Within d' P) (h' : d'.Within d'' P) : d.Within d'' P := by
  obtain ⟨⟨new, hnew, hP⟩, -⟩ := h
  obtain ⟨⟨new', hnew', hP'⟩, hblocks⟩ := h'
  refine ⟨⟨new' ++ new, by rw [hnew', hnew, List.append_assoc], fun f hf => ?_⟩, hblocks⟩
  rcases List.mem_append.mp hf with hf | hf
  · exact hP' f hf
  · exact hP f hf

theorem within_perform (op : Op) {f : Blocks} (hf : ∀ q ≠ op.block, d.blocks q = f q) :
    d.Within (d.perform faults op).2 fun g => ∀ q ≠ op.block, g q = f q := by
  unfold perform
  split
  all_goals
    refine ⟨⟨[d.blocks], rfl, fun g hg => ?_⟩, fun q hq => ?_⟩
    · rw [List.mem_singleton.mp hg]
      exact hf
  · exact (Function.update_of_ne hq _ _).trans (hf q hq)
  · exact (Function.update_of_ne hq _ _).trans (hf q hq)

/-- A copy keeps what writing a page of the destination keeps. -/
theorem within_bbtNandCopy {pgSize dest src maxOffset : ℕ}
    (hstep : ∀ (d : Device) page data, P d.blocks →
      d.Within (d.perform faults (.program dest page data [])).2 P)
    (pages page : ℕ) (hP : P d.blocks) :
    d.Within (d.bbtNandCopy faults pgSize dest src maxOffset pages page).2 P := by
  induction pages generalizing page d with
  | zero => exact .refl hP
  | succ pages ih =>
    unfold bbtNandCopy
    split
    case isTrue => exact .refl hP
    case isFalse =>
      have hread : ∀ {r : Option (Page × Fdm)} {d₁ : Device}, d.read faults src page = (r, d₁) →
          d.Within d₁ P := by
        intro r d₁ h
        cases h
        exact ⟨⟨[], rfl, fun _ hf => by cases hf⟩, hP⟩
      split
      case h_1 d₁ h₁ => exact hread h₁
      case h_2 data fdm d₁ h₁ =>
        have hfirst := hread h₁
        have hnext := hstep d₁ page ((List.range pgSize).map data) hfirst.blocks
        split
        case h_1 d₂ h₂ =>
          rw [h₂] at hnext
          exact hfirst.trans hnext
        case h_2 d₂ h₂ =>
          rw [h₂] at hnext
          exact (hfirst.trans hnext).trans (ih (page + 1) hnext.blocks)

end Device

end OpenWrt.MtkBmt.En75
