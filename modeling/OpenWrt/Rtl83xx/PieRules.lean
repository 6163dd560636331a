/-
# The rules of the packet inspection engine

A rule of RTL838x is placed at the first free index of a block with a template for it, and a bit says
that the index is used. The bits are always right. What is wrong is around the table: a rule with too
many actions is refused after its row was chosen, the row is written with what the data registers hold
from before, and the addition reports no error. The removal of a rule turns the lookup of its block
off where it was on, and on where it was off.
-/

import OpenWrt.Lib.Run

namespace OpenWrt.Rtl83xx.PieRules

open OpenWrt.Lib

/-- `PIE_BLOCK_SIZE` -/
def blockSize : ℕ := 128

/-- `n_pie_blocks` -/
def nPieBlocks : ℕ := 12

/-- The selectors of the actions of a rule, in the order in which they are encoded. -/
structure Actions where
  fwd : Bool
  ovid : Bool
  ivid : Bool
  flt : Bool
  log : Bool
  rmk : Bool
  meter : Bool
  tagst : Bool
  mir : Bool
  nopri : Bool
  cpupri : Bool
  otpid : Bool
  itpid : Bool
  shaper : Bool
deriving DecidableEq

/-- The actions that use a field without a check that one is left, and those that check. -/
def Actions.unchecked (a : Actions) : List Bool := [a.fwd, a.ovid, a.ivid, a.flt]

def Actions.checked (a : Actions) : List Bool :=
  [a.log, a.rmk, a.meter, a.tagst, a.mir, a.nopri, a.cpupri, a.otpid, a.itpid, a.shaper]

/-- The fields after the checks of `rtl838x_write_pie_action`, if no check fails. -/
def fieldsUsed : List Bool → ℕ → Option ℕ
  | [], used => some used
  | false :: sels, used => fieldsUsed sels used
  | true :: sels, used => if used ≥ 4 then none else fieldsUsed sels (used + 1)

/-- Whether `rtl838x_write_pie_action` returns 0. -/
def Actions.encodes (a : Actions) : Bool :=
  (fieldsUsed a.checked (a.unchecked.count true)).isSome

/-- What the engine sees of a rule: whether it is valid, its actions, and the rest. -/
structure Rule (P : Type) where
  valid : Bool
  actions : Actions
  pattern : P

/-- What does not change: the template of each block and selector, the first part of
`rtl838x_pie_verify_template`, and the words that are made of a rule in a block with some template
selector. -/
structure Engine (P Row : Type) where
  template : ℕ → ℕ → ℕ
  verify : P → ℕ → Bool
  words : Rule P → ℕ → ℕ → Row
  cleared : Row

/-- The registers, the table and `pie_use_bm`. `ids` has the rules that were added and not removed. -/
structure State (Row : Type) where
  table : ℕ → Row
  tableData : Row
  lookup : ℕ → Bool
  useBm : ℕ → Bool
  ids : List ℕ

inductive Errno where
  | inval
  | opNotSupp
  | tooComplex

section Model

variable {P Row : Type} (E : Engine P Row)

/-- `rtl838x_pie_verify_template` -/
def verifyTemplate (s : State Row) (pattern : P) (t block : ℕ) : Option ℕ :=
  if E.verify pattern t then
    ((List.range blockSize).find? fun i => !s.useBm (i + blockSize * block)).map
      (· + blockSize * block)
  else none

/-- The first block and template of a block with room for the rule. -/
def place (s : State Row) (pattern : P) : Option (ℕ × ℕ) :=
  (List.range nPieBlocks).findSome? fun block =>
    (List.range 3).findSome? fun j =>
      (verifyTemplate E s pattern (E.template block j) block).map fun idx => (idx, j)

/-- `rtl838x_pie_rule_write`. The row is written on every path. -/
def ruleWrite (s : State Row) (idx tid : ℕ) (pr : Rule P) : State Row × Option Errno :=
  if !pr.valid then
    ({ s with table := Function.update s.table idx s.tableData }, some .inval)
  else if !pr.actions.encodes then
    ({ s with table := Function.update s.table idx s.tableData }, some .tooComplex)
  else
    let words := E.words pr (idx / blockSize) tid
    ({ s with table := Function.update s.table idx words, tableData := words }, none)

/-- `rtl838x_pie_rule_add`, with `rtl838x_pie_lookup_enable`. -/
def ruleAdd (s : State Row) (pr : Rule P) : State Row × Option Errno :=
  match place E s pr.pattern with
  | none => (s, some .opNotSupp)
  | some (idx, tid) =>
      let s := { s with
        useBm := Function.update s.useBm idx true
        ids := idx :: s.ids
        lookup := Function.update s.lookup (idx / blockSize) true }
      ((ruleWrite E s idx tid { pr with valid := true }).1, none)

/-- `rtl838x_pie_rule_rm`, with `rtl838x_pie_rule_del` for one index. A block that was off before is
the one that is turned on again. -/
def ruleRm (s : State Row) (idx : ℕ) : State Row :=
  let block := idx / blockSize
  let state := s.lookup block
  let off := if state then Function.update s.lookup block false else s.lookup
  { table := Function.update s.table idx E.cleared
    tableData := s.tableData
    lookup := if !state then Function.update off block true else off
    useBm := Function.update s.useBm idx false
    ids := s.ids.filter (· ≠ idx) }

inductive Call (P : Type) where
  | add (pr : Rule P)
  | rm (id : ℕ)
  | write (id tid : ℕ) (pr : Rule P)

def apply (s : State Row) : Call P → State Row
  | .add pr => (ruleAdd E s pr).1
  | .rm id => ruleRm E s id
  | .write id tid pr => (ruleWrite E s id tid pr).1

/-- The bits are those of the rules that are there, each of which is there once. -/
def State.Good (s : State Row) : Prop := s.ids.Nodup ∧ ∀ i, s.useBm i = true ↔ i ∈ s.ids

/-- A rule that cannot be encoded, or placed, is refused with an error and changes neither the table
nor the bits. A removal leaves the other rows and the lookup of the block. -/
def StepRight (s : State Row) : Call P → Prop
  | .add pr => (place E s pr.pattern = none ∨ pr.actions.encodes = false) →
      (ruleAdd E s pr).2 ≠ none ∧ (ruleAdd E s pr).1.table = s.table ∧
        (ruleAdd E s pr).1.useBm = s.useBm
  | .rm id => (∀ i, i ≠ id → (ruleRm E s id).table i = s.table i) ∧
      (ruleRm E s id).lookup (id / blockSize) = s.lookup (id / blockSize)
  | .write id tid pr => (pr.valid = false ∨ pr.actions.encodes = false) →
      (ruleWrite E s id tid pr).2 ≠ none ∧ (ruleWrite E s id tid pr).1.table = s.table ∧
        (ruleWrite E s id tid pr).1.useBm = s.useBm

/-- No rule is removed, every rule that is placed has actions for the fields there are, and one that
is written has them too or finds its row in the data registers. -/
def Handled (s : State Row) : Call P → Prop
  | .add pr => place E s pr.pattern = none ∨ pr.actions.encodes = true
  | .rm _ => False
  | .write id _ pr => pr.valid = true ∧ pr.actions.encodes = true ∨ s.table id = s.tableData

end Model

section Proofs

variable {P Row : Type} {E : Engine P Row} {s : State Row}

theorem useBm_of_place {pattern : P} {idx tid : ℕ} (h : place E s pattern = some (idx, tid)) :
    s.useBm idx = false := by
  obtain ⟨block, -, hblock⟩ := List.exists_of_findSome?_eq_some h
  obtain ⟨j, -, hj⟩ := List.exists_of_findSome?_eq_some hblock
  obtain ⟨idx', hidx, heq⟩ := Option.map_eq_some_iff.mp hj
  cases heq
  rw [verifyTemplate] at hidx
  split_ifs at hidx
  obtain ⟨i, hfind, rfl⟩ := Option.map_eq_some_iff.mp hidx
  simpa using List.find?_some hfind

theorem ruleWrite_useBm (E : Engine P Row) (s : State Row) (idx tid : ℕ) (pr : Rule P) :
    (ruleWrite E s idx tid pr).1.useBm = s.useBm ∧ (ruleWrite E s idx tid pr).1.ids = s.ids := by
  rw [ruleWrite]
  split_ifs <;> exact ⟨rfl, rfl⟩

/-- The bits are right after every call. -/
theorem State.Good.apply (h : s.Good) (call : Call P) : (apply E s call).Good := by
  cases call with
  | write id tid pr =>
      obtain ⟨huse, hids⟩ := ruleWrite_useBm E s id tid pr
      rw [PieRules.apply, Good, huse, hids]
      exact h
  | rm id =>
      refine ⟨h.1.filter _, fun i => ?_⟩
      rw [PieRules.apply, ruleRm]
      by_cases hi : i = id
      · simp [hi]
      · simp [hi, h.2 i]
  | add pr =>
      rw [PieRules.apply, ruleAdd]
      cases hplace : place E s pr.pattern with
      | none => exact h
      | some at? =>
          obtain ⟨idx, tid⟩ := at?
          have hfree : idx ∉ s.ids := fun hmem => by
            rw [← h.2, useBm_of_place hplace] at hmem
            cases hmem
          simp only [Good, ruleWrite_useBm]
          refine ⟨List.nodup_cons.mpr ⟨hfree, h.1⟩, fun i => ?_⟩
          by_cases hi : i = idx
          · simp [hi]
          · simp [hi, h.2 i]

theorem stepRight_iff (call : Call P) : StepRight E s call ↔ Handled E s call := by
  cases call with
  | add pr =>
      rw [StepRight, Handled]
      cases hplace : place E s pr.pattern with
      | none => simp [ruleAdd, hplace]
      | some at? => simp [ruleAdd, hplace]
  | rm id =>
      rw [StepRight, Handled, iff_false, not_and]
      intro _ hlookup
      simp only [ruleRm] at hlookup
      cases hstate : s.lookup (id / blockSize) <;> simp [hstate] at hlookup
  | write id tid pr =>
      rw [StepRight, Handled, ruleWrite]
      cases pr.valid <;> cases pr.actions.encodes <;>
        simp [eq_comm]

end Proofs

/-- In every run the bits are those of the rules that are there, and every step is right exactly if no
rule is removed and every rule that is placed or written can be encoded. -/
theorem rules_right_iff {P Row : Type} (E : Engine P Row) (table : ℕ → Row) (tableData : Row)
    (lookup : ℕ → Bool) (calls : List (Call P)) :
    let state := fun n => (calls.take n).foldl (apply E) ⟨table, tableData, lookup, fun _ => false, []⟩
    (∀ n, (state n).Good) ∧
      ((∀ n call, calls[n]? = some call → StepRight E (state n) call) ↔
        Along (apply E) (Handled E) calls ⟨table, tableData, lookup, fun _ => false, []⟩) := by
  intro state
  have hgood : (⟨table, tableData, lookup, fun _ => false, []⟩ : State Row).Good :=
    ⟨List.nodup_nil, fun i => by simp⟩
  have hall : ∀ n, (state n).Good := fun n => by
    refine List.foldlRecOn (calls.take n) (apply E) hgood fun s hs call _ => hs.apply call
  refine ⟨hall, ?_⟩
  rw [along_iff_forall_take_and_getElem? (fun (_ : State Row) (h : True) => h)
    (fun _ _ _ _ _ => trivial) (fun _ _ _ _ h => (stepRight_iff _).mpr h)
    (fun _ _ _ _ _ h => (stepRight_iff _).mp h) trivial]
  exact forall_congr' fun n => (and_iff_right trivial).symm

/-- An engine with one template that takes every rule, and a rule that drops. -/
def anyRule : Engine Unit ℕ := ⟨fun _ _ => 0, fun _ _ => true, fun _ _ _ => 1, 0⟩

def drop : Rule Unit :=
  ⟨true, ⟨false, false, false, false, false, false, false, false, false, false, false, false, false,
    false⟩, ()⟩

/-- The lookup of a block is off after one of its rules was removed. -/
theorem lookup_lost : ¬ ∀ (calls : List (Call Unit)) (call : Call Unit),
    StepRight anyRule (calls.foldl (apply anyRule) ⟨fun _ => 0, 0, fun _ => false, fun _ => false, []⟩)
      call := by
  intro h
  exact (stepRight_iff _).mp (h [.add drop, .add drop] (.rm 0))

end OpenWrt.Rtl83xx.PieRules
