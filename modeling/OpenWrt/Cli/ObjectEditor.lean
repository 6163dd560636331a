/-
# The object editor

The named arguments of a call are applied to the edited object one after the other. A call that adds
or sets stops at the first argument it refuses and keeps what the ones before it did, and a call that
removes goes on and reports what it refused at the end. So a call that is not right leaves the object
as it was only where the arguments that were right did nothing.

An argument names the values that are removed by their numbers from one on or by what they are. There
is no check that a number is one at least, so zero and the numbers below are taken from the end of the
list. A value that replaces another is refused for what both have in common.
-/

import Mathlib.Data.List.Induction
import Mathlib.Data.List.Nodup
import Mathlib.Data.List.ReduceOption
import Mathlib.Order.Nat
import OpenWrt.Lib.Turns

namespace OpenWrt.Cli.ObjectEditor

open OpenWrt.Lib

/-- What the specification of a named argument says of it: the object that `get_param_object` gives,
and what it checks. -/
structure Param (ι Attr : Type) where
  object : ι
  attr : Attr
  multiple : Bool := true
  allowDuplicate : Bool := false
  attributeAllowEmpty : Bool := false

/-- Where the value of an argument is stored. -/
def Param.key {ι Attr : Type} (cur : Param ι Attr) : ι × Attr := (cur.object, cur.attr)

/-- The attributes of the objects. A value that is no list is the list of it alone. -/
abbrev Attributes (ι Attr α : Type) := ι × Attr → Option (List α)

/-- What a call comes to: the attributes after it, whether it reports that it is ok, and whether the
change callback is run. -/
structure Outcome (ι Attr α : Type) where
  store : Attributes ι Attr α
  ok : Bool
  changed : Bool

/-- A text that is written as a number is written. Of one that is not whole only the comparison with a
length is seen. -/
inductive Number where
  | int (i : ℤ)
  | other (above : ℕ → Bool)

section Model

variable {ι Attr α : Type} [DecidableEq ι] [DecidableEq Attr] [DecidableEq α]

/-- The loop of `check_duplicate`, after the values in `seen`. -/
def checkDuplicateFrom (val : List α) : (newVal seen : List α) → Bool
  | [], _ => false
  | v :: newVal, seen =>
    val.contains v || seen.contains v || checkDuplicateFrom val newVal (seen ++ [v])

/-- `check_duplicate` -/
def checkDuplicate (val : Option (List α)) (newVal : List α) : Bool :=
  checkDuplicateFrom (val.getD []) newVal []

/-- The end of a call, with `call_change_cb`. -/
def finish (named : Bool) (r : Attributes ι Attr α × Bool) : Outcome ι Attr α :=
  ⟨r.1, r.2, r.2 && named⟩

/-- `cur_obj[name] ??= []` -/
def ensure (s : Attributes ι Attr α) (a : Param ι Attr × List α) : Attributes ι Attr α :=
  Function.update s a.1.key (some ((s a.1.key).getD []))

/-- `push(cur_obj[name], ...val)` -/
def push (s : Attributes ι Attr α) (a : Param ι Attr × List α) : Attributes ι Attr α :=
  Function.update s a.1.key (some ((s a.1.key).getD [] ++ a.2))

/-- The values are checked against those of the edited object. -/
def addRefused (obj : ι) (s : Attributes ι Attr α) (a : Param ι Attr × List α) : Bool :=
  !a.1.allowDuplicate && checkDuplicate (s (obj, a.1.attr)) a.2

/-- `add_call` -/
def addCall (obj : ι) (named : List (Param ι Attr × List α)) (s : Attributes ι Attr α) :
    Outcome ι Attr α :=
  finish (!named.isEmpty) (Turns.run ensure (addRefused obj) push named s)

def setRefused (obj : ι) (s : Attributes ι Attr α) (a : Param ι Attr × Option (List α)) : Bool :=
  match a.2 with
  | none => false
  | some val =>
    a.1.multiple && !a.1.allowDuplicate && checkDuplicate (s (obj, a.1.attr)) val

/-- The attribute is deleted or replaced. -/
def assign (s : Attributes ι Attr α) (a : Param ι Attr × Option (List α)) : Attributes ι Attr α :=
  Function.update s a.1.key a.2

/-- `set_call` -/
def setCall (obj : ι) (named : List (Param ι Attr × Option (List α))) (s : Attributes ι Attr α) :
    Outcome ι Attr α :=
  finish (!named.isEmpty) (Turns.run (fun s _ => s) (setRefused obj) assign named s)

/-- Where an index of an array of some length is. One below zero counts from the end. -/
def arrayIndex (length : ℕ) (i : ℤ) : Option ℕ :=
  if i < 0 then (if -i ≤ length then some (length + i).toNat else none) else some i.toNat

variable (number : α → Option Number)

/-- The place an argument of `remove_call` names, if it has one. There is no answer where the argument
is refused. -/
def place (data : List (Option α)) (idx : α) : Option (Option ℕ) :=
  match number idx with
  | none => (data.findIdx? fun v => v = some idx).map some
  | some (.int i) =>
    if (data.length : ℤ) < i then none else some (arrayIndex data.length (i - 1))
  | some (.other above) => if above data.length then none else some none

/-- One round of the loop over the values. -/
def removeValue (data : List (Option α)) (idx : α) : List (Option α) × List α :=
  match place number data idx with
  | none => (data, [idx])
  | some none => (data, [])
  | some (some p) => (data.set p none, [])

/-- What is stored of a list with holes. -/
def keep (cur : Param ι Attr) (data : List (Option α)) : Option (List α) :=
  if cur.attributeAllowEmpty && data.reduceOption.isEmpty then none else some data.reduceOption

/-- One round of the loop over the arguments, with the values it refuses. -/
def removeArg (s : Attributes ι Attr α) (a : Param ι Attr × List α) :
    Attributes ι Attr α × List α :=
  match s a.1.key with
  | none => (s, [])
  | some data =>
    let r := Turns.collect (removeValue number) a.2 (data.map some)
    (Function.update s a.1.key (keep a.1 r.1), r.2)

/-- `remove_call` -/
def removeCall (named : List (Param ι Attr × List α)) (s : Attributes ι Attr α) :
    Outcome ι Attr α :=
  let r := Turns.collect (removeArg number) named s
  finish (!named.isEmpty) (r.1, r.2.isEmpty)

/-! ## What the calls are for -/

/-- A call that is not ok leaves everything as it was. -/
def Outcome.Atomic (r : Outcome ι Attr α) (s : Attributes ι Attr α) : Prop :=
  r.ok = false → r.store = s ∧ r.changed = false

/-- A list takes the place of what is stored, and it does so if it repeats nothing. -/
def SetsRight (obj : ι) (cur : Param ι Attr) (val : List α) (s : Attributes ι Attr α) : Prop :=
  let r := setCall obj [(cur, some val)] s
  (r.ok = true → r.store cur.key = some val) ∧ (val.Nodup → r.ok = true)

/-- A list is put behind what is stored. Nothing is stored twice where that is not allowed. -/
def AddsRight (obj : ι) (cur : Param ι Attr) (val : List α) (s : Attributes ι Attr α) : Prop :=
  let r := addCall obj [(cur, val)] s
  r.ok = true → r.store cur.key = some ((s cur.key).getD [] ++ val) ∧
    (cur.allowDuplicate = false → ((s cur.key).getD []).Nodup → ((s cur.key).getD [] ++ val).Nodup)

/-- The first place with a value that is not gone yet. -/
def first (data : List α) (gone : List ℕ) (v : α) : Option ℕ :=
  (List.range data.length).find? fun p => decide (data[p]? = some v) && !gone.contains p

/-- The places that arguments name, numbers from one to the length of the list and values that are
there. -/
def named (data : List α) : (val : List α) → (gone : List ℕ) → Option (List ℕ)
  | [], gone => some gone
  | v :: val, gone =>
    match number v with
    | some (.int i) =>
      if 1 ≤ i ∧ i ≤ data.length then named data val ((i - 1).toNat :: gone) else none
    | some (.other _) => none
    | none =>
      match first data gone v with
      | some p => named data val (p :: gone)
      | none => none

/-- The values at the places that are not gone. -/
def rest (data : List α) (gone : List ℕ) : List α :=
  (data.zipIdx.filter fun x => !gone.contains x.2).map (·.1)

/-- What the arguments name is removed and nothing else, and only arguments that all name something
are accepted. -/
def RemovesRight (cur : Param ι Attr) (data val : List α) (s : Attributes ι Attr α) : Prop :=
  let r := removeCall number [(cur, val)] s
  match named number data val [] with
  | none => r.ok = false
  | some gone => r.ok = true ∧ (r.store cur.key).getD [] = rest data gone

/-! ## When they do it -/

/-- No argument before adds a value or an attribute. -/
def AddsNothing (s : Attributes ι Attr α) (pre : List (Param ι Attr × List α)) : Prop :=
  ∀ b ∈ pre, b.2 = [] ∧ s b.1.key ≠ none

def lastValue (named : List (Param ι Attr × Option (List α))) (k : ι × Attr) :
    Option (Option (List α)) :=
  (named.reverse.find? fun a => a.1.key = k).map (·.2)

def holes (data val : List α) : List (Option α) :=
  val.foldl (fun h idx => (removeValue number h idx).1) (data.map some)

/-- An argument is refused at its turn. -/
def SomeRefused (data val : List α) : Prop :=
  ∃ pre v post, val = pre ++ v :: post ∧ place number (holes number data pre) v = none

/-- An argument names a place of a list. -/
def Hits (data : List α) (v : α) : Prop :=
  match number v with
  | none => v ∈ data
  | some (.int i) => 1 - (data.length : ℤ) ≤ i ∧ i ≤ data.length
  | some (.other _) => False

/-- No argument names anything in what is stored, and there is no empty list that is deleted. -/
def RemovesNothing (s : Attributes ι Attr α) (named : List (Param ι Attr × List α)) : Prop :=
  ∀ a ∈ named, ∀ data, s a.1.key = some data →
    (∀ v ∈ a.2, ¬ Hits number data v) ∧ (a.1.attributeAllowEmpty = true → data ≠ [])

/-- Whether an argument that is written as a number is a number from one on. -/
def FromOne (v : α) : Prop :=
  match number v with
  | none => True
  | some (.int i) => 1 ≤ i
  | some (.other _) => False

end Model

/-! ## Adding and setting -/

section Proofs

variable {ι Attr α : Type} [DecidableEq ι] [DecidableEq Attr]

/-- How much is stored under each attribute. -/
def size (s : Attributes ι Attr α) (k : ι × Attr) : ℕ := (s k).elim 0 fun data => data.length + 1

theorem push_ensure (s : Attributes ι Attr α) (a : Param ι Attr × List α) :
    push (ensure s a) a =
      Function.update s a.1.key (some ((s a.1.key).getD [] ++ a.2)) := by
  simp only [push, ensure, Function.update_self, Option.getD_some, Function.update_idem]

theorem update_eq_self_iff {s : Attributes ι Attr α} {k : ι × Attr} {v : Option (List α)} :
    Function.update s k v = s ↔ v = s k := by
  refine ⟨fun h => ?_, fun h => by rw [h, Function.update_eq_self]⟩
  rw [← congrFun h k, Function.update_self]

theorem size_le_push (s : Attributes ι Attr α) (a : Param ι Attr × List α) :
    size s ≤ size (push (ensure s a) a) := by
  intro k
  rw [push_ensure]
  by_cases h : k = a.1.key
  · subst h
    simp only [size, Function.update_self, Option.elim_some, List.length_append]
    cases s a.1.key with
    | none => exact Nat.zero_le _
    | some data => simp only [Option.elim_some, Option.getD_some]; omega
  · simp only [size, Function.update_of_ne h]
    exact le_refl _

theorem push_eq_self_iff {s : Attributes ι Attr α} {a : Param ι Attr × List α} :
    push (ensure s a) a = s ↔ a.2 = [] ∧ s a.1.key ≠ none := by
  rw [push_ensure, update_eq_self_iff]
  cases s a.1.key with
  | none => simp
  | some data => simp

theorem push_eq_self_of_size {s : Attributes ι Attr α} {a : Param ι Attr × List α}
    (h : size (push (ensure s a) a) = size s) : push (ensure s a) a = s := by
  rw [push_eq_self_iff]
  have hk := congrFun h a.1.key
  rw [push_ensure] at hk
  simp only [size, Function.update_self, Option.elim_some, List.length_append] at hk
  cases hs : s a.1.key with
  | none => rw [hs] at hk; simp at hk
  | some data =>
    rw [hs] at hk
    simp only [Option.getD_some, Option.elim_some] at hk
    exact ⟨List.eq_nil_of_length_eq_zero (by omega), Option.some_ne_none _⟩

theorem ensure_after_eq_self_iff {s : Attributes ι Attr α}
    {pre : List (Param ι Attr × List α)} {a : Param ι Attr × List α} :
    ensure (Turns.after ensure push pre s) a = s ↔ AddsNothing s pre ∧ s a.1.key ≠ none := by
  have hpre : Turns.after ensure push pre s = s ↔ AddsNothing s pre := by
    rw [Turns.after, Turns.foldl_eq_self_iff size_le_push fun _ _ => push_eq_self_of_size]
    exact forall₂_congr fun b _ => push_eq_self_iff
  -- What is there before the last argument is not more than what is there after it.
  have hlast : ∀ t : Attributes ι Attr α, ensure t a = push (ensure t (a.1, [])) (a.1, []) := by
    intro t
    rw [push_ensure, ensure, List.append_nil]
  constructor
  · intro h
    have hsame : Turns.after ensure push (pre ++ [(a.1, [])]) s = s := by
      rw [hlast] at h
      rwa [Turns.after, List.foldl_append]
    have hall := (Turns.foldl_eq_self_iff size_le_push fun _ _ => push_eq_self_of_size).mp hsame
    exact ⟨fun b hb => push_eq_self_iff.mp (hall b (List.mem_append_left _ hb)),
      (push_eq_self_iff.mp (hall (a.1, []) (List.mem_append_right _ List.mem_cons_self))).2⟩
  · rintro ⟨hnothing, hkey⟩
    rw [hpre.mpr hnothing, hlast]
    exact push_eq_self_iff.mpr ⟨rfl, hkey⟩

theorem foldl_assign (pre : List (Param ι Attr × Option (List α))) (s : Attributes ι Attr α)
    (k : ι × Attr) : pre.foldl assign s k = (lastValue pre k).getD (s k) := by
  induction pre using List.reverseRecOn with
  | nil => rfl
  | append_singleton pre a ih =>
    rw [List.foldl_append, List.foldl_cons, List.foldl_nil, assign, lastValue,
      List.reverse_append, List.reverse_singleton, List.singleton_append, List.find?_cons]
    by_cases h : a.1.key = k
    · simp only [← h, Function.update_self, decide_true, Option.map_some, Option.getD_some]
    · rw [Function.update_of_ne (Ne.symm h), ih]
      simp only [h, decide_false, lastValue]

theorem foldl_assign_eq_self_iff {pre : List (Param ι Attr × Option (List α))}
    {s : Attributes ι Attr α} :
    pre.foldl assign s = s ↔ ∀ k v, lastValue pre k = some v → s k = v := by
  constructor
  · intro h k v hv
    rw [← congrFun h k, foldl_assign, hv]
    rfl
  · intro h
    funext k
    rw [foldl_assign]
    cases hv : lastValue pre k with
    | none => rfl
    | some v => exact (h k v hv).symm

variable [DecidableEq α]

theorem checkDuplicateFrom_eq_false_iff {val newVal seen : List α} :
    checkDuplicateFrom val newVal seen = false ↔
      newVal.Nodup ∧ ∀ v ∈ newVal, v ∉ val ∧ v ∉ seen := by
  induction newVal generalizing seen with
  | nil => exact ⟨fun _ => ⟨List.nodup_nil, fun v hv => by cases hv⟩, fun _ => rfl⟩
  | cons v newVal ih =>
    rw [checkDuplicateFrom, Bool.or_eq_false_iff, Bool.or_eq_false_iff, ih, List.nodup_cons,
      List.forall_mem_cons]
    simp only [List.contains_eq_mem, decide_eq_false_iff_not, List.mem_append,
      List.mem_singleton]
    constructor
    · rintro ⟨hv, hnodup, hall⟩
      exact ⟨⟨fun hmem => (hall v hmem).2 (.inr rfl), hnodup⟩, hv,
        fun w hw => ⟨(hall w hw).1, fun hseen => (hall w hw).2 (.inl hseen)⟩⟩
    · rintro ⟨⟨hmem, hnodup⟩, hv, hall⟩
      refine ⟨hv, hnodup, fun w hw => ⟨(hall w hw).1, ?_⟩⟩
      rintro (hseen | rfl)
      · exact (hall w hw).2 hseen
      · exact hmem hw

theorem checkDuplicate_eq_false_iff {val : Option (List α)} {newVal : List α} :
    checkDuplicate val newVal = false ↔ newVal.Nodup ∧ newVal.Disjoint (val.getD []) := by
  rw [checkDuplicate, checkDuplicateFrom_eq_false_iff]
  simp only [List.not_mem_nil, not_false_eq_true, and_true]
  rfl

end Proofs

/-! ## Removing -/

section Removing

variable {ι Attr α : Type}

theorem length_reduceOption_set (h : List (Option α)) (p : ℕ) :
    (h.set p none).reduceOption.length ≤ h.reduceOption.length ∧
      ((h.set p none).reduceOption.length = h.reduceOption.length → h.set p none = h) := by
  induction h generalizing p with
  | nil => exact ⟨le_refl _, fun _ => rfl⟩
  | cons v h ih =>
    cases p with
    | zero => cases v <;> simp
    | succ p =>
      obtain ⟨hle, heq⟩ := ih p
      cases v <;> simpa using ⟨hle, heq⟩

theorem reduceOption_map_some (data : List α) : (data.map some).reduceOption = data := by
  induction data with
  | nil => rfl
  | cons v data ih => rw [List.map_cons, List.reduceOption_cons_of_some, ih]

theorem set_map_some_ne {data : List α} {p : ℕ} (hp : p < data.length) :
    (data.map some).set p none ≠ data.map some := by
  intro h
  have hp' := congrArg (fun l => l[p]?) h
  simp [hp] at hp'

theorem keep_eq_some_iff {cur : Param ι Attr} {h : List (Option α)} {data : List α} :
    keep cur h = some data ↔
      h.reduceOption = data ∧ (cur.attributeAllowEmpty = true → data ≠ []) := by
  rw [keep]
  cases cur.attributeAllowEmpty <;> cases hrest : h.reduceOption <;> aesop

variable [DecidableEq α] {number : α → Option Number}

theorem removeValue_fst (number : α → Option Number) (h : List (Option α)) (idx : α) :
    (removeValue number h idx).1 = h ∨ ∃ p, (removeValue number h idx).1 = h.set p none := by
  rw [removeValue]
  cases place number h idx with
  | none => exact .inl rfl
  | some at? =>
    cases at? with
    | none => exact .inl rfl
    | some p => exact .inr ⟨p, rfl⟩

theorem length_removeValue_le (number : α → Option Number) (h : List (Option α)) (idx : α) :
    OrderDual.toDual h.reduceOption.length ≤
      OrderDual.toDual (removeValue number h idx).1.reduceOption.length := by
  obtain hsame | ⟨p, hset⟩ := removeValue_fst number h idx
  · rw [hsame]
  · rw [hset]
    exact (length_reduceOption_set h p).1

theorem removeValue_eq_self_of_length {h : List (Option α)} {idx : α}
    (hlen : OrderDual.toDual (removeValue number h idx).1.reduceOption.length =
      OrderDual.toDual h.reduceOption.length) : (removeValue number h idx).1 = h := by
  obtain hsame | ⟨p, hset⟩ := removeValue_fst number h idx
  · exact hsame
  · rw [hset] at hlen ⊢
    exact (length_reduceOption_set h p).2 hlen

/-- A value does nothing to a list without holes if it names no place of it. -/
theorem removeValue_map_some_iff {data : List α} {v : α} :
    (removeValue number (data.map some) v).1 = data.map some ↔ ¬ Hits number data v := by
  rw [removeValue, place, Hits]
  cases number v with
  | none =>
    cases hfind : (data.map some).findIdx? fun w => w = some v with
    | none =>
      have hnone : ∀ w ∈ data, ¬ w = v := by simpa using hfind
      simpa using fun hmem => hnone v hmem rfl
    | some p =>
      obtain ⟨hp, hv, -⟩ := List.findIdx?_eq_some_iff_getElem.mp hfind
      rw [List.length_map] at hp
      have hmem : v ∈ data := by
        rw [List.getElem_map, decide_eq_true_eq, Option.some_inj] at hv
        exact hv ▸ List.getElem_mem hp
      simpa [hmem] using set_map_some_ne hp
  | some n =>
    cases n with
    | other above =>
      rw [List.length_map]
      by_cases habove : above data.length = true
      · simp [habove]
      · simp [habove]
    | int i =>
      simp only [List.length_map, arrayIndex]
      split_ifs with habove hneg hlen
      · simp only [true_iff]
        omega
      · simp only [iff_false_left (set_map_some_ne (show (↑data.length + (i - 1)).toNat <
          data.length by omega)), not_not]
        omega
      · simp only [true_iff]
        omega
      · simp only [iff_false_left (set_map_some_ne (show (i - 1).toNat < data.length by
          omega)), not_not]
        omega

theorem reduceOption_holes_eq_iff {data val : List α} :
    (holes number data val).reduceOption = data ↔ ∀ v ∈ val, ¬ Hits number data v := by
  rw [← forall₂_congr fun v _ => removeValue_map_some_iff]
  constructor
  · intro h
    refine (Turns.size_foldl_eq_iff (length_removeValue_le number) fun _ _ =>
      removeValue_eq_self_of_length).mp ?_
    rw [reduceOption_map_some, ← holes, h]
  · intro h
    rw [holes, Turns.foldl_eq_self h, reduceOption_map_some]

variable [DecidableEq ι] [DecidableEq Attr]

theorem removeArg_fst_of_some {s : Attributes ι Attr α} {a : Param ι Attr × List α}
    {data : List α} (h : s a.1.key = some data) :
    (removeArg number s a).1 = Function.update s a.1.key (keep a.1 (holes number data a.2)) := by
  rw [removeArg, h]
  simp only [Turns.collect_fst, holes]

theorem removeArg_eq_self_iff {s : Attributes ι Attr α} {a : Param ι Attr × List α} :
    (removeArg number s a).1 = s ↔ ∀ data, s a.1.key = some data →
      (∀ v ∈ a.2, ¬ Hits number data v) ∧ (a.1.attributeAllowEmpty = true → data ≠ []) := by
  cases h : s a.1.key with
  | none =>
    rw [removeArg, h]
    exact ⟨fun _ data hdata => (by cases hdata), fun _ => rfl⟩
  | some data =>
    rw [removeArg_fst_of_some h, update_eq_self_iff, h, keep_eq_some_iff,
      reduceOption_holes_eq_iff]
    exact ⟨fun hall _ hdata => Option.some.inj hdata ▸ hall, fun hall => hall data rfl⟩

theorem length_holes_le (number : α → Option Number) (data val : List α) :
    (holes number data val).reduceOption.length ≤ data.length := by
  have h := Turns.size_le_foldl (length_removeValue_le number) val (data.map some)
  rwa [reduceOption_map_some] at h

theorem size_removeArg_le (s : Attributes ι Attr α) (a : Param ι Attr × List α) :
    size (removeArg number s a).1 ≤ size s := by
  intro k
  cases h : s a.1.key with
  | none =>
    rw [removeArg, h]
  | some data =>
    rw [removeArg_fst_of_some h]
    by_cases hk : k = a.1.key
    · subst hk
      have hlen := length_holes_le number data a.2
      simp only [size, Function.update_self, h, Option.elim_some, keep]
      split_ifs
      · exact Nat.zero_le _
      · exact Nat.succ_le_succ hlen
    · simp only [size, Function.update_of_ne hk]
      exact le_refl _

theorem removeArg_eq_self_of_size {s : Attributes ι Attr α} {a : Param ι Attr × List α}
    (hsize : size (removeArg number s a).1 = size s) :
    (removeArg number s a).1 = s := by
  cases h : s a.1.key with
  | none => rw [removeArg, h]
  | some data =>
    rw [removeArg_fst_of_some h] at hsize ⊢
    have hk := congrFun hsize a.1.key
    simp only [size, Function.update_self, h, Option.elim_some, keep] at hk
    rw [update_eq_self_iff, h, keep]
    split_ifs at hk ⊢
    · cases hk
    · -- A list that is as long as before is the list itself.
      rw [reduceOption_holes_eq_iff.mpr]
      refine fun v hv => removeValue_map_some_iff.mp ((Turns.size_foldl_eq_iff
        (length_removeValue_le number) fun _ _ => removeValue_eq_self_of_length).mp ?_ v hv)
      rw [reduceOption_map_some]
      exact congrArg OrderDual.toDual (Nat.succ.inj hk)

theorem removeCall_store (named : List (Param ι Attr × List α)) (s : Attributes ι Attr α) :
    (removeCall number named s).store =
      named.foldl (fun s a => (removeArg number s a).1) s := Turns.collect_fst _ named s

theorem removeCall_store_eq_self_iff {named : List (Param ι Attr × List α)}
    {s : Attributes ι Attr α} :
    (removeCall number named s).store = s ↔ RemovesNothing number s named := by
  rw [removeCall_store, Turns.foldl_eq_self_iff
    (fun s a => OrderDual.toDual_le_toDual.mpr (size_removeArg_le s a))
    fun _ _ h => removeArg_eq_self_of_size (OrderDual.toDual_inj.mp h)]
  exact forall₂_congr fun a _ => removeArg_eq_self_iff

theorem collect_snd_ne_nil_iff {data val : List α} :
    (Turns.collect (removeValue number) val (data.map some)).2 ≠ [] ↔
      SomeRefused number data val := by
  have hone : ∀ h v, (removeValue number h v).2 ≠ [] ↔ place number h v = none := by
    intro h v
    rw [removeValue]
    cases place number h v with
    | none => simp
    | some at? => cases at? <;> simp
  rw [ne_eq, Turns.collect_snd_eq_nil_iff]
  simp only [not_forall, hone, SomeRefused, holes, exists_prop]

end Removing

/-! ## All or nothing -/

section Atomic

variable {ι Attr α : Type}

theorem finish_atomic_iff {named : Bool} {r : Attributes ι Attr α × Bool}
    {s : Attributes ι Attr α} :
    (finish named r).Atomic s ↔ (r.2 = false → r.1 = s) := by
  refine ⟨fun h hr => (h hr).1, fun h hr => ⟨h hr, ?_⟩⟩
  change (r.2 && named) = false
  rw [show r.2 = false from hr, Bool.false_and]

variable [DecidableEq ι] [DecidableEq Attr] [DecidableEq α]

/-- An argument of `remove_call` is refused at its turn, in what is left by those before. -/
def RemoveRefused (number : α → Option Number) (named : List (Param ι Attr × List α))
    (s : Attributes ι Attr α) : Prop :=
  ∃ pre a post data, named = pre ++ a :: post ∧
    (removeCall number pre s).store a.1.key = some data ∧ SomeRefused number data a.2

theorem removeRefused_iff {number : α → Option Number} {named : List (Param ι Attr × List α)}
    {s : Attributes ι Attr α} :
    (Turns.collect (removeArg number) named s).2 ≠ [] ↔ RemoveRefused number named s := by
  have hone : ∀ (s : Attributes ι Attr α) a, (removeArg number s a).2 ≠ [] ↔
      ∃ data, s a.1.key = some data ∧ SomeRefused number data a.2 := by
    intro s a
    rw [removeArg]
    cases s a.1.key with
    | none => simp
    | some data => simpa using collect_snd_ne_nil_iff
  rw [ne_eq, Turns.collect_snd_eq_nil_iff]
  simp only [not_forall, hone, RemoveRefused, exists_prop, removeCall_store,
    exists_and_left]

/-- A call that is not ok leaves all as it was if the arguments before the first one that is refused
do nothing: none adds a value or an attribute, or the last one for each attribute sets what is there.
A call that removes does if no argument at all names anything. -/
theorem calls_atomic_iff (number : α → Option Number) (obj : ι) (added : List (Param ι Attr × List α))
    (assigned : List (Param ι Attr × Option (List α))) (removed : List (Param ι Attr × List α))
    (s : Attributes ι Attr α) :
    ((addCall obj added s).Atomic s ↔ ∀ pre a post, added = pre ++ a :: post →
        Turns.Accepted ensure (addRefused obj) push pre s →
        addRefused obj (ensure (Turns.after ensure push pre s) a) a = true →
          AddsNothing s pre ∧ s a.1.key ≠ none) ∧
      ((setCall obj assigned s).Atomic s ↔ ∀ pre a post, assigned = pre ++ a :: post →
        Turns.Accepted (fun s _ => s) (setRefused obj) assign pre s →
        setRefused obj (pre.foldl assign s) a = true →
          ∀ k v, lastValue pre k = some v → s k = v) ∧
      ((removeCall number removed s).Atomic s ↔
        (RemoveRefused number removed s → RemovesNothing number s removed)) := by
  refine ⟨?_, ?_, ?_⟩
  · rw [addCall, finish_atomic_iff, Turns.run_stops_iff ensure (addRefused obj) push (· = s)]
    simp only [ensure_after_eq_self_iff]
  · rw [setCall, finish_atomic_iff,
      Turns.run_stops_iff (fun s _ => s) (setRefused obj) assign (· = s)]
    simp only [Turns.after, foldl_assign_eq_self_iff]
  · rw [removeCall, finish_atomic_iff]
    change (List.isEmpty _ = false → (removeCall number removed s).store = s) ↔ _
    rw [List.isEmpty_eq_false_iff, removeRefused_iff, removeCall_store_eq_self_iff]

end Atomic

/-! ## Lists -/

section Lists

variable {ι Attr α : Type} [DecidableEq ι] [DecidableEq Attr] [DecidableEq α]
  (number : α → Option Number) (obj : ι) (cur : Param ι Attr) (s : Attributes ι Attr α)

omit [DecidableEq ι] [DecidableEq Attr] in
theorem setRefused_eq_false_iff (val : List α) :
    setRefused obj s (cur, some val) = false ↔ cur.multiple = false ∨ cur.allowDuplicate = true ∨
      val.Nodup ∧ val.Disjoint ((s (obj, cur.attr)).getD []) := by
  simp only [setRefused, Bool.and_eq_false_iff, Bool.not_eq_false', checkDuplicate_eq_false_iff,
    or_assoc]

/-- A list is set right if it has nothing in common with what the edited object holds, unless the
attribute may hold duplicates or the list repeats a value. -/
theorem setsRight_iff (val : List α) :
    SetsRight obj cur val s ↔ cur.multiple = false ∨ cur.allowDuplicate = true ∨ ¬ val.Nodup ∨
      val.Disjoint ((s (obj, cur.attr)).getD []) := by
  have href := setRefused_eq_false_iff obj cur s val
  have hcall : setCall obj [(cur, some val)] s = finish true
      (if setRefused obj s (cur, some val) then (s, false)
        else (Function.update s cur.key (some val), true)) := rfl
  rw [SetsRight, hcall]
  by_cases h : setRefused obj s (cur, some val) = true
  · rw [if_pos h]
    rw [h] at href
    simp only [finish, Bool.true_eq_false, false_iff, false_implies, true_and, Bool.false_eq_true,
      imp_false] at href ⊢
    tauto
  · rw [if_neg h]
    rw [Bool.not_eq_true] at h
    simp only [finish, Function.update_self, implies_true, true_and, true_iff]
    have := href.mp h
    tauto

omit [DecidableEq α] in
theorem getD_ensure (a : Param ι Attr × List α) (k : ι × Attr) :
    (ensure s a k).getD [] = (s k).getD [] := by
  rw [ensure]
  by_cases h : k = a.1.key
  · rw [h, Function.update_self, Option.getD_some]
  · rw [Function.update_of_ne h]

/-- A list is added right unless it has a value in common with what is stored that the edited object
does not show. -/
theorem addsRight_iff (val : List α) :
    AddsRight obj cur val s ↔ cur.allowDuplicate = true ∨ ¬ ((s cur.key).getD []).Nodup ∨
      ¬ val.Nodup ∨ ¬ val.Disjoint ((s (obj, cur.attr)).getD []) ∨
      val.Disjoint ((s cur.key).getD []) := by
  have href : addRefused obj (ensure s (cur, val)) (cur, val) = false ↔
      cur.allowDuplicate = true ∨
        val.Nodup ∧ val.Disjoint ((s (obj, cur.attr)).getD []) := by
    simp only [addRefused, Bool.and_eq_false_iff, Bool.not_eq_false', checkDuplicate_eq_false_iff,
      getD_ensure]
  have hcall : addCall obj [(cur, val)] s = finish true
      (if addRefused obj (ensure s (cur, val)) (cur, val) then (ensure s (cur, val), false)
        else (push (ensure s (cur, val)) (cur, val), true)) := rfl
  rw [AddsRight, hcall]
  by_cases h : addRefused obj (ensure s (cur, val)) (cur, val) = true
  · rw [if_pos h]
    rw [h] at href
    simp only [finish, Bool.false_eq_true, false_implies, true_iff, Bool.true_eq_false,
      false_iff] at href ⊢
    tauto
  · rw [if_neg h, push_ensure]
    rw [Bool.not_eq_true] at h
    have hok := href.mp h
    simp only [finish, Function.update_self, true_and, forall_const, List.nodup_append']
    have hcomm : val.Disjoint ((s cur.key).getD []) ↔ _ := List.disjoint_comm
    cases hdup : cur.allowDuplicate with
    | true => simp
    | false =>
      rw [hdup] at hok
      simp only [Bool.false_eq_true, false_or, forall_const] at hok ⊢
      tauto

/-! ### Places -/

def holed (data : List α) (gone : List ℕ) : List (Option α) :=
  data.zipIdx.map fun x => if gone.contains x.2 then none else some x.1

omit [DecidableEq α] in
theorem length_holed (data : List α) (gone : List ℕ) :
    (holed data gone).length = data.length := by
  rw [holed, List.length_map, List.length_zipIdx]

omit [DecidableEq α] in
theorem getElem?_holed (data : List α) (gone : List ℕ) (p : ℕ) :
    (holed data gone)[p]? = data[p]?.map fun v => if gone.contains p then none else some v := by
  rw [holed, List.getElem?_map, List.getElem?_zipIdx]
  cases data[p]? <;> simp

omit [DecidableEq α] in
theorem holed_set (data : List α) (gone : List ℕ) (p : ℕ) :
    (holed data gone).set p none = holed data (p :: gone) := by
  refine List.ext_getElem? fun q => ?_
  rw [List.getElem?_set, getElem?_holed, getElem?_holed, length_holed]
  by_cases hpq : p = q
  · subst hpq
    by_cases hp : p < data.length
    · simp [hp]
    · simp [hp]
  · simp [hpq, Ne.symm hpq]

omit [DecidableEq α] in
theorem holed_nil (data : List α) : holed data [] = data.map some := by
  refine List.ext_getElem? fun q => ?_
  rw [getElem?_holed, List.getElem?_map]
  simp

omit [DecidableEq α] in
theorem reduceOption_holed (data : List α) (gone : List ℕ) :
    (holed data gone).reduceOption = rest data gone := by
  rw [holed, rest]
  induction data.zipIdx with
  | nil => rfl
  | cons x l ih =>
    rw [List.map_cons, List.filter_cons]
    by_cases hx : gone.contains x.2 = true
    · rw [if_pos hx, hx, List.reduceOption_cons_of_none, ih]
      rfl
    · rw [if_neg hx, List.reduceOption_cons_of_some, ih]
      rw [Bool.not_eq_true] at hx
      rw [hx]
      rfl

theorem findIdx?_holed (data : List α) (gone : List ℕ) (v : α) :
    ((holed data gone).findIdx? fun w => w = some v) = first data gone v := by
  have hat : ∀ q (hq : q < (holed data gone).length), (holed data gone)[q] = some v ↔
      (decide (data[q]? = some v) && !gone.contains q) = true := by
    intro q hq
    have hq' : q < data.length := length_holed data gone ▸ hq
    have hget := getElem?_holed data gone q
    rw [List.getElem?_eq_getElem hq, List.getElem?_eq_getElem hq', Option.map_some,
      Option.some_inj] at hget
    rw [hget, List.getElem?_eq_getElem hq']
    cases gone.contains q <;> simp
  refine Option.ext fun p => ?_
  rw [List.findIdx?_eq_some_iff_getElem, first, List.find?_range_eq_some, List.mem_range]
  constructor
  · rintro ⟨hp, hv, hbefore⟩
    refine ⟨(hat p hp).mp (of_decide_eq_true hv), length_holed data gone ▸ hp, fun q hq => ?_⟩
    rw [Bool.not_eq_true', ← Bool.not_eq_true, ← hat q (hq.trans hp)]
    exact fun h => hbefore q hq (decide_eq_true h)
  · rintro ⟨hv, hp, hbefore⟩
    have hp' : p < (holed data gone).length := (length_holed data gone).symm ▸ hp
    refine ⟨hp', decide_eq_true ((hat p hp').mpr hv), fun q hq h => ?_⟩
    have hq' := hbefore q hq
    rw [(hat q (hq.trans hp')).mp (of_decide_eq_true h)] at hq'
    cases hq'

/-- Arguments that are no numbers below one name the places that become holes, and one of them is
refused if not all name something. -/
theorem collect_holed (data : List α) {val : List α} (gone : List ℕ)
    (h : ∀ v ∈ val, FromOne number v) :
    match named number data val gone with
    | none => (Turns.collect (removeValue number) val (holed data gone)).2 ≠ []
    | some gone' =>
      Turns.collect (removeValue number) val (holed data gone) = (holed data gone', []) := by
  induction val generalizing gone with
  | nil => rfl
  | cons v val ih =>
    obtain ⟨hv, hval⟩ := List.forall_mem_cons.mp h
    -- A place that is named is the next hole.
    have hnext : ∀ p, place number (holed data gone) v = some (some p) →
        Turns.collect (removeValue number) (v :: val) (holed data gone) =
          Turns.collect (removeValue number) val (holed data (p :: gone)) := by
      intro p hp
      rw [Turns.collect, removeValue, hp]
      simp only [holed_set, List.nil_append]
    have hrefused : place number (holed data gone) v = none →
        (Turns.collect (removeValue number) (v :: val) (holed data gone)).2 ≠ [] := by
      intro hp
      rw [Turns.collect, removeValue, hp]
      simp
    rw [named]
    rw [FromOne] at hv
    cases hnum : number v with
    | none =>
      simp only
      cases hfirst : first data gone v with
      | none =>
        refine hrefused ?_
        rw [place, hnum]
        simp only [findIdx?_holed, hfirst, Option.map_none]
      | some p =>
        rw [hnext p (by rw [place, hnum]; simp only [findIdx?_holed, hfirst, Option.map_some])]
        exact ih (p :: gone) hval
    | some n =>
      rw [hnum] at hv
      cases n with
      | other above => exact hv.elim
      | int i =>
        simp only at hv ⊢
        by_cases hi : i ≤ data.length
        · rw [if_pos ⟨hv, hi⟩, hnext (i - 1).toNat]
          · exact ih _ hval
          · rw [place, hnum]
            simp only [length_holed, arrayIndex]
            rw [if_neg (by omega), if_neg (by omega)]
        · rw [if_neg fun hin => hi hin.2]
          refine hrefused ?_
          rw [place, hnum]
          simp only [length_holed]
          rw [if_pos (by omega)]

theorem named_eq_none {data val : List α} {gone : List ℕ} (h : ∃ v ∈ val, ¬ FromOne number v) :
    named number data val gone = none := by
  induction val generalizing gone with
  | nil => obtain ⟨v, hv, -⟩ := h; cases hv
  | cons v val ih =>
    rw [named]
    by_cases hv : FromOne number v
    · have hval : ∃ w ∈ val, ¬ FromOne number w := by
        obtain ⟨w, hw, hnot⟩ := h
        cases List.mem_cons.mp hw with
        | inl heq => exact absurd (heq ▸ hv) hnot
        | inr hmem => exact ⟨w, hmem, hnot⟩
      split
      · split_ifs
        · exact ih hval
        · rfl
      · rfl
      · split
        · exact ih hval
        · rfl
    · rw [FromOne] at hv
      split
      · rename_i i hnum
        rw [hnum] at hv
        rw [if_neg fun hi => hv hi.1]
      · rfl
      · rename_i hnum
        rw [hnum] at hv
        exact absurd trivial hv

/-- What is removed is right where all numbers are numbers from one on, and where an argument is
refused anyway. -/
theorem removesRight_iff (data val : List α) :
    RemovesRight number cur data val (Function.update s cur.key (some data)) ↔
      (∀ v ∈ val, FromOne number v) ∨ SomeRefused number data val := by
  have hcall : removeCall number [(cur, val)] (Function.update s cur.key (some data)) = finish true
      (Function.update s cur.key
        (keep cur (Turns.collect (removeValue number) val (data.map some)).1),
        (Turns.collect (removeValue number) val (data.map some)).2.isEmpty) := by
    simp only [removeCall, Turns.collect, removeArg, Function.update_self, List.append_nil,
      Function.update_idem]
    rfl
  rw [RemovesRight, hcall, ← collect_snd_ne_nil_iff, ← holed_nil]
  by_cases hone : ∀ v ∈ val, FromOne number v
  · rw [iff_true_intro hone, true_or, iff_true]
    have hcollect := collect_holed number data [] hone
    cases hnamed : named number data val [] with
    | none =>
      rw [hnamed] at hcollect
      simpa [finish] using hcollect
    | some gone =>
      rw [hnamed] at hcollect
      simp only at hcollect ⊢
      rw [hcollect]
      refine ⟨rfl, ?_⟩
      simp only [finish, Function.update_self, keep, reduceOption_holed]
      split_ifs with hempty
      · rw [Bool.and_eq_true, List.isEmpty_iff] at hempty
        exact hempty.2.symm
      · rfl
  · rw [named_eq_none number (by push Not at hone; exact hone)]
    simp [finish, hone]

/-- A list that is stored, with each of the three calls. -/
theorem lists_right_iff (data val : List α) :
    (SetsRight obj cur val s ↔ cur.multiple = false ∨ cur.allowDuplicate = true ∨ ¬ val.Nodup ∨
        val.Disjoint ((s (obj, cur.attr)).getD [])) ∧
      (AddsRight obj cur val s ↔ cur.allowDuplicate = true ∨ ¬ ((s cur.key).getD []).Nodup ∨
        ¬ val.Nodup ∨ ¬ val.Disjoint ((s (obj, cur.attr)).getD []) ∨
        val.Disjoint ((s cur.key).getD [])) ∧
      (RemovesRight number cur data val (Function.update s cur.key (some data)) ↔
        (∀ v ∈ val, FromOne number v) ∨ SomeRefused number data val) :=
  ⟨setsRight_iff obj cur s val, addsRight_iff obj cur s val,
    removesRight_iff number cur s data val⟩

end Lists

/-! ## Calls that are not right -/

/-- Two attributes of one object. -/
def ports : Param Unit Bool := ⟨(), true, true, false, false⟩

def names : Param Unit Bool := ⟨(), false, true, false, false⟩

def stored : Attributes Unit Bool String :=
  Function.update (fun _ => none) ports.key (some ["eth0", "eth1"])

def zeroOnly (t : String) : Option Number := if t = "0" then some (.int 0) else none

/-- A port is added for good although the name after it is repeated. -/
theorem not_atomic : ¬ ∀ (named : List (Param Unit Bool × List String))
    (s : Attributes Unit Bool String), (addCall () named s).Atomic s := by
  intro h
  have hstore := congrFun (h [(ports, ["eth2"]), (names, ["a", "a"])] stored (by decide)).1 ports.key
  exact absurd hstore (by decide)

/-- A list is not set for the value that stays, and the last value is removed for the number
zero. -/
theorem not_right : ¬ SetsRight () ports ["eth0", "eth2"] stored ∧
    ¬ RemovesRight zeroOnly ports ["eth0", "eth1"] ["0"] stored := by
  constructor
  · intro h
    exact absurd (h.2 (by decide)) (by decide)
  · intro h
    exact absurd (show (removeCall zeroOnly [(ports, ["0"])] stored).ok = false from h) (by decide)

end OpenWrt.Cli.ObjectEditor
