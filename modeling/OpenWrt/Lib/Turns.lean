/-
# Arguments taken in turn

A list of arguments is applied to a state one after the other. A run stops at the first argument
that is refused, and a collection goes on and keeps what each argument leaves. Steps that only move
one way in an order come back to where they were only if none of them moved.
-/

import Mathlib.Data.List.Basic
import Mathlib.Order.Defs.PartialOrder

namespace OpenWrt.Lib.Turns

variable {S A E : Type}

section Run

variable (enter : S → A → S) (refused : S → A → Bool) (apply : S → A → S)

/-- An argument is entered, and then it is refused or applied. -/
def run : List A → S → S × Bool
  | [], s => (s, true)
  | a :: as, s =>
    if refused (enter s a) a then (enter s a, false) else run as (apply (enter s a) a)

/-- The state after arguments that are not refused. -/
def after (as : List A) (s : S) : S := as.foldl (fun s a => apply (enter s a) a) s

def Accepted (as : List A) (s : S) : Prop :=
  ∀ pre a post, as = pre ++ a :: post → refused (enter (after enter apply pre s) a) a = false

theorem accepted_nil (s : S) : Accepted enter refused apply [] s := by
  intro pre a post h
  exact absurd h.symm (by simp)

theorem accepted_cons {a : A} {as : List A} {s : S} :
    Accepted enter refused apply (a :: as) s ↔
      refused (enter s a) a = false ∧ Accepted enter refused apply as (apply (enter s a) a) := by
  constructor
  · intro h
    exact ⟨h [] a as rfl, fun pre b post has => h (a :: pre) b post (by rw [has, List.cons_append])⟩
  · rintro ⟨ha, has⟩ pre b post h
    cases pre with
    | nil =>
      obtain ⟨rfl, rfl⟩ := List.cons.inj h
      exact ha
    | cons c pre =>
      obtain ⟨rfl, rfl⟩ := List.cons.inj h
      exact has pre b post rfl

theorem run_of_refused {pre post : List A} {a : A} {s : S}
    (h : Accepted enter refused apply pre s)
    (ha : refused (enter (after enter apply pre s) a) a = true) :
    run enter refused apply (pre ++ a :: post) s = (enter (after enter apply pre s) a, false) := by
  induction pre generalizing s with
  | nil => exact if_pos ha
  | cons b pre ih =>
    obtain ⟨hb, hpre⟩ := (accepted_cons enter refused apply).mp h
    rw [List.cons_append, run, if_neg (by rw [hb]; exact Bool.false_ne_true), ih hpre ha]
    rfl

theorem exists_refused {as : List A} {s : S} (h : (run enter refused apply as s).2 = false) :
    ∃ pre a post, as = pre ++ a :: post ∧ Accepted enter refused apply pre s ∧
      refused (enter (after enter apply pre s) a) a = true := by
  induction as generalizing s with
  | nil => cases h
  | cons a as ih =>
    rw [run] at h
    by_cases ha : refused (enter s a) a = true
    · exact ⟨[], a, as, rfl, accepted_nil enter refused apply s, ha⟩
    · rw [if_neg ha] at h
      obtain ⟨pre, b, post, rfl, hpre, hb⟩ := ih h
      exact ⟨a :: pre, b, post, rfl,
        (accepted_cons enter refused apply).mpr ⟨Bool.eq_false_iff.mpr ha, hpre⟩, hb⟩

/-- What holds of the state in which every run stops. -/
theorem run_stops_iff (P : S → Prop) {as : List A} {s : S} :
    ((run enter refused apply as s).2 = false → P (run enter refused apply as s).1) ↔
      ∀ pre a post, as = pre ++ a :: post → Accepted enter refused apply pre s →
        refused (enter (after enter apply pre s) a) a = true →
          P (enter (after enter apply pre s) a) := by
  constructor
  · rintro h pre a post rfl hpre ha
    rw [run_of_refused enter refused apply hpre ha] at h
    exact h rfl
  · intro h hstop
    obtain ⟨pre, a, post, rfl, hpre, ha⟩ := exists_refused enter refused apply hstop
    rw [run_of_refused enter refused apply hpre ha]
    exact h pre a post rfl hpre ha

end Run

section Collect

variable (step : S → A → S × List E)

/-- Every argument is applied, and what it leaves is kept. -/
def collect : List A → S → S × List E
  | [], s => (s, [])
  | a :: as, s =>
    ((collect as (step s a).1).1, (step s a).2 ++ (collect as (step s a).1).2)

theorem collect_fst (as : List A) (s : S) :
    (collect step as s).1 = as.foldl (fun s a => (step s a).1) s := by
  induction as generalizing s with
  | nil => rfl
  | cons a as ih => exact ih _

/-- Nothing is left if no argument leaves something at its turn. -/
theorem collect_snd_eq_nil_iff {as : List A} {s : S} :
    (collect step as s).2 = [] ↔ ∀ pre a post, as = pre ++ a :: post →
      (step (pre.foldl (fun s a => (step s a).1) s) a).2 = [] := by
  induction as generalizing s with
  | nil =>
    refine ⟨fun _ pre a post h => absurd h.symm (by simp), fun _ => rfl⟩
  | cons a as ih =>
    rw [collect, List.append_eq_nil_iff, ih]
    constructor
    · rintro ⟨ha, has⟩ pre b post h
      cases pre with
      | nil =>
        obtain ⟨rfl, rfl⟩ := List.cons.inj h
        exact ha
      | cons c pre =>
        obtain ⟨rfl, rfl⟩ := List.cons.inj h
        exact has pre b post rfl
    · intro h
      exact ⟨h [] a as rfl,
        fun pre b post has => h (a :: pre) b post (by rw [has, List.cons_append])⟩

end Collect

section Monotone

variable {β : Type} [PartialOrder β] {size : S → β} {step : S → A → S}

theorem size_le_foldl (hle : ∀ s a, size s ≤ size (step s a)) (as : List A) (s : S) :
    size s ≤ size (as.foldl step s) := by
  induction as generalizing s with
  | nil => exact le_refl _
  | cons a as ih => exact le_trans (hle s a) (ih _)

/-- Steps that make nothing smaller come back to the same size only if none of them does anything. -/
theorem size_foldl_eq_iff (hle : ∀ s a, size s ≤ size (step s a))
    (heq : ∀ s a, size (step s a) = size s → step s a = s) {as : List A} {s : S} :
    size (as.foldl step s) = size s ↔ ∀ a ∈ as, step s a = s := by
  induction as with
  | nil => exact ⟨fun _ a ha => (by cases ha), fun _ => rfl⟩
  | cons a as ih =>
    rw [List.foldl_cons, List.forall_mem_cons]
    constructor
    · intro h
      have ha : step s a = s :=
        heq s a (le_antisymm (h ▸ size_le_foldl hle as (step s a)) (hle s a))
      rw [ha] at h
      exact ⟨ha, ih.mp h⟩
    · rintro ⟨ha, has⟩
      rw [ha]
      exact ih.mpr has

theorem foldl_eq_self {as : List A} {s : S} (h : ∀ a ∈ as, step s a = s) :
    as.foldl step s = s := by
  induction as with
  | nil => rfl
  | cons a as ih =>
    rw [List.foldl_cons, h a List.mem_cons_self]
    exact ih fun b hb => h b (List.mem_cons_of_mem _ hb)

theorem foldl_eq_self_iff (hle : ∀ s a, size s ≤ size (step s a))
    (heq : ∀ s a, size (step s a) = size s → step s a = s) {as : List A} {s : S} :
    as.foldl step s = s ↔ ∀ a ∈ as, step s a = s := by
  refine ⟨fun h => (size_foldl_eq_iff hle heq).mp (congrArg size h), foldl_eq_self⟩

end Monotone

end OpenWrt.Lib.Turns
