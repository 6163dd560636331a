/-
# Skipping excluded numbers

An ascending list excludes numbers, and one pass over it moves a number past those that
are at most what it has become. The pass takes `0, 1, 2, …` to the numbers that are not
excluded, in their order.
-/

import Mathlib.Data.List.Basic
import Mathlib.Order.Monotone.Basic

namespace OpenWrt.Lib

/-- Move a number past the excluded ones in one pass. -/
def skip (excluded : List ℕ) (n : ℕ) : ℕ :=
  excluded.foldl (fun n bad => if bad ≤ n then n + 1 else n) n

theorem skip_cons (bad : ℕ) (excluded : List ℕ) (n : ℕ) :
    skip (bad :: excluded) n = skip excluded (if bad ≤ n then n + 1 else n) := rfl

theorem skip_strictMono (excluded : List ℕ) : StrictMono (skip excluded) := by
  induction excluded with
  | nil => exact fun _ _ hlt => hlt
  | cons bad excluded ih =>
    intro a b hlt
    rw [skip_cons, skip_cons]
    apply ih
    split_ifs <;> omega

theorem le_skip (excluded : List ℕ) (n : ℕ) : n ≤ skip excluded n := by
  induction excluded generalizing n with
  | nil => exact Nat.le_refl n
  | cons bad excluded ih =>
    rw [skip_cons]
    have := ih (if bad ≤ n then n + 1 else n)
    split_ifs at this ⊢ <;> omega

theorem skip_eq_self {excluded : List ℕ} {n : ℕ} (hlt : ∀ bad ∈ excluded, n < bad) :
    skip excluded n = n := by
  induction excluded with
  | nil => rfl
  | cons bad excluded ih =>
    have hbad := hlt bad List.mem_cons_self
    rw [skip_cons, if_neg (by omega)]
    exact ih fun other hmem => hlt other (List.mem_cons_of_mem _ hmem)

section Ascending

variable {excluded : List ℕ}

theorem skip_notMem (hasc : excluded.Pairwise (· < ·)) (n : ℕ) : skip excluded n ∉ excluded := by
  induction excluded generalizing n with
  | nil => exact List.not_mem_nil
  | cons bad excluded ih =>
    obtain ⟨hbelow, hrest⟩ := List.pairwise_cons.mp hasc
    rw [skip_cons, List.mem_cons, not_or]
    refine ⟨?_, ih hrest _⟩
    by_cases hle : bad ≤ n
    · have := le_skip excluded (n + 1)
      rw [if_pos hle]
      omega
    · rw [if_neg hle, skip_eq_self fun other hmem => Nat.lt_trans (by omega) (hbelow other hmem)]
      omega

theorem exists_skip_eq (hasc : excluded.Pairwise (· < ·)) {p : ℕ} (hp : p ∉ excluded) :
    ∃ n, skip excluded n = p := by
  induction excluded with
  | nil => exact ⟨p, rfl⟩
  | cons bad excluded ih =>
    obtain ⟨hbelow, hrest⟩ := List.pairwise_cons.mp hasc
    rw [List.mem_cons, not_or] at hp
    obtain ⟨m, rfl⟩ := ih hrest hp.2
    -- what is reached past the rest was moved past the first, or is below it
    cases Nat.lt_trichotomy m bad with
    | inl hlt => exact ⟨m, by rw [skip_cons, if_neg (by omega)]⟩
    | inr hge =>
      cases hge with
      | inl heq => exact absurd (heq ▸ skip_eq_self (heq ▸ hbelow)) hp.1
      | inr hgt =>
        refine ⟨m - 1, ?_⟩
        rw [skip_cons, if_pos (by omega), Nat.sub_add_cancel (by omega)]

/-- An ascending list between two bounds. -/
theorem length_le_of_ascending (hasc : excluded.Pairwise (· < ·)) {low high : ℕ}
    (hlow : ∀ bad ∈ excluded, low ≤ bad) (hhigh : ∀ bad ∈ excluded, bad < high) :
    excluded.length ≤ high - low := by
  induction excluded generalizing low with
  | nil => exact Nat.zero_le _
  | cons bad excluded ih =>
    obtain ⟨hbelow, hrest⟩ := List.pairwise_cons.mp hasc
    have hbad := hlow bad List.mem_cons_self
    have hend := hhigh bad List.mem_cons_self
    have habove : ∀ other ∈ excluded, bad + 1 ≤ other := hbelow
    have := ih hrest habove fun other hmem => hhigh other (List.mem_cons_of_mem _ hmem)
    rw [List.length_cons]
    omega

/-- With all excluded numbers below a bound, each of them takes one number from those that
stay below it. -/
theorem skip_lt_iff (hasc : excluded.Pairwise (· < ·)) {bound : ℕ}
    (hbound : ∀ bad ∈ excluded, bad < bound) (n : ℕ) :
    skip excluded n < bound ↔ n < bound - excluded.length := by
  induction excluded generalizing n with
  | nil => rfl
  | cons bad excluded ih =>
    obtain ⟨hbelow, hrest⟩ := List.pairwise_cons.mp hasc
    have hend := hbound bad List.mem_cons_self
    have hothers : ∀ other ∈ excluded, other < bound := fun other hmem =>
      hbound other (List.mem_cons_of_mem _ hmem)
    have hlength : excluded.length ≤ bound - (bad + 1) :=
      length_le_of_ascending hrest hbelow hothers
    rw [skip_cons, ih hrest hothers, List.length_cons]
    split_ifs <;> omega

end Ascending

end OpenWrt.Lib
