/-
# The common prefix of two lists

Its length is what may be kept of one list when it is overwritten with the other: the elements of
the one up to a mark and those of the other behind the mark are the other list exactly if the mark
is within the common prefix.
-/

import Mathlib.Data.List.Basic

namespace OpenWrt.Lib

variable {α : Type*} [DecidableEq α]

/-- The length of the longest common prefix. -/
def commonLength : List α → List α → ℕ
  | a :: one, b :: two => if a = b then commonLength one two + 1 else 0
  | _, _ => 0

theorem commonLength_nil_left (two : List α) : commonLength [] two = 0 := by
  cases two <;> rfl

theorem commonLength_nil_right (one : List α) : commonLength one [] = 0 := by
  cases one <;> rfl

theorem commonLength_cons (a b : α) (one two : List α) :
    commonLength (a :: one) (b :: two) = if a = b then commonLength one two + 1 else 0 := rfl

/-- A number is within the common prefix if that many elements are the same in both lists. -/
theorem le_commonLength_iff {n : ℕ} {one two : List α} :
    n ≤ commonLength one two ↔ n ≤ one.length ∧ n ≤ two.length ∧ one.take n = two.take n := by
  induction n generalizing one two with
  | zero => simp
  | succ n ih =>
    cases one with
    | nil => simp [commonLength_nil_left]
    | cons a one =>
      cases two with
      | nil => simp [commonLength_nil_right]
      | cons b two =>
        rw [commonLength_cons, List.take_succ_cons, List.take_succ_cons, List.length_cons,
          List.length_cons, List.cons.injEq]
        split
        case isTrue hab =>
          rw [Nat.succ_le_succ_iff, Nat.succ_le_succ_iff, Nat.succ_le_succ_iff, ih]
          constructor
          · rintro ⟨hone, htwo, htake⟩
            exact ⟨hone, htwo, hab, htake⟩
          · rintro ⟨hone, htwo, -, htake⟩
            exact ⟨hone, htwo, htake⟩
        case isFalse hab =>
          constructor
          · intro h
            cases h
          · rintro ⟨-, -, heq, -⟩
            exact absurd heq hab

theorem commonLength_le_left (one two : List α) : commonLength one two ≤ one.length :=
  (le_commonLength_iff.mp (Nat.le_refl _)).1

theorem commonLength_self (one : List α) : commonLength one one = one.length :=
  Nat.le_antisymm (commonLength_le_left one one)
    (le_commonLength_iff.mpr ⟨Nat.le_refl _, Nat.le_refl _, rfl⟩)

theorem take_append_drop_of_le {n : ℕ} {one two : List α} (h : n ≤ commonLength one two) :
    one.take n ++ two.drop n = two := by
  rw [(le_commonLength_iff.mp h).2.2, List.take_append_drop]

end OpenWrt.Lib
