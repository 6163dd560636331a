/-
# Decimal numerals

A number is written in one way by its decimal digits without leading zeros. Read from
the left, a digit string of that form names the number it is the numeral of.
-/

import Mathlib.Data.List.Induction

namespace OpenWrt.Lib.Decimal

/-- A nonempty string of digits that does not start with a superfluous zero. -/
structure Numeral (ds : List Char) : Prop where
  nonempty : ds ≠ []
  digits : ∀ c ∈ ds, c.isDigit
  leading : ds.head? = some '0' → ds = ['0']

/-- A digit is the one that names its value. -/
theorem digitChar_of_isDigit {c : Char} (h : c.isDigit) :
    c.toNat - '0'.toNat < 10 ∧ Nat.digitChar (c.toNat - '0'.toNat) = c := by
  have hlow : 48 ≤ c.toNat := by
    simp only [Char.isDigit, Bool.and_eq_true, decide_eq_true_eq] at h
    exact h.1
  have hhigh : c.toNat ≤ 57 := by
    simp only [Char.isDigit, Bool.and_eq_true, decide_eq_true_eq] at h
    exact h.2
  have hzero : '0'.toNat = 48 := rfl
  have hlt : c.toNat - '0'.toNat < 10 := by omega
  refine ⟨hlt, ?_⟩
  apply Char.toNat_inj.mp
  rw [Nat.toNat_digitChar_of_lt_ten hlt]
  omega

theorem ofDigitChars_concat (ds : List Char) (c : Char) :
    Nat.ofDigitChars 10 (ds ++ [c]) 0
      = 10 * Nat.ofDigitChars 10 ds 0 + (c.toNat - '0'.toNat) := by
  rw [Nat.ofDigitChars_append, Nat.ofDigitChars_cons, Nat.ofDigitChars_nil]

theorem Numeral.init {ds : List Char} {c : Char} (h : Numeral (ds ++ [c])) (hds : ds ≠ []) :
    Numeral ds ∧ ds.head? ≠ some '0' := by
  have hhead : ds.head? ≠ some '0' := by
    intro hzero
    have hall := h.leading (by rw [List.head?_append, hzero, Option.some_or])
    cases ds with
    | nil => exact hds rfl
    | cons d rest => simp at hall
  exact ⟨⟨hds, fun x hx => h.digits x (List.mem_append_left _ hx), fun hz => absurd hz hhead⟩,
    hhead⟩

/-- A digit string that starts with another digit than zero has a positive value. -/
theorem ofDigitChars_pos {ds : List Char} (h : Numeral ds) (hhead : ds.head? ≠ some '0') :
    0 < Nat.ofDigitChars 10 ds 0 := by
  cases ds with
  | nil => exact absurd rfl h.nonempty
  | cons c rest =>
    have hdigit := digitChar_of_isDigit (h.digits c List.mem_cons_self)
    have hc : 0 < c.toNat - '0'.toNat := by
      refine Nat.pos_of_ne_zero fun hzero => hhead ?_
      rw [hzero] at hdigit
      rw [List.head?_cons, ← hdigit.2]
      rfl
    rw [Nat.ofDigitChars_cons, Nat.ofDigitChars_eq_ofDigitChars_zero]
    have hpow : 0 < 10 ^ rest.length := Nat.pow_pos (by decide)
    have hmul := Nat.mul_pos hpow hc
    rw [Nat.mul_zero, Nat.zero_add]
    exact Nat.add_pos_left hmul _

/-- Reading a numeral and writing the number gives it back. -/
theorem toDigits_ofDigitChars {ds : List Char} (h : Numeral ds) :
    Nat.toDigits 10 (Nat.ofDigitChars 10 ds 0) = ds := by
  induction ds using List.reverseRecOn with
  | nil => exact absurd rfl h.nonempty
  | append_singleton ds c ih =>
    have hc := digitChar_of_isDigit (h.digits c (List.mem_append_right _ List.mem_cons_self))
    rw [ofDigitChars_concat]
    by_cases hds : ds = []
    · subst hds
      rw [Nat.ofDigitChars_nil, Nat.mul_zero, Nat.zero_add, Nat.toDigits_of_lt_base hc.1, hc.2]
      rfl
    · obtain ⟨hinit, hhead⟩ := h.init hds
      rw [← Nat.toDigits_append_toDigits (by decide) (ofDigitChars_pos hinit hhead) hc.1,
        ih hinit, Nat.toDigits_of_lt_base hc.1, hc.2]

theorem numeral_toDigits (n : ℕ) : Numeral (Nat.toDigits 10 n) where
  nonempty := Nat.toDigits_ne_nil
  digits _ hc := Nat.isDigit_of_mem_toDigits (by decide) (by decide) hc
  leading hhead := by
    induction n using Nat.strongRecOn with
    | ind n ih =>
      by_cases hn : n < 10
      · rw [Nat.toDigits_of_lt_base hn] at hhead ⊢
        simpa using hhead
      · have hne : (Nat.toDigits 10 (n / 10)).head? ≠ none := by
          rw [Ne, List.head?_eq_none_iff]
          exact Nat.toDigits_ne_nil
        rw [Nat.toDigits_of_base_le (by decide) (Nat.le_of_not_lt hn), List.head?_append,
          Option.or_of_isSome (Option.isSome_iff_ne_none.mpr hne)] at hhead
        have hzero := congrArg (fun ds => Nat.ofDigitChars 10 ds 0)
          (ih (n / 10) (by omega) hhead)
        rw [Nat.ofDigitChars_ten_toDigits] at hzero
        have : n / 10 = 0 := hzero
        omega

end OpenWrt.Lib.Decimal
