/-
# Bits under a mask

The set positions of a mask, counted from below, number the bits of a smaller
number: depositing a number under a mask puts its `k`-th bit at the `k`-th set
position. This module says what the result of such a deposit is, bit by bit, and
that depositing is a bijection between the numbers below a power of two and the
values that have no bit outside the mask.

It also has the step of the usual loop that counts the bits of a number by
clearing the lowest one.
-/

import Mathlib.Data.Nat.Count
import Mathlib.Data.Int.Bitwise

namespace OpenWrt.Lib

universe u

/-! ## Clearing the lowest set bit -/

/-- `n & (n - 1)` clears exactly one bit of a positive number. -/
theorem exists_testBit_and_sub_one {n : ℕ} (hn : 0 < n) :
    ∃ low, n.testBit low = true ∧
      ∀ i, (n &&& (n - 1)).testBit i = (n.testBit i && decide (i ≠ low)) := by
  induction n using Nat.strongRecOn with
  | ind n ih =>
    rcases Nat.even_or_odd' n with ⟨k, rfl | rfl⟩
    · obtain ⟨low, hlow, hbits⟩ := ih k (by omega) (by omega)
      have hpred : 2 * k - 1 = 2 * (k - 1) + 1 := by omega
      refine ⟨low + 1, by rw [Nat.testBit_succ]; simpa using hlow, fun i => ?_⟩
      cases i with
      | zero => simp
      | succ i =>
        have hhalf : (2 * (k - 1) + 1) / 2 = k - 1 := by omega
        have := hbits i
        rw [Nat.testBit_and] at this
        rw [hpred, Nat.testBit_and, Nat.testBit_succ, Nat.testBit_succ, hhalf,
          Nat.mul_div_cancel_left _ (by decide), this]
        simp
    · refine ⟨0, by simp, fun i => ?_⟩
      cases i with
      | zero => simp
      | succ i =>
        have hhalf : (2 * k + 1) / 2 = k := by omega
        rw [Nat.testBit_and, Nat.testBit_succ, Nat.testBit_succ, hhalf,
          Nat.add_sub_cancel, Nat.mul_div_cancel_left _ (by decide)]
        simp

/-- Subtracting one sets the bits below the lowest set bit and clears that one. -/
theorem exists_testBit_sub_one {n : ℕ} (hn : 0 < n) :
    ∃ low, n.testBit low = true ∧ (∀ i < low, n.testBit i = false) ∧
      ∀ i, (n - 1).testBit i = if i < low then true else if i = low then false else n.testBit i := by
  induction n using Nat.strongRecOn with
  | ind n ih =>
    rcases Nat.even_or_odd' n with ⟨k, rfl | rfl⟩
    · obtain ⟨low, hlow, hbelow, hbits⟩ := ih k (by omega) (by omega)
      have hpred : 2 * k - 1 = 2 * (k - 1) + 1 := by omega
      have hhalf : (2 * (k - 1) + 1) / 2 = k - 1 := by omega
      refine ⟨low + 1, by rw [Nat.testBit_succ]; simpa using hlow, fun i hi => ?_, fun i => ?_⟩
      · cases i with
        | zero => simp
        | succ i =>
          rw [Nat.testBit_succ, Nat.mul_div_cancel_left _ (by decide)]
          exact hbelow i (by omega)
      · cases i with
        | zero => simp [hpred]
        | succ i =>
          rw [hpred, Nat.testBit_succ, Nat.testBit_succ, hhalf,
            Nat.mul_div_cancel_left _ (by decide), hbits i]
          simp
    · have hhalf : (2 * k + 1) / 2 = k := by omega
      refine ⟨0, by simp, fun i hi => absurd hi (Nat.not_lt_zero i), fun i => ?_⟩
      cases i with
      | zero => simp
      | succ i =>
        rw [Nat.add_sub_cancel, Nat.testBit_succ, Nat.testBit_succ, hhalf,
          Nat.mul_div_cancel_left _ (by decide)]
        simp

/-- Removing one position from a predicate lowers its count by one. -/
theorem count_eq_succ_of_erase {p q : ℕ → Prop} [DecidablePred p] [DecidablePred q]
    {low n : ℕ} (hlow : p low) (hn : low < n) (h : ∀ i, q i ↔ p i ∧ i ≠ low) :
    Nat.count p n = Nat.count q n + 1 := by
  induction n with
  | zero => omega
  | succ n ih =>
    rw [Nat.count_succ, Nat.count_succ]
    by_cases hlast : low = n
    · subst hlast
      have hsame : Nat.count p low = Nat.count q low := by
        refine Nat.le_antisymm (Nat.count_mono_left fun k hk hp => ?_)
          (Nat.count_mono_left fun k _ hq => ((h k).mp hq).1)
        exact (h k).mpr ⟨hp, Nat.ne_of_lt hk⟩
      simp [hlow, h low, hsame]
    · have hiff : p n ↔ q n := by
        rw [h n]
        exact ⟨fun hp => ⟨hp, fun heq => hlast heq.symm⟩, And.left⟩
      rw [ih (by omega)]
      by_cases hp : p n
      · simp [hp, hiff.mp hp]
      · have hq : ¬ q n := fun hq => hp (hiff.mpr hq)
        simp [hp, hq]

/-- The low bits are those of the remainder, also below zero. -/
theorem testBit_emod_two_pow (x : Int) {k r : ℕ} (hk : k < r) :
    (x % 2 ^ r).testBit k = x.testBit k := by
  cases x with
  | ofNat m =>
    have hcast : Int.ofNat m % 2 ^ r = ((m % 2 ^ r : ℕ) : Int) := by push_cast; rfl
    rw [hcast]
    change (m % 2 ^ r).testBit k = m.testBit k
    rw [Nat.testBit_mod_two_pow, decide_eq_true hk, Bool.true_and]
  | negSucc m =>
    have hlt : m % 2 ^ r < 2 ^ r := Nat.mod_lt _ (Nat.two_pow_pos r)
    have hcast : Int.negSucc m % 2 ^ r = ((2 ^ r - (m % 2 ^ r + 1) : ℕ) : Int) := by
      rw [Int.negSucc_emod m (Int.pow_pos (by decide)), Nat.cast_sub hlt]
      push_cast
      omega
    rw [hcast]
    change (2 ^ r - (m % 2 ^ r + 1)).testBit k = !m.testBit k
    rw [Nat.testBit_two_pow_sub_succ hlt, Nat.testBit_mod_two_pow, decide_eq_true hk,
      Bool.true_and, Bool.true_and]

/-! ## Deposits -/

section Deposit

variable {w : ℕ} {mask value : BitVec w}

/-- The number of set positions of the mask below a position. -/
def rank (mask : BitVec w) (position : ℕ) : ℕ :=
  Nat.count (fun i => mask.getLsbD i = true) position

theorem rank_succ (position : ℕ) :
    rank mask (position + 1) =
      rank mask position + if mask.getLsbD position then 1 else 0 := by
  unfold rank
  rw [Nat.count_succ]

/-- A set position has a rank below the number of set positions up to any later
one. -/
theorem rank_lt {i n : ℕ} (hbit : mask.getLsbD i = true) (hi : i < n) :
    rank mask i < rank mask n :=
  Nat.count_strict_mono (p := fun j => mask.getLsbD j = true) hbit hi

theorem rank_le (mask : BitVec w) (position : ℕ) : rank mask position ≤ position :=
  Nat.count_le _

theorem rank_eq_of_clear {a b : ℕ} (hab : a ≤ b)
    (hclear : ∀ i, a ≤ i → i < b → mask.getLsbD i = false) : rank mask b = rank mask a := by
  induction b, hab using Nat.le_induction with
  | base => rfl
  | succ b hb ih =>
    rw [rank_succ, hclear b hb (Nat.lt_succ_self b), ih fun i hi hib => hclear i hi (by omega)]
    rfl

/-- Every rank is taken by a set position. -/
theorem exists_rank_eq {k n : ℕ} (hk : k < rank mask n) :
    ∃ i < n, mask.getLsbD i = true ∧ rank mask i = k := by
  induction n with
  | zero => simp [rank] at hk
  | succ n ih =>
    by_cases hbelow : k < rank mask n
    · obtain ⟨i, hi, hbit, hrank⟩ := ih hbelow
      exact ⟨i, by omega, hbit, hrank⟩
    · rw [rank_succ] at hk
      split at hk
      case isTrue hbit => exact ⟨n, by omega, hbit, by omega⟩
      case isFalse => omega

def IsDeposit (mask : BitVec w) (number : Int) (value : BitVec w) : Prop :=
  ∀ i < w, value.getLsbD i = (mask.getLsbD i && number.testBit (rank mask i))

theorem IsDeposit.and_not_eq_zero {number : Int} (h : IsDeposit mask number value) :
    value &&& ~~~mask = 0 := by
  apply BitVec.eq_of_getLsbD_eq
  intro i hi
  rw [BitVec.getLsbD_and, h i hi, BitVec.getLsbD_not]
  cases mask.getLsbD i <;> simp

theorem IsDeposit.and_eq_self {number : Int} (h : IsDeposit mask number value) :
    value &&& mask = value := by
  apply BitVec.eq_of_getLsbD_eq
  intro i hi
  rw [BitVec.getLsbD_and, h i hi]
  cases mask.getLsbD i <;> simp

theorem IsDeposit.unique {number : Int} {value' : BitVec w} (h : IsDeposit mask number value)
    (h' : IsDeposit mask number value') : value = value' := by
  apply BitVec.eq_of_getLsbD_eq
  intro i hi
  rw [h i hi, h' i hi]

/-- The bits of a value at the set positions below `n`, gathered into a number. -/
theorem exists_gather (mask value : BitVec w) (n : ℕ) :
    ∃ number < 2 ^ rank mask n,
      ∀ i < n, mask.getLsbD i = true → number.testBit (rank mask i) = value.getLsbD i := by
  induction n with
  | zero => exact ⟨0, by simp [rank], fun i hi => by omega⟩
  | succ n ih =>
    obtain ⟨number, hlt, hbits⟩ := ih
    rw [rank_succ]
    by_cases hbit : mask.getLsbD n = true
    · -- the new position is the next bit of the number
      refine ⟨2 ^ rank mask n * (value.getLsbD n).toNat + number, ?_, fun i hi hmask => ?_⟩
      · simp only [hbit, if_true, Nat.pow_succ]
        have := Bool.toNat_le (value.getLsbD n)
        have := Nat.mul_le_mul_left (2 ^ rank mask n) this
        omega
      · rw [Nat.testBit_two_pow_mul_add _ hlt]
        by_cases hlast : i = n
        · subst hlast
          cases hvalue : value.getLsbD i <;> simp
        · have hrank := rank_lt hmask (show i < n by omega)
          rw [if_pos hrank]
          exact hbits i (by omega) hmask
    · refine ⟨number, by simpa [hbit] using hlt, fun i hi hmask => ?_⟩
      have hne : i ≠ n := by
        intro heq
        exact hbit (heq ▸ hmask)
      exact hbits i (by omega) hmask

/-- Every value within the mask is the deposit of a number below two to the
number of set positions. -/
theorem exists_isDeposit (h : value &&& ~~~mask = 0) :
    ∃ number < 2 ^ rank mask w, IsDeposit mask (number : ℕ) value := by
  obtain ⟨number, hlt, hbits⟩ := exists_gather mask value w
  refine ⟨number, hlt, fun i hi => ?_⟩
  by_cases hbit : mask.getLsbD i = true
  · rw [hbit, Bool.true_and]
    exact (hbits i hi hbit).symm
  · have hzero : (value &&& ~~~mask).getLsbD i = false := by
      rw [h]
      simp
    rw [Bool.not_eq_true] at hbit
    rw [BitVec.getLsbD_and, BitVec.getLsbD_not, hbit, decide_eq_true hi, Bool.not_false,
      Bool.and_self, Bool.and_true] at hzero
    rw [hbit, Bool.false_and]
    exact hzero

theorem isDeposit_emod {a : Int} :
    IsDeposit mask (a % 2 ^ rank mask w) value ↔ IsDeposit mask a value := by
  refine forall₂_congr fun i hi => ?_
  by_cases hbit : mask.getLsbD i = true
  · rw [testBit_emod_two_pow a (rank_lt hbit hi)]
  · rw [Bool.not_eq_true] at hbit
    rw [hbit, Bool.false_and, Bool.false_and]

/-- Two numbers below that bound with the same deposit are equal. -/
theorem IsDeposit.injective {a b : ℕ} (ha : IsDeposit mask a value)
    (hb : IsDeposit mask b value) (hlta : a < 2 ^ rank mask w) (hltb : b < 2 ^ rank mask w) :
    a = b := by
  apply Nat.eq_of_testBit_eq
  intro k
  by_cases hk : k < rank mask w
  · obtain ⟨i, hi, hbit, hrank⟩ := exists_rank_eq hk
    have hboth := (ha i hi).symm.trans (hb i hi)
    rw [hbit, hrank, Bool.true_and, Bool.true_and] at hboth
    exact hboth
  · have hpow : 2 ^ rank mask w ≤ 2 ^ k := Nat.pow_le_pow_right (by decide) (by omega)
    rw [Nat.testBit_lt_two_pow (by omega), Nat.testBit_lt_two_pow (by omega)]

/-- Two numbers with the same deposit have the same remainder. -/
theorem IsDeposit.emod_eq {a b : Int} (ha : IsDeposit mask a value)
    (hb : IsDeposit mask b value) : a % 2 ^ rank mask w = b % 2 ^ rank mask w := by
  have hpos : (0 : Int) < 2 ^ rank mask w := Int.pow_pos (by decide)
  have hnat : ∀ x : Int, ∃ n : ℕ, (n : Int) = x % 2 ^ rank mask w ∧ n < 2 ^ rank mask w := by
    intro x
    refine ⟨(x % 2 ^ rank mask w).toNat, Int.toNat_of_nonneg (Int.emod_nonneg x hpos.ne'), ?_⟩
    have hlt : ((x % 2 ^ rank mask w).toNat : Int) < ((2 ^ rank mask w : ℕ) : Int) := by
      rw [Int.toNat_of_nonneg (Int.emod_nonneg x hpos.ne')]
      push_cast
      exact Int.emod_lt_of_pos x hpos
    exact_mod_cast hlt
  obtain ⟨m, hm, hmlt⟩ := hnat a
  obtain ⟨n, hn, hnlt⟩ := hnat b
  have hm' : IsDeposit mask m value := by
    rw [hm]
    exact isDeposit_emod.mpr ha
  have hn' : IsDeposit mask n value := by
    rw [hn]
    exact isDeposit_emod.mpr hb
  rw [← hm, ← hn, hm'.injective hn' hmlt hnlt]

end Deposit

end OpenWrt.Lib
