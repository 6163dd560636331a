/-
# Tables of packed bit fields

A table of small values is kept in an array of words, several values of the same
width in each word. Reading a value shifts and masks its word, writing one clears
its field and puts the new bits in. This module proves the two laws of such a
table: a written value is read back, and the other values are left.
-/

import Mathlib.Data.Nat.Bitwise

namespace OpenWrt.Lib

variable {w : ℕ}

/-- The low `bits` bits of a word. -/
def lowMask (w bits : ℕ) : BitVec w := BitVec.ofNat w (2 ^ bits - 1)

theorem getLsbD_lowMask (bits i : ℕ) :
    (lowMask w bits).getLsbD i = (decide (i < w) && decide (i < bits)) := by
  rw [lowMask, BitVec.getLsbD_ofNat, Nat.testBit_two_pow_sub_one]

def readField (bits : ℕ) (word : BitVec w) (shift : ℕ) : BitVec w :=
  (word >>> shift) &&& lowMask w bits

/-- Replace the field of a word at a bit position. -/
def writeField (bits : ℕ) (word : BitVec w) (shift : ℕ) (value : BitVec w) : BitVec w :=
  (word &&& ~~~(lowMask w bits <<< shift)) ||| (value <<< shift)

theorem getLsbD_readField (bits : ℕ) (word : BitVec w) (shift i : ℕ) :
    (readField bits word shift).getLsbD i =
      (word.getLsbD (shift + i) && decide (i < bits)) := by
  unfold readField
  rw [BitVec.getLsbD_and, BitVec.getLsbD_ushiftRight, getLsbD_lowMask]
  by_cases hi : i < w
  · simp [hi]
  · simp [hi, BitVec.getLsbD_of_ge word (shift + i) (by omega)]

/-- A value that fits is read back from where it was written. -/
theorem readField_writeField_self {bits shift : ℕ} {word value : BitVec w}
    (hshift : shift + bits ≤ w) (hfits : value &&& lowMask w bits = value) :
    readField bits (writeField bits word shift value) shift = value := by
  refine BitVec.eq_of_getLsbD_eq fun i hi => ?_
  have hvalue : value.getLsbD i = (value.getLsbD i && decide (i < bits)) := by
    have hbit := congrArg (fun x => BitVec.getLsbD x i) hfits
    rw [BitVec.getLsbD_and, getLsbD_lowMask, decide_eq_true hi, Bool.true_and] at hbit
    exact hbit.symm
  rw [getLsbD_readField]
  by_cases hbits : i < bits
  · have hin : shift + i < w := by omega
    have hsub : shift + i - shift = i := by omega
    simp only [writeField, BitVec.getLsbD_or, BitVec.getLsbD_and, BitVec.getLsbD_not,
      BitVec.getLsbD_shiftLeft, getLsbD_lowMask, hsub, hbits, hin, hi,
      show ¬ shift + i < shift by omega]
    simp
  · rw [hvalue]
    simp [hbits]

/-- Fields apart from the written one keep their values. -/
theorem readField_writeField_of_disjoint {bits shift other : ℕ} {word value : BitVec w}
    (hfits : value &&& lowMask w bits = value)
    (hapart : other + bits ≤ shift ∨ shift + bits ≤ other) :
    readField bits (writeField bits word shift value) other = readField bits word other := by
  refine BitVec.eq_of_getLsbD_eq fun i hi => ?_
  rw [getLsbD_readField, getLsbD_readField]
  by_cases hbits : i < bits
  · by_cases hin : other + i < w
    · have hmask : (lowMask w bits <<< shift).getLsbD (other + i) = false := by
        simp only [BitVec.getLsbD_shiftLeft, getLsbD_lowMask]
        by_cases hlow : other + i < shift
        · simp [hlow]
        · simp [show ¬ other + i - shift < bits by omega]
      have hvalue : (value <<< shift).getLsbD (other + i) = false := by
        rw [← hfits]
        simp only [BitVec.getLsbD_shiftLeft, BitVec.getLsbD_and, getLsbD_lowMask]
        by_cases hlow : other + i < shift
        · simp [hlow]
        · simp [show ¬ other + i - shift < bits by omega]
      simp only [writeField, BitVec.getLsbD_or, BitVec.getLsbD_and, BitVec.getLsbD_not, hin,
        hmask, hvalue]
      simp
    · rw [BitVec.getLsbD_of_ge _ _ (by omega), BitVec.getLsbD_of_ge _ _ (by omega)]
  · simp [hbits]

/-! ## Tables -/

/-- The value of an index, with `per` values of `bits` bits in each word. -/
def packedGet (bits per : ℕ) (units : ℕ → BitVec w) (index : ℕ) : BitVec w :=
  readField bits (units (index / per)) (index % per * bits)

def packedSet (bits per : ℕ) (units : ℕ → BitVec w) (index : ℕ) (value : BitVec w) :
    ℕ → BitVec w :=
  Function.update units (index / per)
    (writeField bits (units (index / per)) (index % per * bits) value)

variable {bits per : ℕ} {units : ℕ → BitVec w} {index other : ℕ} {value : BitVec w}

theorem packedGet_packedSet_self (hper : 0 < per) (hroom : per * bits ≤ w)
    (hfits : value &&& lowMask w bits = value) :
    packedGet bits per (packedSet bits per units index value) index = value := by
  have hmod : index % per < per := Nat.mod_lt _ hper
  have hend : index % per * bits + bits ≤ w := by
    calc index % per * bits + bits = (index % per + 1) * bits := by rw [Nat.add_mul, Nat.one_mul]
      _ ≤ per * bits := Nat.mul_le_mul_right _ hmod
      _ ≤ w := hroom
  unfold packedGet packedSet
  rw [Function.update_self]
  exact readField_writeField_self hend hfits

theorem packedGet_packedSet_of_ne (hfits : value &&& lowMask w bits = value)
    (hne : other ≠ index) :
    packedGet bits per (packedSet bits per units index value) other =
      packedGet bits per units other := by
  unfold packedGet packedSet
  by_cases hunit : other / per = index / per
  · rw [hunit, Function.update_self]
    refine readField_writeField_of_disjoint hfits ?_
    have hmod : other % per ≠ index % per := by
      intro hmod
      apply hne
      rw [← Nat.div_add_mod other per, ← Nat.div_add_mod index per, hunit, hmod]
    rcases Nat.lt_or_gt_of_ne hmod with hlt | hgt
    · refine .inl ?_
      calc other % per * bits + bits = (other % per + 1) * bits := by
            rw [Nat.add_mul, Nat.one_mul]
        _ ≤ index % per * bits := Nat.mul_le_mul_right _ hlt
    · refine .inr ?_
      calc index % per * bits + bits = (index % per + 1) * bits := by
            rw [Nat.add_mul, Nat.one_mul]
        _ ≤ other % per * bits := Nat.mul_le_mul_right _ hgt
  · rw [Function.update_of_ne hunit]

end OpenWrt.Lib
