/-
# Numbers of bytes, the highest first

A row of bytes is a row of bits, the highest bit of each byte first. The number that the first
bytes of a row make has the same bits in the same order, and so have the bytes of a number.
-/

import Mathlib.Data.Nat.Notation

namespace OpenWrt.Lib

def bitAt (bytes : ℕ → UInt8) (i : ℕ) : Bool := (bytes (i / 8)).toBitVec.getMsbD (i % 8)

/-- The number that the first bytes make. -/
def ofBytes (w : ℕ) (bytes : ℕ → UInt8) (k : ℕ) : BitVec w :=
  (List.range k).foldl (fun acc i => acc <<< 8 ||| (bytes i).toBitVec.setWidth w) 0

def toBytes (k : ℕ) (value : BitVec (8 * k)) : ℕ → UInt8 := fun i =>
  ⟨(value >>> (8 * (k - 1 - i))).setWidth 8⟩

variable {w k : ℕ} {bytes : ℕ → UInt8}

theorem ofBytes_succ (w : ℕ) (bytes : ℕ → UInt8) (k : ℕ) :
    ofBytes w bytes (k + 1) = ofBytes w bytes k <<< 8 ||| (bytes k).toBitVec.setWidth w := by
  unfold ofBytes
  rw [List.range_succ, List.foldl_append]
  rfl

/-- The bits of the number from the lowest one on. -/
theorem getLsbD_ofBytes (hk : 8 * k ≤ w) (j : ℕ) :
    (ofBytes w bytes k).getLsbD j =
      (decide (j < 8 * k) && (bytes (k - 1 - j / 8)).toBitVec.getLsbD (j % 8)) := by
  induction k generalizing j with
  | zero =>
    rw [decide_eq_false (by omega), Bool.false_and]
    exact BitVec.getLsbD_zero
  | succ k ih =>
    rw [ofBytes_succ, BitVec.getLsbD_or, BitVec.getLsbD_shiftLeft, BitVec.getLsbD_setWidth,
      ih (by omega)]
    by_cases hlow : j < 8
    · -- The bits of the last byte.
      have hdiv : k + 1 - 1 - j / 8 = k := by omega
      have hmod : j % 8 = j := by omega
      rw [hdiv, hmod, decide_eq_true hlow, decide_eq_true (show j < w by omega),
        decide_eq_true (show j < 8 * (k + 1) by omega)]
      rfl
    · have hbyte : (bytes k).toBitVec.getLsbD j = false := BitVec.getLsbD_of_ge _ _ (by omega)
      have hdiv : k + 1 - 1 - j / 8 = k - 1 - (j - 8) / 8 := by omega
      have hmod : (j - 8) % 8 = j % 8 := by omega
      rw [hbyte, hdiv, hmod, decide_eq_false hlow, Bool.and_false, Bool.or_false, Bool.not_false,
        Bool.and_true]
      by_cases hhigh : j < 8 * (k + 1)
      · rw [decide_eq_true hhigh, decide_eq_true (show j < w by omega),
          decide_eq_true (show j - 8 < 8 * k by omega)]
        rfl
      · rw [decide_eq_false hhigh, decide_eq_false (show ¬ j - 8 < 8 * k by omega), Bool.false_and,
          Bool.and_false]

theorem getMsbD_ofBytes {i : ℕ} (hi : i < 8 * k) :
    (ofBytes (8 * k) bytes k).getMsbD i = bitAt bytes i := by
  have hlow : 8 * k - 1 - i < 8 * k := by omega
  have hdiv : k - 1 - (8 * k - 1 - i) / 8 = i / 8 := by omega
  have hmod : (8 * k - 1 - i) % 8 = 7 - i % 8 := by omega
  rw [BitVec.getMsbD_eq_getLsbD, getLsbD_ofBytes (Nat.le_refl _), hdiv, hmod, decide_eq_true hi,
    decide_eq_true hlow, bitAt, BitVec.getMsbD_eq_getLsbD,
    decide_eq_true (show i % 8 < 8 from Nat.mod_lt i (by decide))]
  rfl

theorem bitAt_toBytes (value : BitVec (8 * k)) {i : ℕ} (hi : i < 8 * k) :
    bitAt (toBytes k value) i = value.getMsbD i := by
  have hmod : i % 8 < 8 := Nat.mod_lt i (by decide)
  have hindex : 8 * (k - 1 - i / 8) + (8 - 1 - i % 8) = 8 * k - 1 - i := by omega
  unfold bitAt toBytes
  rw [BitVec.getMsbD_eq_getLsbD, BitVec.getLsbD_setWidth, BitVec.getLsbD_ushiftRight, hindex,
    BitVec.getMsbD_eq_getLsbD, decide_eq_true hmod, decide_eq_true hi,
    decide_eq_true (show 8 - 1 - i % 8 < 8 by omega)]
  rfl

end OpenWrt.Lib
