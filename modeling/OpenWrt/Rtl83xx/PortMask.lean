/-
# Masks of ports

The driver keeps sets of ports in the bits of a `u64`. A port is in the set when its bit
is set; the operations on masks are stated by what they do to each bit.
-/

import OpenWrt.Rtl83xx.L2Entry

namespace OpenWrt.Rtl83xx

/-- `BIT_ULL`. -/
def bitUll (n : ℕ) : U64 := .twoPow 64 n

/-- `fls64`: the number of the last set bit, counted from one. -/
def fls64 (mask : U64) : ℕ := if mask = 0 then 0 else Nat.log2 mask.toNat + 1

/-- The number of set bits among the first `n`. -/
def weight (n : ℕ) (mask : U64) : ℕ := (List.range n).countP (mask.getLsbD ·)

variable {mask other : U64} {n i : ℕ}

theorem getLsbD_bitUll (hn : n < 64) : (bitUll n).getLsbD i = decide (i = n) := by
  unfold bitUll
  rw [BitVec.getLsbD_twoPow, Bool.eq_iff_iff]
  simp only [Bool.and_eq_true, decide_eq_true_eq]
  omega

theorem getLsbD_insert (hn : n < 64) :
    (mask ||| bitUll n).getLsbD i = (mask.getLsbD i || decide (i = n)) := by
  rw [BitVec.getLsbD_or, getLsbD_bitUll hn]

theorem getLsbD_erase (hn : n < 64) :
    (mask &&& ~~~ bitUll n).getLsbD i = (mask.getLsbD i && !decide (i = n)) := by
  rw [BitVec.getLsbD_and, BitVec.getLsbD_not, getLsbD_bitUll hn]
  by_cases hi : i < 64
  · simp [hi]
  · simp [BitVec.getLsbD_of_ge mask i (by omega)]

theorem ne_zero_of_getLsbD (h : mask.getLsbD i = true) : mask ≠ 0 := by
  rintro rfl
  simp at h

end OpenWrt.Rtl83xx
