/-
# Exponential Golomb codes

A number in a bit string: a run of ones, a zero, and then as many bits as the order
of the code and the run together, the highest first. Each one of the run stands for
the numbers of the shorter codes. This module has the numbers of fixed width, the
code of each order, and that decoding undoes encoding and accepts nothing else.
-/

import Mathlib.Algebra.Group.Int.Defs
import Mathlib.Algebra.Group.Nat.Defs
import Mathlib.Data.List.Basic

namespace OpenWrt.Lib

/-! ## Numbers of fixed width, the highest bit first -/

/-- The number of a bit string. -/
def ofBits : List Bool → ℕ
  | [] => 0
  | b :: bs => b.toNat * 2 ^ bs.length + ofBits bs

/-- The low bits of a number. -/
def toBits : ℕ → ℕ → List Bool
  | 0, _ => []
  | width + 1, n => n.testBit width :: toBits width n

@[simp]
theorem length_toBits (width n : ℕ) : (toBits width n).length = width := by
  induction width with
  | zero => rfl
  | succ width ih => rw [toBits, List.length_cons, ih]

theorem ofBits_lt (bs : List Bool) : ofBits bs < 2 ^ bs.length := by
  induction bs with
  | nil => decide
  | cons b bs ih =>
    rw [ofBits, List.length_cons, Nat.pow_succ]
    cases b <;> simp only [Bool.toNat_false, Bool.toNat_true] <;> omega

/-- Only the low bits are written. -/
theorem toBits_add_mul (width n q : ℕ) : toBits width (q * 2 ^ width + n) = toBits width n := by
  induction width generalizing q with
  | zero => rfl
  | succ width ih =>
    have hlow : q * 2 ^ (width + 1) + n = 2 * q * 2 ^ width + n := by
      rw [Nat.pow_succ, Nat.mul_comm 2 q, Nat.mul_assoc, Nat.mul_comm 2]
    have hbit : (q * 2 ^ (width + 1) + n).testBit width = n.testBit width := by
      rw [Nat.add_comm, Nat.mul_comm, Nat.testBit_eq_decide_div_mod_eq,
        Nat.testBit_eq_decide_div_mod_eq, Nat.pow_succ, Nat.mul_assoc,
        Nat.add_mul_div_left _ _ (Nat.two_pow_pos width), Nat.add_mul_mod_self_left]
    rw [toBits, toBits, hbit, hlow, ih]

/-- A bit string is its number written with its width. -/
@[simp]
theorem toBits_ofBits (bs : List Bool) : toBits bs.length (ofBits bs) = bs := by
  induction bs with
  | nil => rfl
  | cons b bs ih =>
    have hlt := ofBits_lt bs
    have hbit : (b.toNat * 2 ^ bs.length + ofBits bs).testBit bs.length = b := by
      rw [Nat.mul_comm, Nat.testBit_two_pow_mul_add _ hlt, if_neg (Nat.lt_irrefl _),
        Nat.sub_self]
      cases b <;> rfl
    rw [List.length_cons, ofBits, toBits, hbit, toBits_add_mul, ih]

theorem ofBits_toBits (width n : ℕ) : ofBits (toBits width n) = n % 2 ^ width := by
  induction width with
  | zero => rw [toBits, ofBits, Nat.pow_zero, Nat.mod_one]
  | succ width ih =>
    rw [toBits, ofBits, length_toBits, ih, Nat.pow_succ, Nat.mod_mul, Nat.toNat_testBit,
      Nat.mul_comm, Nat.add_comm]

theorem ofBits_toBits_of_lt {width n : ℕ} (h : n < 2 ^ width) : ofBits (toBits width n) = n := by
  rw [ofBits_toBits, Nat.mod_eq_of_lt h]

/-! ## The code of an order -/

namespace ExpGolomb

/-- Write a number in the code of the order. -/
def encode (order n : ℕ) : List Bool :=
  if n < 2 ^ order then false :: toBits order n else true :: encode (order + 1) (n - 2 ^ order)
termination_by n
decreasing_by
  have hpos : 0 < 2 ^ order := Nat.two_pow_pos order
  omega

/-- Read a number, and what follows it. -/
def decode : ℕ → List Bool → Option (ℕ × List Bool)
  | _, [] => none
  | order, false :: bs =>
    if order ≤ bs.length then some (ofBits (bs.take order), bs.drop order) else none
  | order, true :: bs =>
    (decode (order + 1) bs).map fun (n, rest) => (2 ^ order + n, rest)

theorem encode_of_lt {order n : ℕ} (h : n < 2 ^ order) :
    encode order n = false :: toBits order n := by
  rw [encode, if_pos h]

theorem encode_add (order n : ℕ) :
    encode order (2 ^ order + n) = true :: encode (order + 1) n := by
  rw [encode, if_neg (by omega), Nat.add_sub_cancel_left]

theorem length_encode_pos (order n : ℕ) : 0 < (encode order n).length := by
  rw [encode]
  split <;> exact Nat.succ_pos _

/-- The numbers whose codes are short enough are those up to a bound: two bits more are twice as
many numbers. -/
theorem length_encode_le_iff {order n bound : ℕ} :
    (encode order n).length ≤ bound ↔ n < 2 ^ order * (2 ^ ((bound + 1 - order) / 2) - 1) := by
  induction n using Nat.strongRecOn generalizing order bound with
  | ind n ih =>
    have hpos : 0 < 2 ^ order := Nat.two_pow_pos order
    by_cases hlt : n < 2 ^ order
    · rw [encode_of_lt hlt, List.length_cons, length_toBits]
      by_cases hroom : order + 1 ≤ bound
      · have hle : 2 ^ order ≤ 2 ^ order * (2 ^ ((bound + 1 - order) / 2) - 1) := by
          apply Nat.le_mul_of_pos_right
          have hone := Nat.one_lt_two_pow (n := (bound + 1 - order) / 2) (by omega)
          omega
        exact ⟨fun _ => Nat.lt_of_lt_of_le hlt hle, fun _ => hroom⟩
      · have hzero : (bound + 1 - order) / 2 = 0 := by omega
        rw [hzero, Nat.pow_zero, Nat.sub_self, Nat.mul_zero]
        omega
    · obtain ⟨m, rfl⟩ := Nat.exists_eq_add_of_le (Nat.le_of_not_lt hlt)
      rw [encode_add, List.length_cons]
      cases hhalf : (bound + 1 - order) / 2 with
      | zero =>
        have hshort : ¬ (encode (order + 1) m).length + 1 ≤ bound := by
          intro hle
          have hm := (@ih m (by omega) (order + 1) (bound - 1)).mp (by omega)
          have hzero : (bound - 1 + 1 - (order + 1)) / 2 = 0 := by omega
          rw [hzero, Nat.pow_zero, Nat.sub_self, Nat.mul_zero] at hm
          omega
        rw [Nat.pow_zero, Nat.sub_self, Nat.mul_zero]
        omega
      | succ half =>
        have hm := @ih m (by omega) (order + 1) (bound - 1)
        have hsame : (bound - 1 + 1 - (order + 1)) / 2 = half := by omega
        rw [hsame, Nat.pow_succ, Nat.mul_assoc] at hm
        have hsum : 2 ^ order * (2 ^ (half + 1) - 1) =
            2 ^ order + 2 ^ order * (2 * (2 ^ half - 1)) := by
          have hone := Nat.one_le_two_pow (n := half)
          have htwo : 2 ^ (half + 1) - 1 = 1 + 2 * (2 ^ half - 1) := by
            rw [Nat.pow_succ]
            omega
          rw [htwo, Nat.mul_add, Nat.mul_one]
        rw [hsum, Nat.add_lt_add_iff_left, ← hm]
        omega

/-- Decoding undoes encoding, whatever follows. -/
theorem decode_encode (order n : ℕ) (rest : List Bool) :
    decode order (encode order n ++ rest) = some (n, rest) := by
  induction n using Nat.strongRecOn generalizing order with
  | ind n ih =>
    by_cases hlt : n < 2 ^ order
    · have htake : (toBits order n ++ rest).take order = toBits order n :=
        List.take_left' (length_toBits order n)
      have hdrop : (toBits order n ++ rest).drop order = rest :=
        List.drop_left' (length_toBits order n)
      rw [encode_of_lt hlt, List.cons_append, decode, htake, hdrop, ofBits_toBits_of_lt hlt,
        if_pos (by rw [List.length_append, length_toBits]; omega)]
    · obtain ⟨m, rfl⟩ := Nat.exists_eq_add_of_le (Nat.le_of_not_lt hlt)
      have hpos : 0 < 2 ^ order := Nat.two_pow_pos order
      rw [encode_add, List.cons_append, decode, ih m (by omega), Option.map_some]

theorem encode_prefix_inj {order n m : ℕ} {bs : List Bool} (hn : encode order n <+: bs)
    (hm : encode order m <+: bs) : n = m := by
  obtain ⟨rest, rfl⟩ := hn
  obtain ⟨rest', hrest'⟩ := hm
  have hread := decode_encode order n rest
  rw [← hrest', decode_encode] at hread
  exact (Prod.mk.inj (Option.some.inj hread)).1.symm

/-- Decoding accepts only what encoding writes. -/
theorem eq_encode_of_decode {order n : ℕ} {bs rest : List Bool}
    (h : decode order bs = some (n, rest)) : bs = encode order n ++ rest := by
  induction bs generalizing order n with
  | nil => cases h
  | cons b bs ih =>
    cases b with
    | false =>
      rw [decode] at h
      split at h
      case isTrue hle =>
        obtain ⟨rfl, rfl⟩ := Prod.mk.inj (Option.some.inj h)
        have hlen : (bs.take order).length = order := List.length_take_of_le hle
        have hlt : ofBits (bs.take order) < 2 ^ order := by
          simpa only [hlen] using ofBits_lt (bs.take order)
        have hbits : toBits order (ofBits (bs.take order)) = bs.take order := by
          simpa only [hlen] using toBits_ofBits (bs.take order)
        rw [encode_of_lt hlt, hbits, List.cons_append, List.take_append_drop]
      case isFalse => cases h
    | true =>
      rw [decode, Option.map_eq_some_iff] at h
      obtain ⟨⟨m, rest'⟩, hm, heq⟩ := h
      obtain ⟨rfl, rfl⟩ := Prod.mk.inj heq
      rw [encode_add, List.cons_append, ← ih hm]

/-- A number is in the string, within a bound on its length. -/
theorem decode_take_iff {order n bound : ℕ} {bs : List Bool} :
    (∃ rest, decode order (bs.take bound) = some (n, rest)) ↔
      encode order n <+: bs ∧ (encode order n).length ≤ bound := by
  constructor
  · rintro ⟨rest, h⟩
    have heq := eq_encode_of_decode h
    refine ⟨(heq ▸ List.prefix_append _ rest).trans (List.take_prefix bound bs), ?_⟩
    have hlen := congrArg List.length heq
    rw [List.length_append, List.length_take] at hlen
    omega
  · rintro ⟨hstarts, hlen⟩
    obtain ⟨tail, htail⟩ := List.prefix_take_iff.mpr ⟨hstarts, hlen⟩
    exact ⟨tail, by rw [← htail, decode_encode]⟩

end ExpGolomb

end OpenWrt.Lib
