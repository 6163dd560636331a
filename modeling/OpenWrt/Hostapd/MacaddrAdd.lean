/-
# The changes of a base address

The addition raises the next octet by the index again where it carries, which is the sum only for
the index one, or where nothing is carried. The other changes are exclusive ors of one octet, and
stay inside of it as long as the index does.
-/

import Mathlib.Data.Nat.Bitwise
import Mathlib.Data.Nat.Digits.Defs
import OpenWrt.Hostapd.MacaddrGenerate

namespace OpenWrt.Hostapd

/-! ## The addition -/

/-- The number that the octets make, the last one first. -/
abbrev octetsValue (octets : List ℕ) : ℕ := Nat.ofDigits 256 octets

/-- The index is added to the number: nothing is carried, or one is carried and not past the end.
From 256 on every octet is raised, and these have to make up the sum. -/
def AddsUp (idx : ℕ) (octets : List ℕ) : Prop :=
  octets.headD 0 + idx < 256 ∨ (idx = 1 ∧ ∃ octet ∈ octets, octet < 255) ∨
    (256 ≤ idx ∧
      octetsValue (octets.map fun octet => (octet + idx) % 256) = octetsValue octets + idx)

variable {idx octet : ℕ} {octets : List ℕ}

theorem addIdx_cons (idx octet : ℕ) (rest : List ℕ) :
    addIdx idx (octet :: rest) = (octet + idx) % 256 ::
      if octet + idx < 256 then rest else addIdx idx rest := by
  rw [addIdx]
  by_cases h : octet + idx < 256
  · rw [if_pos h, if_pos h, Nat.mod_eq_of_lt h]
  · rw [if_neg h, if_neg h]

@[simp]
theorem length_addIdx (idx : ℕ) (octets : List ℕ) : (addIdx idx octets).length = octets.length := by
  induction octets with
  | nil => rfl
  | cons octet rest ih =>
    rw [addIdx_cons, List.length_cons, List.length_cons]
    split
    · rfl
    · rw [ih]

theorem lt_of_mem_addIdx (hlt : ∀ octet ∈ octets, octet < 256) (h : octet ∈ addIdx idx octets) :
    octet < 256 := by
  induction octets with
  | nil => exact absurd h List.not_mem_nil
  | cons first rest ih =>
    rw [addIdx_cons] at h
    have hrest := fun octet hmem => hlt octet (List.mem_cons_of_mem _ hmem)
    rcases List.mem_cons.mp h with rfl | h
    · exact Nat.mod_lt _ (by decide)
    · split at h
      · exact hrest octet h
      · exact ih hrest h

theorem addIdx_of_le (h : 256 ≤ idx) (octets : List ℕ) :
    addIdx idx octets = octets.map fun octet => (octet + idx) % 256 := by
  induction octets with
  | nil => rfl
  | cons octet rest ih => rw [addIdx_cons, if_neg (by omega), ih, List.map_cons]

/-- What is carried is one only for the index one. -/
theorem value_addIdx_eq_succ_iff (hpos : 0 < idx) (hidx : idx < 256)
    (hlt : ∀ octet ∈ octets, octet < 256) :
    octetsValue (addIdx idx octets) = octetsValue octets + 1 ↔
      idx = 1 ∧ ∃ octet ∈ octets, octet < 255 := by
  induction octets with
  | nil => simp [addIdx]
  | cons octet rest ih =>
    have hoctet := hlt octet List.mem_cons_self
    have hrest := ih fun octet hmem => hlt octet (List.mem_cons_of_mem _ hmem)
    simp only [addIdx_cons, octetsValue, Nat.ofDigits_cons] at hrest ⊢
    by_cases hone : idx = 1
    · subst hone
      by_cases hcarry : octet + 1 < 256
      · rw [if_pos hcarry, Nat.mod_eq_of_lt hcarry]
        refine iff_of_true (by omega) ⟨rfl, octet, List.mem_cons_self, by omega⟩
      · have hlast : octet = 255 := by omega
        have hmem : (∃ octet ∈ 255 :: rest, octet < 255) ↔ ∃ octet ∈ rest, octet < 255 := by
          simp
        rw [if_neg hcarry, hlast, hmem, ← hrest]
        omega
    · refine iff_of_false (fun heq => ?_) fun h => hone h.1
      omega

/-- The addition is one of the numbers exactly when the index adds up. -/
theorem value_addIdx_iff (hnil : octets ≠ []) (hlt : ∀ octet ∈ octets, octet < 256) :
    octetsValue (addIdx idx octets) = octetsValue octets + idx ↔ AddsUp idx octets := by
  obtain ⟨octet, rest, rfl⟩ := List.exists_cons_of_ne_nil hnil
  have hoctet := hlt octet List.mem_cons_self
  unfold AddsUp
  rw [List.headD_cons]
  by_cases hcarry : octet + idx < 256
  · refine iff_of_true ?_ (.inl hcarry)
    rw [addIdx_cons, if_pos hcarry, octetsValue, octetsValue, Nat.ofDigits_cons, Nat.ofDigits_cons,
      Nat.mod_eq_of_lt hcarry]
    omega
  · rw [or_iff_right hcarry]
    by_cases hlarge : 256 ≤ idx
    · rw [or_iff_right (by omega), and_iff_right hlarge, addIdx_of_le hlarge]
    · rw [or_iff_left (by omega)]
      have hcarried : octetsValue (addIdx idx rest) = octetsValue rest + 1 ↔
          idx = 1 ∧ ∃ octet ∈ rest, octet < 255 :=
        value_addIdx_eq_succ_iff (by omega) (by omega) fun octet hmem =>
          hlt octet (List.mem_cons_of_mem _ hmem)
      have hsum : octetsValue (addIdx idx (octet :: rest)) = octetsValue (octet :: rest) + idx ↔
          octetsValue (addIdx idx rest) = octetsValue rest + 1 := by
        simp only [addIdx_cons, if_neg hcarry, octetsValue, Nat.ofDigits_cons,
          show (octet + idx) % 256 = octet + idx - 256 by omega]
        omega
      rw [hsum, hcarried]
      refine and_congr_right fun hone => ?_
      simp only [List.mem_cons, exists_eq_or_imp]
      rw [or_iff_right (by omega)]

/-! ## The exclusive ors -/

theorem xor_lt_iff {a b : ℕ} (h : a < 256) : a ^^^ b < 256 ↔ b < 256 := by
  have hlt : ∀ {x y : ℕ}, x < 256 → y < 256 → x ^^^ y < 256 := fun hx hy =>
    Nat.xor_lt_two_pow (n := 8) hx hy
  constructor
  · intro hxor
    have hback := hlt h hxor
    rwa [← Nat.xor_assoc, Nat.xor_self, Nat.zero_xor] at hback
  · exact hlt h

/-- The first octet of a local address. -/
def firstOctet (octet idx : ℕ) : ℕ := (octet ||| 2) ^^^ (idx <<< 2)

theorem firstOctet_lt_iff (h : octet < 256) : firstOctet octet idx < 256 ↔ idx < 64 := by
  have hor : octet ||| 2 < 256 := Nat.or_lt_two_pow (n := 8) h (by decide)
  unfold firstOctet
  rw [xor_lt_iff hor, Nat.shiftLeft_eq]
  omega

theorem firstOctet_mod_two (octet idx : ℕ) : firstOctet octet idx % 2 = octet % 2 := by
  have hbit : (firstOctet octet idx).testBit 0 = octet.testBit 0 := by
    have htwo : Nat.testBit 2 0 = false := by decide
    rw [firstOctet, Nat.testBit_xor, Nat.testBit_or, Nat.testBit_shiftLeft, htwo, Bool.or_false,
      decide_eq_false (by decide), Bool.false_and, Bool.xor_false]
  simp only [Nat.testBit_zero, decide_eq_decide] at hbit
  omega

theorem firstOctet_injective {idx' : ℕ} (h : firstOctet octet idx = firstOctet octet idx') :
    idx = idx' := by
  have hshift := Nat.xor_right_injective h
  simp only [Nat.shiftLeft_eq] at hshift
  omega

theorem firstOctet_and_two (octet idx : ℕ) : firstOctet octet idx &&& 2 ≠ 0 := by
  intro h
  have hbit : (firstOctet octet idx &&& 2).testBit 1 = true := by
    have htwo : Nat.testBit 2 1 = true := by decide
    rw [firstOctet, Nat.testBit_and, Nat.testBit_xor, Nat.testBit_or, Nat.testBit_shiftLeft, htwo,
      Bool.or_true, decide_eq_false (by decide), Bool.false_and, Bool.xor_false, Bool.and_true]
  rw [h] at hbit
  simp at hbit

theorem firstOctet_eq_self (h : firstOctet octet idx = octet) : idx = 0 := by
  have hshift : firstOctet octet idx >>> 2 = octet >>> 2 ^^^ idx := by
    rw [firstOctet, Nat.shiftRight_xor_distrib, Nat.shiftRight_or_distrib,
      Nat.shiftLeft_shiftRight, show 2 >>> 2 = 0 from rfl, Nat.or_zero]
  rw [h] at hshift
  exact (Nat.xor_right_injective (hshift.symm.trans (Nat.xor_zero _).symm))

end OpenWrt.Hostapd
