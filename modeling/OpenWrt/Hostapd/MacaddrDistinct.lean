/-
# The addresses of different numbers

An address is well formed as long as the index fits into the octet it changes, and two numbers
have different addresses unless one is made by an addition and the other by an exclusive or, or an
address of the list is among them.
-/

import OpenWrt.Hostapd.BssidSettled
import OpenWrt.Hostapd.MacaddrAdd

namespace OpenWrt.Hostapd

/-! ## One address -/

/-- Six octets, the first one of a unicast address. -/
structure IsUnicast (addr : List ℕ) : Prop where
  length_eq : addr.length = 6
  lt : ∀ octet ∈ addr, octet < 256
  even : addr.headD 0 % 2 = 0

theorem MacAddr.exists_octets (addr : MacAddr) : ∃ a b c d e f : ℕ,
    addr.octets = [a, b, c, d, e, f] ∧ ∀ octet ∈ [a, b, c, d, e, f], octet < 256 := by
  obtain ⟨octets, hlength, hlt⟩ := addr
  match octets, hlength with
  | [a, b, c, d, e, f], _ => exact ⟨a, b, c, d, e, f, rfl, hlt⟩

section Change

variable {mbssid : Bool} {idx idx' : ℕ} {a b c d e f : ℕ}

/-- The index that the first octet takes. -/
def b1Idx (first idx : ℕ) : ℕ := if first &&& 2 = 0 then idx - 1 else idx

theorem changeMac_b1 : changeMac mbssid idx [a, b, c, d, e, f] .b1 =
    [firstOctet a (b1Idx a idx), b, c, d, e, f] := rfl

theorem changeMac_b5 : changeMac mbssid idx [a, b, c, d, e, f] .b5 =
    [if mbssid then a ||| 2 else a, b, c, d, e, f ^^^ idx] := by
  cases mbssid <;> rfl

theorem changeMac_add : changeMac mbssid idx [a, b, c, d, e, f] .add =
    a :: (addIdx idx [f, e, d, c, b]).reverse := rfl

theorem changeMac_zero (hlt : ∀ octet ∈ [a, b, c, d, e, f], octet < 256) :
    changeMac mbssid 0 [a, b, c, d, e, f] .add = [a, b, c, d, e, f] := by
  have hf : f < 256 := hlt f (by simp)
  rw [changeMac_add, addIdx_cons, Nat.add_zero, if_pos hf, Nat.mod_eq_of_lt hf]
  rfl

/-- A changed address is well formed as long as the index fits. -/
theorem isUnicast_changeMac_iff (hlt : ∀ octet ∈ [a, b, c, d, e, f], octet < 256) (type : MacType) :
    IsUnicast (changeMac mbssid idx [a, b, c, d, e, f] type) ↔
      a % 2 = 0 ∧ (type = .b1 → b1Idx a idx < 64) ∧ (type = .b5 → idx < 256) := by
  have ha : a < 256 := hlt a (by simp)
  have hf : f < 256 := hlt f (by simp)
  have hmiddle : ∀ octet ∈ [b, c, d, e], octet < 256 := fun octet hmem => hlt octet (by
    simp only [List.mem_cons, List.not_mem_nil, or_false] at hmem ⊢
    tauto)
  cases type with
  | b1 =>
    rw [changeMac_b1]
    constructor
    · rintro ⟨-, hoctets, heven⟩
      have hfirst := hoctets _ List.mem_cons_self
      rw [List.headD_cons, firstOctet_mod_two] at heven
      exact ⟨heven, fun _ => (firstOctet_lt_iff ha).mp hfirst, (fun h => by cases h)⟩
    · rintro ⟨heven, hidx, -⟩
      refine ⟨rfl, fun octet hmem => ?_, ?_⟩
      · rcases List.mem_cons.mp hmem with rfl | hmem
        · exact (firstOctet_lt_iff ha).mpr (hidx rfl)
        · exact hlt octet (List.mem_cons_of_mem _ hmem)
      · rw [List.headD_cons, firstOctet_mod_two]
        exact heven
  | b5 =>
    have hfirst : (if mbssid then a ||| 2 else a) < 256 := by
      split
      · exact Nat.or_lt_two_pow (n := 8) ha (by decide)
      · exact ha
    have heven : (if mbssid then a ||| 2 else a) % 2 = a % 2 := by
      split
      · have hparity := firstOctet_mod_two a 0
        rwa [firstOctet, Nat.zero_shiftLeft, Nat.xor_zero] at hparity
      · rfl
    rw [changeMac_b5]
    constructor
    · rintro ⟨-, hoctets, hhead⟩
      rw [List.headD_cons, heven] at hhead
      exact ⟨hhead, (fun h => by cases h), fun _ => (xor_lt_iff hf).mp (hoctets _ (by simp))⟩
    · rintro ⟨hhead, -, hidx⟩
      refine ⟨rfl, fun octet hmem => ?_, by rw [List.headD_cons, heven, hhead]⟩
      simp only [List.mem_cons, List.not_mem_nil, or_false] at hmem
      rcases hmem with rfl | hb | hc | hd | he | rfl
      · exact hfirst
      · exact hmiddle octet (by simp [hb])
      · exact hmiddle octet (by simp [hc])
      · exact hmiddle octet (by simp [hd])
      · exact hmiddle octet (by simp [he])
      · exact (xor_lt_iff hf).mpr (hidx rfl)
  | add =>
    rw [changeMac_add]
    refine ⟨fun h => ⟨h.even, (fun h => by cases h), (fun h => by cases h)⟩, fun h => ⟨by simp, fun octet hmem => ?_, h.1⟩⟩
    rcases List.mem_cons.mp hmem with rfl | hmem
    · exact ha
    · refine lt_of_mem_addIdx (fun octet hoctet => hlt octet ?_) (List.mem_reverse.mp hmem)
      simp only [List.mem_cons, List.not_mem_nil, or_false] at hoctet ⊢
      tauto

/-! ## Two addresses from one base -/

theorem add_ne_add (h : idx % 256 ≠ idx' % 256) :
    changeMac mbssid idx [a, b, c, d, e, f] .add ≠ changeMac mbssid idx' [a, b, c, d, e, f] .add := by
  intro heq
  rw [changeMac_add, changeMac_add, addIdx_cons idx, addIdx_cons idx', List.cons_eq_cons,
    List.reverse_inj, List.cons_eq_cons] at heq
  omega

theorem b1_ne_b1 (hpos : 0 < idx) (hpos' : 0 < idx') (h : idx ≠ idx') :
    changeMac mbssid idx [a, b, c, d, e, f] .b1 ≠ changeMac mbssid idx' [a, b, c, d, e, f] .b1 := by
  intro heq
  rw [changeMac_b1, changeMac_b1, List.cons_eq_cons] at heq
  have hidx := firstOctet_injective heq.1
  unfold b1Idx at hidx
  split at hidx <;> omega

theorem b5_ne_b5 (h : idx ≠ idx') :
    changeMac mbssid idx [a, b, c, d, e, f] .b5 ≠ changeMac mbssid idx' [a, b, c, d, e, f] .b5 := by
  intro heq
  rw [changeMac_b5, changeMac_b5] at heq
  simp only [List.cons.injEq, and_true, true_and] at heq
  exact h (Nat.xor_right_injective heq)

/-- The addition leaves the first octet, and the other change does not. -/
theorem add_ne_b1 (hpos : 0 < idx') :
    changeMac mbssid idx [a, b, c, d, e, f] .add ≠ changeMac mbssid idx' [a, b, c, d, e, f] .b1 := by
  intro heq
  rw [changeMac_add, changeMac_b1, List.cons_eq_cons] at heq
  have hfirst : a = firstOctet a (b1Idx a idx') := heq.1
  by_cases hlocal : a &&& 2 = 0
  · rw [hfirst] at hlocal
    exact firstOctet_and_two _ _ hlocal
  · have hidx := firstOctet_eq_self hfirst.symm
    rw [b1Idx, if_neg hlocal] at hidx
    omega

theorem add_eq_b5_iff (hidx : idx < 256) (hf : f < 256) (hidx' : idx' < 256) :
    changeMac false idx [a, b, c, d, e, f] .add = changeMac false idx' [a, b, c, d, e, f] .b5 ↔
      f + idx = f ^^^ idx' := by
  have hxor : f ^^^ idx' < 256 := (xor_lt_iff hf).mpr hidx'
  rw [changeMac_add, changeMac_b5, if_neg Bool.false_ne_true]
  constructor
  · intro heq
    have hlow := (List.cons_eq_cons.mp heq).2
    rw [← List.reverse_inj, List.reverse_reverse, addIdx_cons] at hlow
    simp only [List.reverse_cons, List.reverse_nil, List.nil_append, List.cons_append,
      List.cons.injEq] at hlow
    obtain ⟨hlast, hrest⟩ := hlow
    by_cases hcarry : f + idx < 256
    · rwa [Nat.mod_eq_of_lt hcarry] at hlast
    · -- What is carried changes the octet before the last one.
      rw [if_neg hcarry, addIdx_cons, List.cons_eq_cons] at hrest
      omega
  · intro heq
    rw [addIdx_cons, if_pos (heq ▸ hxor), heq, Nat.mod_eq_of_lt hxor]
    rfl

end Change

end OpenWrt.Hostapd
