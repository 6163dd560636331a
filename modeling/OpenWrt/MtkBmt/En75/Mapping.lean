/-
# The mapping that a table stands for

A table of mapped blocks is a partial function where no block has two entries, and one to
one where no block is used twice. This module says how changing an entry, adding one and
taking one out change that function.
-/

import OpenWrt.MtkBmt.En75.Driver

namespace OpenWrt.MtkBmt.En75.Bmt

variable {bmt : Bmt}

/-- An entry maps the first block to the second. -/
def Maps (bmt : Bmt) (block target : ℕ) : Prop :=
  ∃ i < bmt.size.toNat,
    (bmt.entry i).fromBlock.toNat = block ∧ (bmt.entry i).toBlock.toNat = target

/-- No block has two entries, and none is used twice. -/
structure Distinct (bmt : Bmt) : Prop where
  fromBlock : ∀ i < bmt.size.toNat, ∀ j < bmt.size.toNat,
    (bmt.entry i).fromBlock = (bmt.entry j).fromBlock → i = j
  toBlock : ∀ i < bmt.size.toNat, ∀ j < bmt.size.toNat,
    (bmt.entry i).toBlock = (bmt.entry j).toBlock → i = j

theorem Distinct.injective (h : bmt.Distinct) {a b p : ℕ} (ha : bmt.Maps a p)
    (hb : bmt.Maps b p) : a = b := by
  obtain ⟨i, hi, rfl, hto⟩ := ha
  obtain ⟨j, hj, rfl, hto'⟩ := hb
  rw [h.toBlock i hi j hj (UInt16.toNat.inj (hto.trans hto'.symm))]

/-! ## Looking up -/

theorem maps_of_lookup {block target : ℕ} (h : bmt.lookup block = some target) :
    bmt.Maps block target := by
  obtain ⟨i, hfind, rfl⟩ := Option.map_eq_some_iff.mp h
  have hmem := List.mem_of_find?_eq_some hfind
  have hfrom := List.find?_some hfind
  rw [List.mem_reverse, List.mem_range] at hmem
  exact ⟨i, hmem, by simpa using hfrom, rfl⟩

theorem of_indexOf {block i : ℕ} (h : bmt.indexOf block = some i) :
    i < bmt.size.toNat ∧ (bmt.entry i).fromBlock.toNat = block := by
  have hmem := List.mem_of_find?_eq_some h
  have hfrom := List.find?_some h
  exact ⟨List.mem_range.mp hmem, by simpa using hfrom⟩

theorem indexOf_eq_none_iff {block : ℕ} :
    bmt.indexOf block = none ↔ ∀ target, ¬ bmt.Maps block target := by
  unfold indexOf Maps
  rw [List.find?_eq_none]
  constructor
  · rintro h target ⟨i, hi, hfrom, -⟩
    have := h i (List.mem_range.mpr hi)
    simp [hfrom] at this
  · intro h i hi
    have := h (bmt.entry i).toBlock.toNat
    simp only [decide_eq_true_eq]
    exact fun hfrom => this ⟨i, List.mem_range.mp hi, hfrom, rfl⟩

/-! ## Changing an entry -/

theorem entry_setEntry {i j : ℕ} {e : Entry} (hi : i < 256) (hj : j < 256) :
    (bmt.setEntry j e).entry i = if i = j then e else bmt.entry i := by
  unfold setEntry entry
  dsimp only
  by_cases hij : i = j
  · subst hij
    rw [if_pos rfl, Function.update_self]
  · have hne : Fin.ofNat 256 i ≠ Fin.ofNat 256 j := by
      intro h
      have := congrArg Fin.val h
      rw [Fin.val_ofNat, Fin.val_ofNat, Nat.mod_eq_of_lt hi, Nat.mod_eq_of_lt hj] at this
      exact hij this
    rw [if_neg hij, Function.update_of_ne hne]

theorem size_lt (bmt : Bmt) : bmt.size.toNat < 256 := bmt.size.toNat_lt

theorem toNat_size_add_one (hsize : bmt.size ≠ 0xff) :
    (bmt.size + 1).toNat = bmt.size.toNat + 1 := by
  have hlt := bmt.size_lt
  have hne : bmt.size.toNat ≠ 255 := fun h => hsize (UInt8.toNat.inj h)
  rw [UInt8.toNat_add]
  exact Nat.mod_eq_of_lt (by change bmt.size.toNat + 1 < 256; omega)

section Remap

variable {block newBlock : ℕ}

/-- What the table has after a block is mapped: an entry in place of the one of the block, or
one more. -/
theorem exists_remap (hsize : bmt.size ≠ 0xff) (hblock : block < 0x10000)
    (hnew : newBlock < 0x10000) :
    ∃ k, k < (bmt.remap block newBlock).size.toNat ∧
      ((bmt.remap block newBlock).entry k).fromBlock.toNat = block ∧
      ((bmt.remap block newBlock).entry k).toBlock.toNat = newBlock ∧
      (∀ i, i < (bmt.remap block newBlock).size.toNat → i ≠ k →
        i < bmt.size.toNat ∧ (bmt.remap block newBlock).entry i = bmt.entry i) ∧
      (∀ i < bmt.size.toNat, i ≠ k → i < (bmt.remap block newBlock).size.toNat) ∧
      (∀ i < bmt.size.toNat, i = k → (bmt.entry i).fromBlock.toNat = block) ∧
      ((∀ i < bmt.size.toNat, i ≠ k) → ∀ i < bmt.size.toNat,
        (bmt.entry i).fromBlock.toNat ≠ block) := by
  have hlt := bmt.size_lt
  unfold remap
  cases hindex : bmt.indexOf block with
  | some k =>
    obtain ⟨hk, hfrom⟩ := of_indexOf hindex
    have hentry : ∀ i < 256, (bmt.setEntry k
        { bmt.entry k with toBlock := UInt16.ofNat newBlock }).entry i =
          if i = k then { bmt.entry k with toBlock := UInt16.ofNat newBlock } else bmt.entry i :=
      fun i hi => entry_setEntry hi (by omega)
    refine ⟨k, hk, ?_, ?_, ?_, fun i hi _ => hi, ?_, fun hne => absurd rfl (hne k hk)⟩
    · rw [hentry k (by omega), if_pos rfl]
      exact hfrom
    · rw [hentry k (by omega), if_pos rfl]
      exact UInt16.toNat_ofNat_of_lt' hnew
    · intro i hi hik
      have hi' : i < bmt.size.toNat := hi
      exact ⟨hi', by rw [hentry i (by omega), if_neg hik]⟩
    · rintro i - rfl
      exact hfrom
  | none =>
    have hsize' := toNat_size_add_one hsize
    have hnone := indexOf_eq_none_iff.mp hindex
    have hentry : ∀ i < 256, (bmt.setEntry bmt.size.toNat
        ⟨UInt16.ofNat block, UInt16.ofNat newBlock⟩).entry i =
          if i = bmt.size.toNat then ⟨UInt16.ofNat block, UInt16.ofNat newBlock⟩
          else bmt.entry i :=
      fun i hi => entry_setEntry hi hlt
    refine ⟨bmt.size.toNat, by dsimp only; omega, ?_, ?_, ?_, fun i hi _ => by dsimp only; omega,
      fun i hi hik => absurd hik (by omega), fun _ i hi hfrom => hnone _ ⟨i, hi, hfrom, rfl⟩⟩
    · have hlast := (hentry _ hlt).trans (if_pos rfl)
      exact (congrArg (fun e => e.fromBlock.toNat) hlast).trans (UInt16.toNat_ofNat_of_lt' hblock)
    · have hlast := (hentry _ hlt).trans (if_pos rfl)
      exact (congrArg (fun e => e.toBlock.toNat) hlast).trans (UInt16.toNat_ofNat_of_lt' hnew)
    · intro i hi hik
      dsimp only at hi
      have hi' : i < bmt.size.toNat := by omega
      exact ⟨hi', (hentry i (by omega)).trans (if_neg hik)⟩

/-- The block is mapped to the new one, and the others stay. -/
theorem maps_remap (h : bmt.Distinct) (hsize : bmt.size ≠ 0xff) (hblock : block < 0x10000)
    (hnew : newBlock < 0x10000) {b p : ℕ} :
    (bmt.remap block newBlock).Maps b p ↔ if b = block then p = newBlock else bmt.Maps b p := by
  obtain ⟨k, hk, hfrom, hto, hothers, hkept, hsame, hfresh⟩ := exists_remap hsize hblock hnew
  split
  case isTrue hb =>
    subst hb
    constructor
    · rintro ⟨i, hi, hfrom', rfl⟩
      by_cases hik : i = k
      · rw [hik, hto]
      · obtain ⟨hi', hentry⟩ := hothers i hi hik
        rw [hentry] at hfrom'
        -- The block had an entry, which is the one that was changed.
        by_cases hex : ∃ j < bmt.size.toNat, j = k
        · obtain ⟨j, hj, rfl⟩ := hex
          have heq := h.fromBlock i hi' j hj (UInt16.toNat.inj (hfrom'.trans (hsame j hj rfl).symm))
          exact absurd heq hik
        · exact absurd hfrom' (hfresh (fun j hj hjk => hex ⟨j, hj, hjk⟩) i hi')
    · rintro rfl
      exact ⟨k, hk, hfrom, hto⟩
  case isFalse hb =>
    constructor
    · rintro ⟨i, hi, hfrom', hto'⟩
      by_cases hik : i = k
      · subst hik
        exact absurd (hfrom'.symm.trans hfrom) hb
      · obtain ⟨hi', hentry⟩ := hothers i hi hik
        rw [hentry] at hfrom' hto'
        exact ⟨i, hi', hfrom', hto'⟩
    · rintro ⟨i, hi, hfrom', hto'⟩
      by_cases hik : i = k
      · exact absurd (hfrom'.symm.trans (hsame i hi hik)) hb
      · have hi' := hkept i hi hik
        refine ⟨i, hi', ?_, ?_⟩
        · rw [(hothers i hi' hik).2]
          exact hfrom'
        · rw [(hothers i hi' hik).2]
          exact hto'

theorem Distinct.remap (h : bmt.Distinct) (hsize : bmt.size ≠ 0xff) (hblock : block < 0x10000)
    (hnew : newBlock < 0x10000) (hunused : ∀ b, ¬ bmt.Maps b newBlock) :
    (bmt.remap block newBlock).Distinct := by
  have hmaps := @maps_remap bmt block newBlock h hsize hblock hnew
  obtain ⟨k, hk, hfrom, hto, hothers, -, -, -⟩ := exists_remap hsize hblock hnew
  have hk_from : ∀ i < (bmt.remap block newBlock).size.toNat, i ≠ k →
      ((bmt.remap block newBlock).entry i).fromBlock.toNat ≠ block := by
    intro i hi hik hfrom'
    obtain ⟨hi', hentry⟩ := hothers i hi hik
    have htarget := hmaps.mp ⟨i, hi, hfrom', rfl⟩
    rw [if_pos rfl, hentry] at htarget
    exact hunused _ ⟨i, hi', rfl, htarget⟩
  have hk_to : ∀ i < (bmt.remap block newBlock).size.toNat, i ≠ k →
      ((bmt.remap block newBlock).entry i).toBlock.toNat ≠ newBlock := by
    intro i hi hik hto'
    obtain ⟨hi', hentry⟩ := hothers i hi hik
    rw [hentry] at hto'
    exact hunused _ ⟨i, hi', rfl, hto'⟩
  constructor
  · intro i hi j hj heq
    by_cases hik : i = k
    · by_cases hjk : j = k
      · exact hik.trans hjk.symm
      · subst hik
        exact absurd ((congrArg UInt16.toNat heq).symm.trans hfrom) (hk_from j hj hjk)
    · by_cases hjk : j = k
      · subst hjk
        exact absurd ((congrArg UInt16.toNat heq).trans hfrom) (hk_from i hi hik)
      · obtain ⟨hi', hei⟩ := hothers i hi hik
        obtain ⟨hj', hej⟩ := hothers j hj hjk
        rw [hei, hej] at heq
        exact h.fromBlock i hi' j hj' heq
  · intro i hi j hj heq
    by_cases hik : i = k
    · by_cases hjk : j = k
      · exact hik.trans hjk.symm
      · subst hik
        exact absurd ((congrArg UInt16.toNat heq).symm.trans hto) (hk_to j hj hjk)
    · by_cases hjk : j = k
      · subst hjk
        exact absurd ((congrArg UInt16.toNat heq).trans hto) (hk_to i hi hik)
      · obtain ⟨hi', hei⟩ := hothers i hi hik
        obtain ⟨hj', hej⟩ := hothers j hj hjk
        rw [hei, hej] at heq
        exact h.toBlock i hi' j hj' heq

end Remap

end OpenWrt.MtkBmt.En75.Bmt
