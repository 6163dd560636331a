/-
# Numbering an interval, the good ones first

The numbers of an interval are counted in order, first those that are not bad and
then the bad ones. A search for the number of a given rank has at most one answer.
Marking a number bad keeps the rank of the good ones before it, and moves the good
ones after it down by one. A function that inverts the rank lists the good numbers of
the interval before the bad ones.
-/

import Mathlib.Data.Nat.Count

namespace OpenWrt.Lib.GoodFirst

variable (bad : ℕ → Bool) (lo hi : ℕ)

/-- The good numbers of the interval before `p`. -/
def goodBefore (p : ℕ) : ℕ := Nat.count (fun i => lo ≤ i ∧ bad i = false) p

/-- The bad numbers of the interval before `p`. -/
def badBefore (p : ℕ) : ℕ := Nat.count (fun i => lo ≤ i ∧ bad i = true) p

/-- The rank of a number of the interval. -/
def rank (p : ℕ) : ℕ :=
  if bad p then goodBefore bad lo hi + badBefore bad lo p else goodBefore bad lo p

variable {bad lo hi}

@[simp]
theorem goodBefore_self : goodBefore bad lo lo = 0 := by
  unfold goodBefore
  rw [Nat.count_iff_forall_not]
  rintro i hi ⟨hlo, -⟩
  omega

@[simp]
theorem badBefore_self : badBefore bad lo lo = 0 := by
  unfold badBefore
  rw [Nat.count_iff_forall_not]
  rintro i hi ⟨hlo, -⟩
  omega

variable {p : ℕ}

theorem goodBefore_succ_of_good (hlo : lo ≤ p) (hgood : bad p = false) :
    goodBefore bad lo (p + 1) = goodBefore bad lo p + 1 := by
  rw [goodBefore, Nat.count_succ, if_pos ⟨hlo, hgood⟩]
  rfl

theorem goodBefore_succ_of_bad (hbad : bad p = true) :
    goodBefore bad lo (p + 1) = goodBefore bad lo p := by
  rw [goodBefore, Nat.count_succ, if_neg (by simp [hbad])]
  rfl

theorem badBefore_succ_of_bad (hlo : lo ≤ p) (hbad : bad p = true) :
    badBefore bad lo (p + 1) = badBefore bad lo p + 1 := by
  rw [badBefore, Nat.count_succ, if_pos ⟨hlo, hbad⟩]
  rfl

theorem badBefore_succ_of_good (hgood : bad p = false) :
    badBefore bad lo (p + 1) = badBefore bad lo p := by
  rw [badBefore, Nat.count_succ, if_neg (by simp [hgood])]
  rfl

theorem goodBefore_mono {p q : ℕ} (h : p ≤ q) : goodBefore bad lo p ≤ goodBefore bad lo q :=
  Nat.count_monotone _ h

theorem goodBefore_lt {p q : ℕ} (hlo : lo ≤ p) (hgood : bad p = false) (h : p < q) :
    goodBefore bad lo p < goodBefore bad lo q :=
  Nat.count_strict_mono ⟨hlo, hgood⟩ h

theorem badBefore_lt {p q : ℕ} (hlo : lo ≤ p) (hbad : bad p = true) (h : p < q) :
    badBefore bad lo p < badBefore bad lo q :=
  Nat.count_strict_mono ⟨hlo, hbad⟩ h

/-- Every number of the interval is good or bad. -/
theorem goodBefore_add_badBefore {p : ℕ} (hlo : lo ≤ p) :
    goodBefore bad lo p + badBefore bad lo p = p - lo := by
  induction p, hlo using Nat.le_induction with
  | base => simp
  | succ p hp ih =>
    cases hbad : bad p with
    | false =>
      rw [goodBefore_succ_of_good hp hbad, badBefore_succ_of_good hbad]
      omega
    | true =>
      rw [goodBefore_succ_of_bad hbad, badBefore_succ_of_bad hp hbad]
      omega

theorem rank_of_good {p : ℕ} (hgood : bad p = false) :
    rank bad lo hi p = goodBefore bad lo p := by
  unfold rank
  rw [if_neg (by simp [hgood])]

theorem rank_of_bad (hbad : bad p = true) :
    rank bad lo hi p = goodBefore bad lo hi + badBefore bad lo p := by
  unfold rank
  rw [if_pos hbad]

theorem rank_lt_iff (hlo : lo ≤ p) (hhi : p < hi) :
    rank bad lo hi p < goodBefore bad lo hi ↔ bad p = false := by
  cases hbad : bad p with
  | false =>
    rw [rank_of_good hbad]
    exact iff_of_true (goodBefore_lt hlo hbad hhi) rfl
  | true =>
    rw [rank_of_bad hbad]
    exact iff_of_false (by omega) (by simp)

/-- A rank belongs to one number only. -/
theorem rank_injective {p q : ℕ} (hp : lo ≤ p) (hp' : p < hi) (hq : lo ≤ q) (hq' : q < hi)
    (h : rank bad lo hi p = rank bad lo hi q) : p = q := by
  have hgood : bad p = false ↔ bad q = false := by
    rw [← rank_lt_iff hp hp', ← rank_lt_iff hq hq', h]
  cases hbp : bad p with
  | false =>
    have hbq := hgood.mp hbp
    rw [rank_of_good hbp, rank_of_good hbq] at h
    exact Nat.count_injective ⟨hp, hbp⟩ ⟨hq, hbq⟩ h
  | true =>
    have hbq : bad q = true := by
      cases hbq : bad q with
      | false => rw [hgood.mpr hbq] at hbp; cases hbp
      | true => rfl
    rw [rank_of_bad hbp, rank_of_bad hbq] at h
    exact Nat.count_injective ⟨hp, hbp⟩ ⟨hq, hbq⟩ (Nat.add_left_cancel h)

/-! ## Marking one number -/

section Mark

variable {mark p : ℕ}

theorem goodBefore_mark_of_le (h : p ≤ mark) :
    goodBefore (Function.update bad mark true) lo p = goodBefore bad lo p := by
  unfold goodBefore
  refine le_antisymm (Nat.count_mono_left fun i hi => ?_) (Nat.count_mono_left fun i hi => ?_) <;>
    rw [Function.update_of_ne (by omega)] <;> exact id

/-- After it there is one good number less. -/
theorem goodBefore_mark_of_lt (hlo : lo ≤ mark) (hgood : bad mark = false) (h : mark < p) :
    goodBefore (Function.update bad mark true) lo p + 1 = goodBefore bad lo p := by
  induction p, Nat.succ_le_of_lt h using Nat.le_induction with
  | base =>
    rw [goodBefore_succ_of_bad (Function.update_self _ _ _), goodBefore_mark_of_le le_rfl,
      goodBefore_succ_of_good hlo hgood]
  | succ q hq ih =>
    have hsame : Function.update bad mark true q = bad q :=
      Function.update_of_ne (by omega) _ _
    have ih := ih (by omega)
    cases hbad : bad q with
    | false =>
      rw [goodBefore_succ_of_good (by omega) (hsame.trans hbad),
        goodBefore_succ_of_good (by omega) hbad]
      omega
    | true =>
      rw [goodBefore_succ_of_bad (hsame.trans hbad), goodBefore_succ_of_bad hbad]
      exact ih

theorem rank_mark_of_lt (hgood : bad p = false) (h : p < mark) :
    rank (Function.update bad mark true) lo hi p = rank bad lo hi p := by
  have hsame : Function.update bad mark true p = bad p := Function.update_of_ne (by omega) _ _
  rw [rank_of_good (hsame.trans hgood), rank_of_good hgood, goodBefore_mark_of_le h.le]

theorem rank_mark_of_gt (hlo : lo ≤ mark) (hmark : bad mark = false) (hgood : bad p = false)
    (h : mark < p) : rank (Function.update bad mark true) lo hi p + 1 = rank bad lo hi p := by
  have hsame : Function.update bad mark true p = bad p := Function.update_of_ne (by omega) _ _
  rw [rank_of_good (hsame.trans hgood), rank_of_good hgood, goodBefore_mark_of_lt hlo hmark h]

/-- The numbers outside the interval do not count. -/
theorem rank_mark_of_outside (h : mark < lo ∨ hi ≤ mark) (hp : p < hi) (hlo : lo ≤ p) :
    rank (Function.update bad mark true) lo hi p = rank bad lo hi p := by
  have hsame : ∀ i, lo ≤ i → i < hi → Function.update bad mark true i = bad i :=
    fun i hi _ => Function.update_of_ne (by omega) _ _
  have hcount : ∀ q ≤ hi, goodBefore (Function.update bad mark true) lo q = goodBefore bad lo q ∧
      badBefore (Function.update bad mark true) lo q = badBefore bad lo q := by
    intro q hq
    unfold goodBefore badBefore
    constructor <;>
      refine le_antisymm (Nat.count_mono_left fun i hi => ?_)
        (Nat.count_mono_left fun i hi => ?_) <;>
      rintro ⟨hi, hbad⟩ <;> refine ⟨hi, ?_⟩ <;> have := hsame i hi (by omega) <;> simp_all
  unfold rank
  rw [hsame p hlo hp, (hcount hi le_rfl).1, (hcount p hp.le).1, (hcount p hp.le).2]

end Mark

/-! ## Shifted numbers -/

theorem goodBefore_shift (p : ℕ) :
    goodBefore (fun i => bad (lo + i)) 0 p = goodBefore bad lo (lo + p) := by
  induction p with
  | zero => simp
  | succ p ih =>
    cases hbad : bad (lo + p) with
    | false =>
      rw [goodBefore_succ_of_good (Nat.zero_le p) hbad, ih, ← Nat.add_assoc,
        goodBefore_succ_of_good (Nat.le_add_right lo p) hbad]
    | true =>
      rw [goodBefore_succ_of_bad (by exact hbad), ih, ← Nat.add_assoc,
        goodBefore_succ_of_bad hbad]

theorem badBefore_shift (p : ℕ) :
    badBefore (fun i => bad (lo + i)) 0 p = badBefore bad lo (lo + p) := by
  induction p with
  | zero => simp
  | succ p ih =>
    cases hbad : bad (lo + p) with
    | false =>
      rw [badBefore_succ_of_good (by exact hbad), ih, ← Nat.add_assoc,
        badBefore_succ_of_good hbad]
    | true =>
      rw [badBefore_succ_of_bad (Nat.zero_le p) hbad, ih, ← Nat.add_assoc,
        badBefore_succ_of_bad (Nat.le_add_right lo p) hbad]

theorem rank_shift (n p : ℕ) :
    rank (fun i => bad (lo + i)) 0 n p = rank bad lo (lo + n) (lo + p) := by
  unfold rank
  rw [goodBefore_shift, goodBefore_shift, badBefore_shift]

theorem goodBefore_eq_zero {p : ℕ} (h : ∀ i, lo ≤ i → i < p → bad i = true) :
    goodBefore bad lo p = 0 := by
  unfold goodBefore
  rw [Nat.count_iff_forall_not]
  rintro i hi ⟨hlo, hgood⟩
  rw [h i hlo hi] at hgood
  cases hgood

theorem goodBefore_eq_sub {p : ℕ} (hlo : lo ≤ p) (h : ∀ i, lo ≤ i → i < p → bad i = false) :
    goodBefore bad lo p = p - lo := by
  induction p, hlo using Nat.le_induction with
  | base => simp
  | succ p hp ih =>
    rw [goodBefore_succ_of_good hp (h p hp (by omega)), ih fun i hi hip => h i hi (by omega)]
    omega

/-! ## The order as a list -/

def goodFirst (bad : ℕ → Bool) (numbers : List ℕ) : List ℕ :=
  numbers.filter (fun i => !bad i) ++ numbers.filter bad

theorem goodFirst_perm (numbers : List ℕ) : (goodFirst bad numbers).Perm numbers := by
  have hperm := List.filter_append_perm bad numbers
  exact List.perm_append_comm.trans hperm

theorem length_filter_good {p : ℕ} (hlo : lo ≤ p) :
    ((List.range' lo (p - lo)).filter fun i => !bad i).length = goodBefore bad lo p := by
  induction p, hlo using Nat.le_induction with
  | base => simp
  | succ p hp ih =>
    have hlast : lo + (p - lo) = p := by omega
    rw [Nat.succ_sub hp, List.range'_1_concat, List.filter_append, List.length_append, ih, hlast]
    cases hbad : bad p with
    | false => rw [goodBefore_succ_of_good hp hbad]; simp [hbad]
    | true => rw [goodBefore_succ_of_bad hbad]; simp [hbad]

theorem length_filter_bad {p : ℕ} (hlo : lo ≤ p) :
    ((List.range' lo (p - lo)).filter bad).length = badBefore bad lo p := by
  induction p, hlo using Nat.le_induction with
  | base => simp
  | succ p hp ih =>
    have hlast : lo + (p - lo) = p := by omega
    rw [Nat.succ_sub hp, List.range'_1_concat, List.filter_append, List.length_append, ih, hlast]
    cases hbad : bad p with
    | false => rw [badBefore_succ_of_good hbad]; simp [hbad]
    | true => rw [badBefore_succ_of_bad hp hbad]; simp [hbad]

/-- A number kept by a filter of an interval stands after those that are kept before it. -/
theorem getElem?_filter_range' {keep : ℕ → Bool} {p : ℕ} (hlo : lo ≤ p) (hhi : p < hi)
    (hkeep : keep p = true) :
    ((List.range' lo (hi - lo)).filter keep)[
      ((List.range' lo (p - lo)).filter keep).length]? = some p := by
  have hsplit : List.range' lo (hi - lo) =
      List.range' lo (p - lo) ++ List.range' p (hi - p) := by
    have happend := List.range'_append_1 (s := lo) (m := p - lo) (n := hi - p)
    rw [show lo + (p - lo) = p by omega, show p - lo + (hi - p) = hi - lo by omega] at happend
    exact happend.symm
  have hnext : List.range' p (hi - p) = p :: List.range' (p + 1) (hi - p - 1) := by
    rw [← List.range'_succ]
    congr 1
    omega
  rw [hsplit, List.filter_append, List.getElem?_append_right le_rfl, Nat.sub_self, hnext,
    List.filter_cons_of_pos hkeep, List.getElem?_cons_zero]

theorem getElem?_goodFirst_rank {p : ℕ} (hlo : lo ≤ p) (hhi : p < hi) :
    (goodFirst bad (List.range' lo (hi - lo)))[rank bad lo hi p]? = some p := by
  unfold goodFirst
  have hle : lo ≤ hi := by omega
  cases hbad : bad p with
  | false =>
    have hat := @getElem?_filter_range' lo hi (fun i => !bad i) p hlo hhi (by simp [hbad])
    rw [length_filter_good hlo] at hat
    rw [rank_of_good hbad, List.getElem?_append_left, hat]
    rw [length_filter_good hle]
    exact goodBefore_lt hlo hbad hhi
  | true =>
    have hat := getElem?_filter_range' hlo hhi hbad
    rw [length_filter_bad hlo] at hat
    rw [rank_of_bad hbad, List.getElem?_append_right, length_filter_good hle,
      Nat.add_sub_cancel_left, hat]
    rw [length_filter_good hle]
    exact Nat.le_add_right _ _

/-- A function lists the good numbers first when it inverts the rank. -/
theorem map_eq_goodFirst_iff {f : ℕ → ℕ} :
    (List.range' lo (hi - lo)).map f = goodFirst bad (List.range' lo (hi - lo)) ↔
      ∀ i, lo ≤ i → i < hi → lo ≤ f i ∧ f i < hi ∧ rank bad lo hi (f i) = i - lo := by
  have hat : ∀ i, lo ≤ i → i < hi →
      ((List.range' lo (hi - lo)).map f)[i - lo]? = some (f i) := by
    intro i hlo hhi
    rw [List.getElem?_map, List.getElem?_range' (by omega), Option.map_some]
    congr 2
    omega
  have hmem : ∀ i, i ∈ List.range' lo (hi - lo) ↔ lo ≤ i ∧ i < hi := by
    intro i
    rw [List.mem_range'_1]
    omega
  constructor
  · intro heq i hlo hhi
    have hvalue := hat i hlo hhi
    rw [heq] at hvalue
    have hin := (hmem _).mp ((goodFirst_perm _).mem_iff.mp (List.mem_of_getElem? hvalue))
    have hnodup : (goodFirst bad (List.range' lo (hi - lo))).Nodup :=
      (goodFirst_perm _).nodup_iff.mpr List.nodup_range'
    refine ⟨hin.1, hin.2, ?_⟩
    have hrank := @getElem?_goodFirst_rank bad lo hi (f i) hin.1 hin.2
    have hlt := (List.getElem?_eq_some_iff.mp hrank).1
    exact (List.getElem?_inj hlt hnodup).mp (hrank.trans hvalue.symm)
  · intro h
    apply List.ext_getElem?
    intro k
    by_cases hk : k < hi - lo
    · obtain ⟨hlow, hhigh, hrank⟩ := h (lo + k) (by omega) (by omega)
      have hk' := hat (lo + k) (by omega) (by omega)
      rw [Nat.add_sub_cancel_left] at hk' hrank
      have hat' := @getElem?_goodFirst_rank bad lo hi _ hlow hhigh
      rw [hrank] at hat'
      rw [hk', hat']
    · rw [List.getElem?_eq_none (by simpa using hk), List.getElem?_eq_none]
      rw [(goodFirst_perm _).length_eq]
      simpa using hk

end OpenWrt.Lib.GoodFirst
