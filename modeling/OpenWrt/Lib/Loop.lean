/-
# Loops that may not end

A round of a loop either goes on in a new state or is done. The loop ends when some
number of rounds suffices. A measure that every round lowers bounds that number; a
set of states that no round leaves shows that there is none.
-/

import Mathlib.Data.Finset.Card
import Mathlib.Data.Nat.Find

namespace OpenWrt.Lib.Loop

variable {α β : Type*}

/-- What at most `n` rounds come to: the state in which the next round starts, or the
result. -/
def after (round : α → α ⊕ β) : ℕ → α → α ⊕ β
  | 0, x => .inl x
  | n + 1, x =>
    match round x with
    | .inl y => after round n y
    | .inr z => .inr z

/-- Some number of rounds suffices. -/
def Ends (round : α → α ⊕ β) (x : α) : Prop := ∃ n z, after round n x = .inr z

/-- The states in which a round starts. -/
inductive Reaches (round : α → α ⊕ β) : α → α → Prop
  | refl (x : α) : Reaches round x x
  | next {x y z : α} (hround : round x = .inl y) (hrest : Reaches round y z) : Reaches round x z

variable {round : α → α ⊕ β} {x y : α}

theorem after_succ_of_inl (n : ℕ) (h : round x = .inl y) :
    after round (n + 1) x = after round n y := by
  simp only [after, h]

theorem after_succ_of_inr {z : β} (n : ℕ) (h : round x = .inr z) :
    after round (n + 1) x = .inr z := by
  simp only [after, h]

/-- Once there is a result, more rounds do not change it. -/
theorem after_of_le {n k : ℕ} {z : β} (h : after round n x = .inr z) (hle : n ≤ k) :
    after round k x = .inr z := by
  induction n generalizing x k with
  | zero => cases h
  | succ n ih =>
    obtain ⟨k, rfl⟩ := Nat.exists_eq_add_of_le' hle
    cases hround : round x with
    | inr z' =>
      rw [after_succ_of_inr n hround] at h
      rw [Nat.add_succ, after_succ_of_inr _ hround]
      exact h
    | inl y =>
      rw [after_succ_of_inl n hround] at h
      rw [Nat.add_succ, after_succ_of_inl _ hround]
      exact ih h (Nat.le_add_left n k)

theorem ends_of_inr {z : β} (h : round x = .inr z) : Ends round x :=
  ⟨1, z, after_succ_of_inr 0 h⟩

theorem ends_iff_of_inl (h : round x = .inl y) : Ends round x ↔ Ends round y := by
  constructor
  · rintro ⟨n, z, hn⟩
    cases n with
    | zero => cases hn
    | succ n => exact ⟨n, z, (after_succ_of_inl n h).symm.trans hn⟩
  · rintro ⟨n, z, hn⟩
    exact ⟨n + 1, z, (after_succ_of_inl n h).trans hn⟩

theorem Reaches.invariant {P : α → Prop} (hstep : ∀ x y, P x → round x = .inl y → P y)
    (h : Reaches round x y) (hx : P x) : P y := by
  induction h with
  | refl => exact hx
  | next hround _ ih => exact ih (hstep _ _ hx hround)

/-- A loop ends whose rounds go down in a well-founded order. -/
theorem ends_of_wellFounded {γ : Type*} {r : γ → γ → Prop} (hwf : WellFounded r) (P : α → Prop)
    (measure : α → γ) (hx : P x)
    (hstep : ∀ x y, P x → round x = .inl y → P y ∧ r (measure y) (measure x)) : Ends round x := by
  induction hm : measure x using hwf.induction generalizing x with
  | _ m ih =>
    cases hround : round x with
    | inr z => exact ends_of_inr hround
    | inl y =>
      obtain ⟨hy, hlt⟩ := hstep x y hx hround
      apply (ends_iff_of_inl hround).mpr
      exact ih (measure y) (hm ▸ hlt) hy rfl

theorem ends_of_measure (P : α → Prop) (measure : α → ℕ) (hx : P x)
    (hstep : ∀ x y, P x → round x = .inl y → P y ∧ measure y < measure x) : Ends round x :=
  ends_of_wellFounded Nat.lt_wfRel.wf P measure hx hstep

theorem Reaches.ends_iff (h : Reaches round x y) : Ends round x ↔ Ends round y := by
  induction h with
  | refl => rfl
  | next hround _ ih => exact (ends_iff_of_inl hround).trans ih

theorem Reaches.trans {z : α} (h : Reaches round x y) (h' : Reaches round y z) :
    Reaches round x z := by
  induction h with
  | refl => exact h'
  | next hround _ ih => exact .next hround (ih h')

/-- A result comes from a last round. -/
theorem exists_last {n : ℕ} {z : β} (h : after round n x = .inr z) :
    ∃ y, Reaches round x y ∧ round y = .inr z := by
  induction n generalizing x with
  | zero => cases h
  | succ n ih =>
    cases hround : round x with
    | inr z' =>
      rw [after_succ_of_inr n hround] at h
      exact ⟨x, .refl x, hround.trans h⟩
    | inl y =>
      rw [after_succ_of_inl n hround] at h
      obtain ⟨last, hreach, hlast⟩ := ih h
      exact ⟨last, .next hround hreach, hlast⟩

theorem not_ends_of_stays (P : α → Prop) (hx : P x)
    (hstep : ∀ x, P x → ∃ y, round x = .inl y ∧ P y) : ¬ Ends round x := by
  rintro ⟨n, z, hn⟩
  induction n generalizing x with
  | zero => cases hn
  | succ n ih =>
    obtain ⟨y, hround, hy⟩ := hstep x hx
    exact ih hy ((after_succ_of_inl n hround).symm.trans hn)

theorem Reaches.exists_after {z : β} (h : Reaches round x y) (hlast : round y = .inr z) :
    ∃ n, after round n x = .inr z := by
  induction h with
  | refl => exact ⟨1, after_succ_of_inr 0 hlast⟩
  | next hround _ ih =>
    obtain ⟨n, hn⟩ := ih hlast
    exact ⟨n + 1, (after_succ_of_inl n hround).trans hn⟩

/-! ## Rounds that may fault -/

section Checked

variable {ε κ : Type*} {round : α → α ⊕ Except ε β} {key : α → κ} {next : κ → κ → Prop}
  {ok : κ → Prop} {x : α}

/-- What a round does is told by a part of the state: it faults where that is not right, and where
it goes on that part is the next one. -/
structure Follows (round : α → α ⊕ Except ε β) (key : α → κ) (next : κ → κ → Prop)
    (ok : κ → Prop) : Prop where
  fault : ∀ x, ¬ ok (key x) → ∃ e, round x = .inr (.error e)
  round : ∀ x, ok (key x) → (∃ b, round x = .inr (.ok b) ∧ ∀ k, ¬ next (key x) k) ∨
    ∃ y, round x = .inl y ∧ ∀ k, next (key x) k ↔ k = key y

theorem Follows.of_after (h : Follows round key next ok) {n : ℕ} {b : β}
    (hn : after round n x = .inr (.ok b)) {k : κ} (hk : Relation.ReflTransGen next (key x) k) :
    ok k ∧ ¬ Relation.TransGen next k k := by
  induction n generalizing x with
  | zero => cases hn
  | succ n ih =>
    have hok : ok (key x) := by
      by_contra hnot
      obtain ⟨e, he⟩ := h.fault x hnot
      rw [after_succ_of_inr n he] at hn
      cases hn
    rcases h.round x hok with ⟨b', -, hlast⟩ | ⟨y, hround, hnext⟩
    · have heq : k = key x := by
        rcases hk.cases_head with heq | ⟨k', hk', -⟩
        · exact heq.symm
        · exact absurd hk' (hlast k')
      subst heq
      refine ⟨hok, fun hcycle => ?_⟩
      obtain ⟨k', hk', -⟩ := Relation.TransGen.head'_iff.mp hcycle
      exact hlast k' hk'
    · rw [after_succ_of_inl n hround] at hn
      rcases hk.cases_head with heq | ⟨k', hk', hrest⟩
      · subst heq
        refine ⟨hok, fun hcycle => ?_⟩
        obtain ⟨k', hk', hrest⟩ := Relation.TransGen.head'_iff.mp hcycle
        rw [(hnext k').mp hk'] at hrest
        exact (ih hn hrest).2 hcycle
      · rw [(hnext k').mp hk'] at hrest
        exact ih hn hrest

theorem Follows.of_reaches (h : Follows round key next ok) {y : α} (hy : Reaches round x y) :
    Relation.ReflTransGen next (key x) (key y) := by
  induction hy with
  | refl => exact .refl
  | @next x y z hround _ ih =>
    refine .head ?_ ih
    by_cases hok : ok (key x)
    · rcases h.round x hok with ⟨b, hlast, -⟩ | ⟨y', hround', hnext⟩
      · rw [hround] at hlast
        cases hlast
      · rw [hround] at hround'
        cases hround'
        exact (hnext (key y)).mpr rfl
    · obtain ⟨e, he⟩ := h.fault x hok
      rw [hround] at he
      cases he

theorem Follows.reaches (h : Follows round key next ok) {k : κ}
    (hok : ∀ k, Relation.ReflTransGen next (key x) k → ok k)
    (hk : Relation.ReflTransGen next (key x) k) : ∃ y, Reaches round x y ∧ key y = k := by
  induction hk with
  | refl => exact ⟨x, .refl x, rfl⟩
  | tail hfirst hlast ih =>
    obtain ⟨y, hreach, rfl⟩ := ih
    rcases h.round y (hok _ hfirst) with ⟨b, -, hnone⟩ | ⟨z, hround, hnext⟩
    · exact absurd hlast (hnone _)
    · exact ⟨z, hreach.trans (.next hround (.refl z)), ((hnext _).mp hlast).symm⟩

/-- Over finitely many parts such a loop returns where each that it comes to is right, and none
comes back. -/
theorem Follows.returns_iff (h : Follows round key next ok) (S : Finset κ)
    (hS : ∀ k, Relation.ReflTransGen next (key x) k → k ∈ S) :
    (∃ n b, after round n x = .inr (.ok b)) ↔
      ∀ k, Relation.ReflTransGen next (key x) k → ok k ∧ ¬ Relation.TransGen next k k := by
  classical
  constructor
  · rintro ⟨n, b, hn⟩ k hk
    exact h.of_after hn hk
  · intro hall
    -- the parts that are still to come become fewer
    have hends : Ends round x := by
      refine ends_of_measure (fun y => Relation.ReflTransGen next (key x) (key y))
        (fun y => (S.filter fun k => Relation.ReflTransGen next (key y) k).card) .refl ?_
      intro y z hy hround
      have hnext : next (key y) (key z) := by
        rcases h.round y (hall _ hy).1 with ⟨b, hlast, -⟩ | ⟨z', hround', hnext⟩
        · rw [hround] at hlast
          cases hlast
        · rw [hround] at hround'
          cases hround'
          exact (hnext (key z)).mpr rfl
      refine ⟨hy.tail hnext, Finset.card_lt_card (Finset.ssubset_iff_of_subset ?_ |>.mpr ?_)⟩
      · intro k hk
        obtain ⟨hmem, hreach⟩ := Finset.mem_filter.mp hk
        exact Finset.mem_filter.mpr ⟨hmem, .head hnext hreach⟩
      · refine ⟨key y, Finset.mem_filter.mpr ⟨hS _ hy, .refl⟩, fun hback => ?_⟩
        exact (hall _ hy).2 (.head' hnext (Finset.mem_filter.mp hback).2)
    obtain ⟨n, z, hn⟩ := hends
    obtain ⟨y, hreach, hlast⟩ := exists_last hn
    rcases h.round y (hall _ (h.of_reaches hreach)).1 with ⟨b, hb, -⟩ | ⟨y', hround, -⟩
    · rw [hlast] at hb
      exact ⟨n, b, hn.trans hb⟩
    · rw [hlast] at hround
      cases hround

end Checked

/-! ## Waiting -/

open Classical in
/-- How long it is from `n` on until the property holds; a measure for rounds that try again. -/
noncomputable def wait (P : ℕ → Prop) (n : ℕ) : ℕ :=
  if h : ∃ k, n ≤ k ∧ P k then Nat.find h - n else 0

theorem wait_succ_lt {P : ℕ → Prop} {n : ℕ} (hn : ¬ P n) (h : ∃ k, n ≤ k ∧ P k) :
    wait P (n + 1) < wait P n := by
  classical
  have hspec := Nat.find_spec h
  have hne : Nat.find h ≠ n := fun heq => hn (heq ▸ hspec.2)
  have hlater : ∃ k, n + 1 ≤ k ∧ P k := ⟨Nat.find h, by omega, hspec.2⟩
  have hle : Nat.find hlater ≤ Nat.find h := Nat.find_min' hlater ⟨by omega, hspec.2⟩
  unfold wait
  rw [dif_pos h, dif_pos hlater]
  omega

end OpenWrt.Lib.Loop
