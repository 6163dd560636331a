/-
# Tables that are searched place by place

A table of limited size keeps the entry of a key in one of the places that belong to the
key, and these are searched in a fixed order. It is a map as long as every entry lies in
a place of its key and no key has two. Putting an entry keeps this when no entry of the
key is hidden behind a free place, for then the first place that is free or the key's own
is the only one to hold the key.
-/

import Mathlib.Tactic.Common

namespace OpenWrt.Lib.Probe

universe us uk uv

variable {σ : Type us} {κ : Type uk} {ν : Type uv}

/-- What each place holds. -/
abbrev Table (σ : Type us) (κ : Type uk) (ν : Type uv) := σ → Option (κ × ν)

/-- The place holds an entry of the key. -/
def Holds (t : Table σ κ ν) (k : κ) (s : σ) : Prop := ∃ v, t s = some (k, v)

/-- Every entry lies in one of the `n` places of its key, and no key has two entries. -/
structure Sound (probe : κ → ℕ → σ) (n : ℕ) (t : Table σ κ ν) : Prop where
  unique : ∀ k s s', Holds t k s → Holds t k s' → s = s'
  homed : ∀ k s, Holds t k s → ∃ i < n, probe k i = s

/-- The first of the places of the key that is free or holds the key. -/
structure First (probe : κ → ℕ → σ) (n : ℕ) (t : Table σ κ ν) (k : κ) (i : ℕ) : Prop where
  lt : i < n
  before : ∀ j < i, t (probe k j) ≠ none ∧ ¬ Holds t k (probe k j)
  here : t (probe k i) = none ∨ Holds t k (probe k i)

/-- No entry of the key lies behind a free place. -/
def InFront (probe : κ → ℕ → σ) (n : ℕ) (t : Table σ κ ν) (k : κ) : Prop :=
  ∀ i < n, Holds t k (probe k i) → ∀ j < i, t (probe k j) ≠ none

/-- The table with one place changed. -/
def put [DecidableEq σ] (t : Table σ κ ν) (s : σ) (x : Option (κ × ν)) : Table σ κ ν :=
  fun s' => if s' = s then x else t s'

variable {probe : κ → ℕ → σ} {n : ℕ} {t : Table σ κ ν} {k : κ}

/-- Where no entry is hidden, the place that the search finds is the only one that may
hold the key. -/
theorem First.eq_of_holds {i : ℕ} (hfirst : First probe n t k i) (hsound : Sound probe n t)
    (hfront : InFront probe n t k) {s : σ} (hs : Holds t k s) : s = probe k i := by
  obtain ⟨j, hj, rfl⟩ := hsound.homed k s hs
  rcases Nat.lt_trichotomy j i with hlt | rfl | hgt
  · exact absurd hs (hfirst.before j hlt).2
  · rfl
  · rcases hfirst.here with hfree | hown
    · exact absurd hfree (hfront j hj hs i hgt)
    · exact hsound.unique k _ _ hs hown

/-- A loop that stops where it should end, and goes on elsewhere with whatever it carries,
stops at the first such place below its bound, or nowhere. -/
theorem search_cases {α : Type*} {ε : Type*} (go : ℕ → ℕ → ε → Option α × ε) (Ends : ℕ → Prop)
    (value : ℕ → α) {bound : ℕ} (hzero : ∀ i e, (go 0 i e).1 = none)
    (hstop : ∀ left i e, i < bound → Ends i → (go (left + 1) i e).1 = some (value i))
    (hgo : ∀ left i e, i < bound → ¬ Ends i → ∃ e', go (left + 1) i e = go left (i + 1) e')
    (left i : ℕ) (hbound : i + left = bound) (e : ε) :
    (∃ j < bound, i ≤ j ∧ (∀ j', i ≤ j' → j' < j → ¬ Ends j') ∧ Ends j ∧
      (go left i e).1 = some (value j)) ∨
    ((∀ j < bound, i ≤ j → ¬ Ends j) ∧ (go left i e).1 = none) := by
  induction left generalizing i e with
  | zero => exact .inr ⟨fun j hj hij => absurd hj (by omega), hzero i e⟩
  | succ left ih =>
    have hi : i < bound := by omega
    by_cases hends : Ends i
    · exact .inl ⟨i, hi, Nat.le_refl i, fun j' hij hj => absurd hj (by omega), hends,
        hstop left i e hi hends⟩
    · obtain ⟨e', hnext⟩ := hgo left i e hi hends
      rw [hnext]
      have hlater : ∀ j, i ≤ j → (i + 1 ≤ j → ¬ Ends j) → ¬ Ends j := by
        intro j hij hj
        rcases Nat.eq_or_lt_of_le hij with rfl | hlt
        · exact hends
        · exact hj hlt
      rcases ih (i + 1) (by omega) e' with ⟨j, hj, hij, hbefore, hhere, hres⟩ | ⟨hall, hres⟩
      · exact .inl ⟨j, hj, by omega,
          fun j' hij' hj' => hlater j' hij' fun h => hbefore j' h hj', hhere, hres⟩
      · exact .inr ⟨fun j hj hij => hlater j hij fun h => hall j hj h, hres⟩

section Put

variable [DecidableEq σ]

@[simp]
theorem put_self (s : σ) (x : Option (κ × ν)) : put t s x s = x := if_pos rfl

theorem put_of_ne {s s' : σ} (h : s' ≠ s) (x : Option (κ × ν)) : put t s x s' = t s' := if_neg h

/-- Changing a place that is free or the key's own does not touch the entries of others. -/
theorem put_eq_some_iff_of_ne {s s' : σ} {k' : κ} {v : ν} {x : Option (κ × ν)} (hne : k' ≠ k)
    (hplace : t s = none ∨ Holds t k s) (hx : ∀ e ∈ x, e.1 = k) :
    put t s x s' = some (k', v) ↔ t s' = some (k', v) := by
  by_cases hs : s' = s
  · subst hs
    rw [put_self]
    refine ⟨fun h => absurd (hx _ h) hne, fun h => ?_⟩
    rcases hplace with hfree | ⟨w, hown⟩
    · rw [hfree] at h
      cases h
    · rw [hown] at h
      cases h
      exact absurd rfl hne
  · rw [put_of_ne hs]

/-- Putting an entry of the key in the only place that may hold it keeps the table sound. -/
theorem Sound.put_insert (hsound : Sound probe n t) {i : ℕ} (hi : i < n)
    (hplace : t (probe k i) = none ∨ Holds t k (probe k i))
    (honly : ∀ s, Holds t k s → s = probe k i) (v : ν) :
    Sound probe n (put t (probe k i) (some (k, v))) := by
  have hself : ∀ s, Holds (put t (probe k i) (some (k, v))) k s → s = probe k i := by
    rintro s ⟨w, hw⟩
    by_contra hs
    rw [put_of_ne hs] at hw
    exact hs (honly s ⟨w, hw⟩)
  have hother : ∀ k' s, k' ≠ k → Holds (put t (probe k i) (some (k, v))) k' s → Holds t k' s := by
    rintro k' s hne ⟨w, hw⟩
    exact ⟨w, (put_eq_some_iff_of_ne hne hplace (by simp)).mp hw⟩
  constructor
  · intro k' s s' hs hs'
    by_cases hne : k' = k
    · subst hne
      rw [hself s hs, hself s' hs']
    · exact hsound.unique k' s s' (hother k' s hne hs) (hother k' s' hne hs')
  · intro k' s hs
    by_cases hne : k' = k
    · subst hne
      exact ⟨i, hi, (hself s hs).symm⟩
    · exact hsound.homed k' s (hother k' s hne hs)

/-- Freeing a place keeps the table sound. -/
theorem Sound.put_none (hsound : Sound probe n t) (s : σ) : Sound probe n (put t s none) := by
  have hkeep : ∀ k' s', Holds (put t s none) k' s' → Holds t k' s' := by
    rintro k' s' ⟨w, hw⟩
    by_cases hs : s' = s
    · subst hs
      rw [put_self] at hw
      cases hw
    · rw [put_of_ne hs] at hw
      exact ⟨w, hw⟩
  constructor
  · exact fun k' a b ha hb => hsound.unique k' a b (hkeep k' a ha) (hkeep k' b hb)
  · exact fun k' a ha => hsound.homed k' a (hkeep k' a ha)

theorem Sound.not_holds_put_none (hsound : Sound probe n t) {s : σ} (hs : Holds t k s) (s' : σ) :
    ¬ Holds (put t s none) k s' := by
  rintro ⟨w, hw⟩
  by_cases heq : s' = s
  · subst heq
    rw [put_self] at hw
    cases hw
  · rw [put_of_ne heq] at hw
    exact heq (hsound.unique k s' s ⟨w, hw⟩ hs)

end Put

end OpenWrt.Lib.Probe
