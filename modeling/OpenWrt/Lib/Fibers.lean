/-
# Sizes of fibers

How many points of a finite type a function takes to a value, and what changing the
function at one point does to that.
-/

import Mathlib.Algebra.BigOperators.Group.Finset.Piecewise
import Mathlib.Data.Fintype.Basic

namespace OpenWrt.Lib

universe u v

variable {α : Type u} {β : Type v} [Fintype α] [DecidableEq β]

/-- How many points a function takes to a value. -/
def fiberCard (f : α → β) (b : β) : ℕ := (Finset.univ.filter fun a => f a = b).card

theorem fiberCard_eq_sum (f : α → β) (b : β) :
    fiberCard f b = ∑ a, if f a = b then 1 else 0 := Finset.card_filter _ _

theorem fiberCard_pos (f : α → β) (a : α) : 0 < fiberCard f (f a) :=
  Finset.card_pos.mpr ⟨a, Finset.mem_filter.mpr ⟨Finset.mem_univ a, rfl⟩⟩

theorem fiberCard_eq_zero_iff {f : α → β} {b : β} : fiberCard f b = 0 ↔ ∀ a, f a ≠ b := by
  simp [fiberCard, Finset.filter_eq_empty_iff]

theorem one_lt_fiberCard {f : α → β} {a a' : α} (hne : a ≠ a') (heq : f a = f a') :
    1 < fiberCard f (f a) :=
  Finset.one_lt_card.mpr ⟨a, by simp, a', by simp [heq], hne⟩

/-- Changing a function at one point takes that point out of a fiber and puts it in one. -/
theorem fiberCard_update [DecidableEq α] (f : α → β) (a : α) (b c : β) :
    fiberCard (Function.update f a b) c + (if f a = c then 1 else 0) =
      fiberCard f c + if b = c then 1 else 0 := by
  have hrest : (∑ x ∈ {a}ᶜ, if Function.update f a b x = c then 1 else 0) =
      ∑ x ∈ {a}ᶜ, if f x = c then 1 else 0 := by
    apply Finset.sum_congr rfl
    intro x hx
    rw [Function.update_of_ne (by simpa using hx)]
  rw [fiberCard_eq_sum, fiberCard_eq_sum, Fintype.sum_eq_add_sum_compl a,
    Fintype.sum_eq_add_sum_compl a, hrest, Function.update_self]
  omega

end OpenWrt.Lib
