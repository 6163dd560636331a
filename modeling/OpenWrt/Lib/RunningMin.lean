/-
# Collecting the items of least key in one pass

A loop goes through a list and keeps the items of the least key it has met: an item
of a lower key replaces what was collected, one of the same key joins it, others are
passed over. It starts with a bound instead of a key. What it ends with are the items
of the list with the least key, in order.
-/

import Mathlib.Data.List.Induction
import Mathlib.Order.Lattice

namespace OpenWrt.Lib.RunningMin

variable {α κ : Type} [LinearOrder κ] (key : α → κ)

/-- What the loop keeps. -/
structure Best (α κ : Type) where
  least : κ
  items : List α

/-- The loop's turn for one item. -/
def enter (best : Best α κ) (a : α) : Best α κ :=
  if key a < best.least then ⟨key a, [a]⟩
  else if key a = best.least then { best with items := best.items ++ [a] }
  else best

def minimal (items : List α) : List α :=
  items.filter fun a => items.all fun b => decide (key a ≤ key b)

variable {key}

/-- The loop after some items. -/
structure Collected (key : α → κ) (bound : κ) (entered : List α) (best : Best α κ) : Prop where
  le : ∀ a ∈ entered, best.least ≤ key a
  attained : entered = [] ∧ best.least = bound ∨ ∃ a ∈ entered, key a = best.least
  items : best.items = entered.filter fun a => decide (key a = best.least)

theorem Collected.enter {bound : κ} {entered : List α} {best : Best α κ}
    (h : Collected key bound entered best) {a : α} (ha : key a ≤ bound) :
    Collected key bound (entered ++ [a]) (enter key best a) := by
  unfold RunningMin.enter
  rcases lt_trichotomy (key a) best.least with hlt | heq | hgt
  · rw [if_pos hlt]
    refine ⟨fun b hb => ?_, .inr ⟨a, by simp, rfl⟩, ?_⟩
    · rcases List.mem_append.mp hb with hb | hb
      · exact hlt.le.trans (h.le b hb)
      · rw [List.mem_singleton.mp hb]
    · have hnone : entered.filter (fun b => decide (key b = key a)) = [] := by
        refine List.filter_eq_nil_iff.mpr fun b hb heq => ?_
        have hle := h.le b hb
        rw [of_decide_eq_true heq] at hle
        exact absurd hlt (not_lt.mpr hle)
      rw [List.filter_append, hnone]
      simp
  · rw [if_neg heq.not_lt, if_pos heq]
    refine ⟨fun b hb => ?_, .inr ⟨a, by simp, heq⟩, ?_⟩
    · rcases List.mem_append.mp hb with hb | hb
      · exact h.le b hb
      · rw [List.mem_singleton.mp hb, heq]
    · rw [List.filter_append, ← h.items, List.filter_cons_of_pos (by simpa using heq),
        List.filter_nil]
  · rw [if_neg hgt.not_gt, if_neg hgt.ne']
    rcases h.attained with ⟨-, hbound⟩ | ⟨b, hb, hkey⟩
    · rw [hbound] at hgt
      exact absurd hgt (not_lt.mpr ha)
    · refine ⟨fun c hc => ?_, .inr ⟨b, List.mem_append_left _ hb, hkey⟩, ?_⟩
      · rcases List.mem_append.mp hc with hc | hc
        · exact h.le c hc
        · rw [List.mem_singleton.mp hc]
          exact hgt.le
      · rw [List.filter_append, ← h.items, List.filter_cons_of_neg (by simpa using hgt.ne'),
          List.filter_nil, List.append_nil]

theorem collected_foldl {bound : κ} {items : List α} (h : ∀ a ∈ items, key a ≤ bound) :
    Collected key bound items (items.foldl (enter key) ⟨bound, []⟩) := by
  induction items using List.reverseRecOn with
  | nil => exact ⟨fun _ ha => absurd ha List.not_mem_nil, .inl ⟨rfl, rfl⟩, rfl⟩
  | append_singleton items a ih =>
    rw [List.foldl_append, List.foldl_cons, List.foldl_nil]
    refine (ih fun b hb => h b (List.mem_append_left _ hb)).enter ?_
    exact h a (by simp)

/-- The items that are kept are those of the least key. -/
theorem Collected.items_eq {bound : κ} {entered : List α} {best : Best α κ}
    (h : Collected key bound entered best) : best.items = minimal key entered := by
  rw [h.items, minimal]
  refine List.filter_congr fun a ha => ?_
  rw [Bool.eq_iff_iff, decide_eq_true_iff, List.all_eq_true]
  constructor
  · intro hleast b hb
    exact decide_eq_true (hleast.le.trans (h.le b hb))
  · intro hall
    rcases h.attained with ⟨hnil, -⟩ | ⟨b, hb, hkey⟩
    · rw [hnil] at ha
      exact absurd ha List.not_mem_nil
    · have hle : key a ≤ key b := of_decide_eq_true (hall b hb)
      exact le_antisymm (hle.trans hkey.le) (h.le a ha)

theorem items_foldl {bound : κ} {items : List α} (h : ∀ a ∈ items, key a ≤ bound) :
    (items.foldl (enter key) ⟨bound, []⟩).items = minimal key items :=
  (collected_foldl h).items_eq

end OpenWrt.Lib.RunningMin
