/-
# Interval sets of the packet filter

A set with the flags `interval` and `auto-merge` is filled and emptied by elements
that cover ranges of points. Overlapping and adjacent elements are merged, so
nothing remains of which element a point came from: the set is known by its
points alone. Deleting an element that the set covers cuts its points out;
what an attempt to delete anything else does is left open.
-/

import Mathlib.Data.Set.Insert

namespace OpenWrt.Netfilter

universe up

/-- What the packet filter documents of one interval set. -/
structure IntervalSet (Point : Type up) where
  /-- The contents of the set, as the packet filter keeps them. -/
  State : Type up
  /-- The set matches a point. -/
  Has : State → Point → Prop
  /-- `flush set`. -/
  flush : State → State
  /-- `add element`, the element given by the points it covers. -/
  add : Set Point → State → State
  /-- `delete element`. -/
  delete : Set Point → State → State
  has_flush : ∀ state point, ¬ Has (flush state) point
  has_add : ∀ element state point,
    Has (add element state) point ↔ Has state point ∨ point ∈ element
  has_delete : ∀ element state, (∀ point ∈ element, Has state point) →
    ∀ point, Has (delete element state) point ↔ Has state point ∧ point ∉ element

namespace IntervalSet

variable {Point : Type up} (nft : IntervalSet Point)

/-- One transaction that empties the set and adds the elements in turn. -/
def refill (elements : List (Set Point)) (state : nft.State) : nft.State :=
  elements.foldl (fun state element => nft.add element state) (nft.flush state)

theorem has_foldl_add (elements : List (Set Point)) (state : nft.State) (point : Point) :
    nft.Has (elements.foldl (fun state element => nft.add element state) state) point ↔
      nft.Has state point ∨ ∃ element ∈ elements, point ∈ element := by
  induction elements generalizing state with
  | nil => simp
  | cons element elements ih =>
    simp only [List.foldl_cons, ih, nft.has_add, List.mem_cons, exists_eq_or_imp, or_assoc]

theorem has_refill (elements : List (Set Point)) (state : nft.State) (point : Point) :
    nft.Has (nft.refill elements state) point ↔ ∃ element ∈ elements, point ∈ element := by
  rw [refill, has_foldl_add]
  exact or_iff_right (nft.has_flush state point)

/-- The set of points itself, where a delete that is not covered is refused. -/
def points (Point : Type up) : IntervalSet Point where
  State := Set Point
  Has state point := point ∈ state
  flush _ := ∅
  add element state := state ∪ element
  delete element state := {point | point ∈ state ∧ (element ⊆ state → point ∉ element)}
  has_flush _ point := Set.notMem_empty point
  has_add _ _ _ := Iff.rfl
  has_delete _ _ hcovers _ := ⟨fun h => ⟨h.1, h.2 hcovers⟩, fun h => ⟨h.1, fun _ => h.2⟩⟩

end IntervalSet

end OpenWrt.Netfilter
