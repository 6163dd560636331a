/-
# Erasing a pattern from a text

`eraseAll pattern text` removes the occurrences of the pattern in the text, found from the
left and without overlap, as a replacement of a plain string by the empty one does. Two
texts with the same remainder are the same up to insertions and removals of the pattern.
-/

import Mathlib.Data.List.Basic
import Mathlib.Logic.Relation

namespace OpenWrt.Lib

universe u

variable {α : Type u} [DecidableEq α]

/-- The text without the occurrences of the pattern, after `skip` items of an occurrence
that is being removed. -/
def eraseAllFrom (pattern : List α) : Nat → List α → List α
  | _, [] => []
  | skip + 1, _ :: text => eraseAllFrom pattern skip text
  | 0, a :: text =>
    if pattern.isPrefixOf (a :: text) then eraseAllFrom pattern (pattern.length - 1) text
    else a :: eraseAllFrom pattern 0 text

/-- The text without the occurrences of the pattern. -/
def eraseAll (pattern text : List α) : List α :=
  eraseAllFrom pattern 0 text

theorem eraseAllFrom_eq_drop (pattern : List α) (skip : Nat) (text : List α) :
    eraseAllFrom pattern skip text = eraseAll pattern (text.drop skip) := by
  induction text generalizing skip with
  | nil => cases skip <;> rfl
  | cons a text ih =>
    cases skip with
    | zero => rfl
    | succ skip => exact ih skip

variable {pattern : List α}

/-- An occurrence at the front is removed. -/
theorem eraseAll_append (hpattern : pattern ≠ []) (text : List α) :
    eraseAll pattern (pattern ++ text) = eraseAll pattern text := by
  cases pattern with
  | nil => exact absurd rfl hpattern
  | cons a pattern =>
    have hstarts : (a :: pattern).isPrefixOf (a :: (pattern ++ text)) = true := by
      rw [List.isPrefixOf_iff_prefix]
      exact List.prefix_append (a :: pattern) text
    calc eraseAll (a :: pattern) ((a :: pattern) ++ text)
        = eraseAllFrom (a :: pattern) pattern.length (pattern ++ text) := if_pos hstarts
      _ = eraseAll (a :: pattern) ((pattern ++ text).drop pattern.length) :=
          eraseAllFrom_eq_drop ..
      _ = eraseAll (a :: pattern) text := by rw [List.drop_left]

theorem eraseAll_cons_of_differs {a : α} {text : List α} (h : ¬ pattern <+: a :: text) :
    eraseAll pattern (a :: text) = a :: eraseAll pattern text := by
  have hstarts : ¬ pattern.isPrefixOf (a :: text) = true := by
    rwa [List.isPrefixOf_iff_prefix]
  exact if_neg hstarts

theorem eraseAll_append_of_forall_ne {first : α} (front text : List α) (h : ∀ a ∈ front, a ≠ first) :
    eraseAll (first :: pattern) (front ++ text) = front ++ eraseAll (first :: pattern) text := by
  induction front with
  | nil => rfl
  | cons a front ih =>
    have hne : ¬ first :: pattern <+: a :: (front ++ text) := fun hstarts =>
      h a List.mem_cons_self (List.cons_prefix_cons.mp hstarts).1.symm
    rw [List.cons_append, eraseAll_cons_of_differs hne,
      ih fun b hb => h b (List.mem_cons_of_mem _ hb), List.cons_append]

/-- The longer text has the pattern once more than the shorter one. -/
def Inserted (pattern shorter longer : List α) : Prop :=
  ∃ before after, shorter = before ++ after ∧ longer = before ++ pattern ++ after

omit [DecidableEq α] in
theorem Inserted.append_left {pattern shorter longer : List α} (front : List α)
    (h : Inserted pattern shorter longer) :
    Inserted pattern (front ++ shorter) (front ++ longer) := by
  obtain ⟨before, after, rfl, rfl⟩ := h
  exact ⟨front ++ before, after, by simp, by simp⟩

omit [DecidableEq α] in
open Relation in
theorem eqvGen_inserted_append_left (front : List α) {first second : List α}
    (h : EqvGen (Inserted pattern) first second) :
    EqvGen (Inserted pattern) (front ++ first) (front ++ second) := by
  induction h with
  | rel shorter longer hins => exact .rel _ _ (hins.append_left front)
  | refl text => exact .refl _
  | symm first second _ ih => exact .symm _ _ ih
  | trans first second third _ _ ihfirst ihsecond => exact .trans _ _ _ ihfirst ihsecond

open Relation in
/-- Removing the occurrences of a pattern undoes insertions of it. -/
theorem eqvGen_inserted_eraseAll (hpattern : pattern ≠ []) (text : List α) :
    EqvGen (Inserted pattern) (eraseAll pattern text) text := by
  -- the occurrences are found from the left, so the induction is on the length
  induction hlen : text.length using Nat.strongRecOn generalizing text with
  | ind n ih =>
    cases text with
    | nil => exact .refl _
    | cons a text =>
      by_cases hstarts : pattern <+: a :: text
      · obtain ⟨rest, hrest⟩ := hstarts
        have hpos : 0 < pattern.length := List.length_pos_iff.mpr hpattern
        have hshorter : rest.length < n := by
          rw [← hlen, ← hrest, List.length_append]
          omega
        rw [← hrest, eraseAll_append hpattern]
        exact .trans _ _ _ (ih rest.length hshorter rest rfl)
          (.rel _ _ ⟨[], rest, rfl, rfl⟩)
      · have hshorter : text.length < n := by
          rw [← hlen, List.length_cons]
          omega
        rw [eraseAll_cons_of_differs hstarts]
        exact eqvGen_inserted_append_left [a] (ih text.length hshorter text rfl)

end OpenWrt.Lib
