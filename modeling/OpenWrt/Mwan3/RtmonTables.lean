/-
# The interface tables against the main table

An interface table is filled twice: by a dump of the main table and, from then on,
by the events of the listener, which are handled some time after the kernel made
the change. The two agree once the events are handled, for the table of one
interface, as long as no broadcast route is held back by the interface's tracker
and the daemon's way of naming a route names no other.

The invariant follows one place of the table. Nothing waits for it, and it holds
what the main table wants there; or the last event that waits for it will put
that there.
-/

import OpenWrt.Lib.Run
import OpenWrt.Mwan3.Rtmon

namespace OpenWrt.Mwan3.Rtmon

open OpenWrt.Lib OpenWrt.Netfilter

variable {family : Family} {nft : IntervalSet (BitVec family.width)}

/-! ## One table -/

/-- The routes of one table, in the order of the dump. -/
def tableOf (t : ℕ) (routes : List (Route family)) : List (Route family) :=
  routes.filter fun r => r.table = t

/-- What a table holds at one place. -/
def slot (key : RouteKey family) (table : List (Route family)) : Option (Route family) :=
  table.find? fun r => r.key = key

def Keyed (table : List (Route family)) : Prop :=
  (table.map Route.key).Nodup

variable {r : Route family} {old : Route family} {fib : Selection family}
  {table : List (Route family)} {key : RouteKey family}

@[simp]
theorem mem_tableOf {t : ℕ} {routes : List (Route family)} :
    r ∈ tableOf t routes ↔ r ∈ routes ∧ r.table = t := by
  simp [tableOf]

theorem tableOf_cons_of_eq {t : ℕ} (h : old.table = t) (routes : List (Route family)) :
    tableOf t (old :: routes) = old :: tableOf t routes := by
  simp [tableOf, h]

theorem tableOf_cons_of_ne {t : ℕ} (h : old.table ≠ t) (routes : List (Route family)) :
    tableOf t (old :: routes) = tableOf t routes := by
  simp [tableOf, h]

theorem replaceRoute_cons_of_same {r old : Route family} (htable : old.table = r.table)
    (hkey : old.key = r.key) (routes : List (Route family)) :
    replaceRoute r (old :: routes) = r :: routes :=
  if_pos ⟨htable, hkey⟩

theorem replaceRoute_cons_of_not {r old : Route family}
    (h : ¬ (old.table = r.table ∧ old.key = r.key)) (routes : List (Route family)) :
    replaceRoute r (old :: routes) = old :: replaceRoute r routes :=
  if_neg h

theorem deleteRoute_cons_of_named {r old : Route family} (htable : old.table = r.table)
    (hnamed : fib.selects r old = true) (routes : List (Route family)) :
    fib.deleteRoute r (old :: routes) = routes :=
  List.eraseP_cons_of_pos (by simp [htable, hnamed])

theorem deleteRoute_cons_of_not {r old : Route family}
    (h : ¬ (old.table = r.table ∧ fib.selects r old = true)) (routes : List (Route family)) :
    fib.deleteRoute r (old :: routes) = old :: fib.deleteRoute r routes :=
  List.eraseP_cons_of_neg (by simpa using h)

theorem tableOf_replaceRoute (t : ℕ) (r : Route family) (routes : List (Route family)) :
    tableOf t (replaceRoute r routes) =
      if r.table = t then replaceRoute r (tableOf t routes) else tableOf t routes := by
  induction routes with
  | nil => by_cases ht : r.table = t <;> simp [replaceRoute, tableOf, ht]
  | cons old routes ih =>
    by_cases hsame : old.table = r.table ∧ old.key = r.key
    · rw [replaceRoute_cons_of_same hsame.1 hsame.2]
      by_cases ht : r.table = t
      · rw [if_pos ht, tableOf_cons_of_eq ht, tableOf_cons_of_eq (hsame.1.trans ht),
          replaceRoute_cons_of_same hsame.1 hsame.2]
      · have hold : old.table ≠ t := fun h => ht (hsame.1.symm.trans h)
        rw [if_neg ht, tableOf_cons_of_ne ht, tableOf_cons_of_ne hold]
    · rw [replaceRoute_cons_of_not hsame]
      by_cases hold : old.table = t
      · rw [tableOf_cons_of_eq hold, tableOf_cons_of_eq hold, ih,
          replaceRoute_cons_of_not hsame]
        split <;> rfl
      · rw [tableOf_cons_of_ne hold, tableOf_cons_of_ne hold, ih]

theorem tableOf_deleteRoute (fib : Selection family) (t : ℕ) (r : Route family)
    (routes : List (Route family)) :
    tableOf t (fib.deleteRoute r routes) =
      if r.table = t then fib.deleteRoute r (tableOf t routes) else tableOf t routes := by
  induction routes with
  | nil => simp [tableOf, Selection.deleteRoute]
  | cons old routes ih =>
    by_cases hnamed : old.table = r.table ∧ fib.selects r old = true
    · rw [deleteRoute_cons_of_named hnamed.1 hnamed.2]
      by_cases ht : r.table = t
      · rw [if_pos ht, tableOf_cons_of_eq (hnamed.1.trans ht),
          deleteRoute_cons_of_named hnamed.1 hnamed.2]
      · have hold : old.table ≠ t := fun h => ht (hnamed.1.symm.trans h)
        rw [if_neg ht, tableOf_cons_of_ne hold]
    · rw [deleteRoute_cons_of_not hnamed]
      by_cases hold : old.table = t
      · rw [tableOf_cons_of_eq hold, tableOf_cons_of_eq hold, ih,
          deleteRoute_cons_of_not hnamed]
        split <;> rfl
      · rw [tableOf_cons_of_ne hold, tableOf_cons_of_ne hold, ih]

/-- A keyed table holds a route exactly when the route is what it holds at its place. -/
theorem Keyed.slot_eq_some_iff (h : Keyed table) :
    slot key table = some r ↔ r ∈ table ∧ r.key = key := by
  constructor
  · intro hslot
    exact ⟨List.mem_of_find?_eq_some hslot, by simpa using List.find?_some hslot⟩
  · rintro ⟨hr, rfl⟩
    cases hslot : slot r.key table with
    | none =>
      have := List.find?_eq_none.mp hslot r hr
      simp at this
    | some other =>
      have hother : other ∈ table := List.mem_of_find?_eq_some hslot
      have hkey : other.key = r.key := by simpa using List.find?_some hslot
      rw [List.inj_on_of_nodup_map h hother hr hkey]

theorem slot_eq_none_iff : slot key table = none ↔ ∀ r ∈ table, r.key ≠ key := by
  simp [slot]

theorem mem_iff_of_slot {first second : List (Route family)} (hfirst : Keyed first)
    (hsecond : Keyed second) (h : ∀ key, slot key first = slot key second)
    (r : Route family) : r ∈ first ↔ r ∈ second := by
  have hat : slot r.key first = some r ↔ slot r.key second = some r := by rw [h]
  rw [hfirst.slot_eq_some_iff, hsecond.slot_eq_some_iff] at hat
  simpa using hat

theorem slot_cons_of_eq (h : old.key = key) (table : List (Route family)) :
    slot key (old :: table) = some old := by
  simp [slot, h]

theorem slot_cons_of_ne (h : old.key ≠ key) (table : List (Route family)) :
    slot key (old :: table) = slot key table := by
  simp [slot, h]

/-- A replaced route is what the table holds at its place; the others stay. -/
theorem slot_replaceRoute (htable : ∀ old ∈ table, old.table = r.table) (key : RouteKey family) :
    slot key (replaceRoute r table) = if r.key = key then some r else slot key table := by
  induction table with
  | nil =>
    split
    case isTrue h => exact slot_cons_of_eq h []
    case isFalse h => exact slot_cons_of_ne h []
  | cons old table ih =>
    have hold : old.table = r.table := htable old List.mem_cons_self
    have ih := ih fun other hother => htable other (List.mem_cons_of_mem _ hother)
    by_cases hkey : old.key = r.key
    · rw [replaceRoute_cons_of_same hold hkey]
      split
      case isTrue h => exact slot_cons_of_eq h table
      case isFalse h => rw [slot_cons_of_ne h, slot_cons_of_ne fun h' => h (hkey ▸ h')]
    · rw [replaceRoute_cons_of_not fun h => hkey h.2]
      by_cases hk : old.key = key
      · have hne : r.key ≠ key := fun h => hkey (hk.trans h.symm)
        rw [slot_cons_of_eq hk, slot_cons_of_eq hk, if_neg hne]
      · rw [slot_cons_of_ne hk, slot_cons_of_ne hk, ih]

theorem mem_replaceRoute {r other : Route family} (h : other ∈ replaceRoute r table) :
    other = r ∨ other ∈ table := by
  induction table with
  | nil => exact Or.inl (List.mem_singleton.mp h)
  | cons old table ih =>
    by_cases hsame : old.table = r.table ∧ old.key = r.key
    · rw [replaceRoute_cons_of_same hsame.1 hsame.2] at h
      exact (List.mem_cons.mp h).imp_right (List.mem_cons_of_mem _)
    · rw [replaceRoute_cons_of_not hsame] at h
      rcases List.mem_cons.mp h with h | h
      · exact Or.inr (h ▸ List.mem_cons_self)
      · exact (ih h).imp_right (List.mem_cons_of_mem _)

theorem Keyed.replaceRoute (h : Keyed table) (htable : ∀ old ∈ table, old.table = r.table) :
    Keyed (replaceRoute r table) := by
  induction table with
  | nil => exact List.nodup_singleton _
  | cons old table ih =>
    have hold : old.table = r.table := htable old List.mem_cons_self
    have ih := ih (List.nodup_cons.mp h).2 fun other hother =>
      htable other (List.mem_cons_of_mem _ hother)
    by_cases hkey : old.key = r.key
    · rw [replaceRoute_cons_of_same hold hkey]
      simpa [Keyed, hkey] using h
    · rw [replaceRoute_cons_of_not fun hsame => hkey hsame.2]
      refine List.nodup_cons.mpr ⟨?_, ih⟩
      intro hmem
      obtain ⟨other, hother, hotherkey⟩ := List.mem_map.mp hmem
      rcases mem_replaceRoute hother with rfl | hin
      · exact hkey hotherkey.symm
      · exact (List.nodup_cons.mp h).1 (hotherkey ▸ List.mem_map_of_mem hin)

theorem Keyed.deleteRoute (h : Keyed table) (fib : Selection family) (r : Route family) :
    Keyed (fib.deleteRoute r table) :=
  h.sublist (List.eraseP_sublist.map _)

/-- A delete request that names only routes of its own place leaves the others, and takes
what it names there. -/
theorem Keyed.slot_deleteRoute (h : Keyed table)
    (hnamed : ∀ old ∈ table, fib.selects r old = true → old.key = r.key)
    (htable : ∀ old ∈ table, old.table = r.table) (key : RouteKey family) :
    slot key (fib.deleteRoute r table) =
      if key = r.key ∧ (slot key table).any (fib.selects r) then none else slot key table := by
  induction table with
  | nil => simp [slot, Selection.deleteRoute]
  | cons old table ih =>
    have hold : old.table = r.table := htable old List.mem_cons_self
    have ih := ih (List.nodup_cons.mp h).2
      (fun other hother => hnamed other (List.mem_cons_of_mem _ hother))
      fun other hother => htable other (List.mem_cons_of_mem _ hother)
    by_cases hsel : fib.selects r old = true
    · have hkey : old.key = r.key := hnamed old List.mem_cons_self hsel
      rw [deleteRoute_cons_of_named hold hsel]
      by_cases hk : key = r.key
      · have hrest : slot key table = none := by
          rw [slot_eq_none_iff]
          intro other hother hotherkey
          refine (List.nodup_cons.mp h).1 (List.mem_map.mpr ⟨other, hother, ?_⟩)
          rw [hotherkey, hk, hkey]
        rw [hrest, slot_cons_of_eq (hkey.trans hk.symm), if_pos ⟨hk, by simpa using hsel⟩]
      · rw [slot_cons_of_ne fun h' => hk (h'.symm.trans hkey), if_neg fun h' => hk h'.1]
    · rw [deleteRoute_cons_of_not fun h' => hsel h'.2]
      by_cases hk : old.key = key
      · rw [slot_cons_of_eq hk, slot_cons_of_eq hk, if_neg]
        rintro ⟨-, hany⟩
        exact hsel (by simpa using hany)
      · rw [slot_cons_of_ne hk, slot_cons_of_ne hk, ih]

end OpenWrt.Mwan3.Rtmon
