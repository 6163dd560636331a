/-
# The running BSSs of an interface

The interface has a list of running BSSs, each with a handle that the scripts hold and with
a name. Deleting, renaming, adding and ordering them follow the functions of the daemon;
whether the driver takes a change is left open. The renames are kept for the record, each
with the names that were in use at that moment.
-/

import Mathlib.Data.List.Nodup

namespace OpenWrt.Hostapd

/-- A running BSS. -/
structure RunningBss where
  handle : ℕ
  name : String
deriving DecidableEq

/-- A rename that was made. -/
structure Rename where
  /-- The names of the running BSSs at that moment. -/
  used : List String
  target : String

/-- What the driver takes. -/
structure Driver where
  rename : List RunningBss → ℕ → String → Bool
  addBss : List RunningBss → ℕ → Bool
  setConfig : ℕ → Bool

/-- An interface with its BSSs. -/
structure Iface where
  bss : List RunningBss
  /-- The handle that the next BSS gets. -/
  next : ℕ
  renames : List Rename
  nodup : (bss.map RunningBss.handle).Nodup
  fresh : ∀ entry ∈ bss, entry.handle < next

namespace Iface

/-- The BSS of that name in `hostapd.bss`: of several the last one. -/
def find (iface : Iface) (name : String) : Option ℕ :=
  (iface.bss.reverse.find? fun bss => bss.name = name).map RunningBss.handle

def names (iface : Iface) : List String :=
  iface.bss.map RunningBss.name

def handles (iface : Iface) : List ℕ :=
  iface.bss.map RunningBss.handle

/-- `bss.delete`: the last BSS is not deleted. -/
def delete (iface : Iface) (handle : ℕ) : Iface :=
  if iface.bss.length = 1 then iface
  else
    { iface with
      bss := iface.bss.filter fun bss => bss.handle ≠ handle
      nodup := iface.nodup.sublist (List.filter_sublist.map _)
      fresh := fun entry hentry => iface.fresh entry (List.mem_of_mem_filter hentry) }

def renamed (handle : ℕ) (name : String) (bss : RunningBss) : RunningBss :=
  if bss.handle = handle then { bss with name } else bss

@[simp]
theorem handle_renamed (handle : ℕ) (name : String) (bss : RunningBss) :
    (renamed handle name bss).handle = bss.handle := by
  unfold renamed
  split <;> rfl

theorem map_handle_renamed (handle : ℕ) (name : String) (bss : List RunningBss) :
    (bss.map (renamed handle name)).map RunningBss.handle = bss.map RunningBss.handle := by
  rw [List.map_map]
  exact List.map_congr_left fun entry _ => handle_renamed handle name entry

/-- The BSSs with one of them called by another name. -/
def setName (iface : Iface) (handle : ℕ) (name : String) : Iface :=
  { iface with
    bss := iface.bss.map (renamed handle name)
    nodup := (map_handle_renamed handle name iface.bss).symm ▸ iface.nodup
    fresh := fun entry hentry => by
      obtain ⟨bss, hbss, rfl⟩ := List.mem_map.mp hentry
      rw [handle_renamed]
      exact iface.fresh bss hbss }

/-- `bss.rename`. -/
def rename (iface : Iface) (driver : Driver) (handle : ℕ) (name : String) : Option Iface :=
  if handle ∈ iface.handles ∧ driver.rename iface.bss handle name then
    some { iface.setName handle name with renames := iface.renames ++ [⟨iface.names, name⟩] }
  else none

/-- `iface.add_bss` of the BSS with that index and name. -/
def addBss (iface : Iface) (driver : Driver) (idx : ℕ) (name : String) : Option (ℕ × Iface) :=
  if driver.addBss iface.bss idx then
    some (iface.next,
      { iface with
        bss := iface.bss ++ [⟨iface.next, name⟩]
        next := iface.next + 1
        nodup := by
          rw [List.map_append, List.nodup_append]
          refine ⟨iface.nodup, List.nodup_singleton _, fun handle hhandle other hother => ?_⟩
          obtain ⟨entry, hentry, rfl⟩ := List.mem_map.mp hhandle
          rw [List.mem_singleton.mp hother]
          exact Nat.ne_of_lt (iface.fresh entry hentry)
        fresh := fun entry hentry => by
          rcases List.mem_append.mp hentry with hentry | hentry
          · exact Nat.lt_succ_of_lt (iface.fresh entry hentry)
          · rw [List.mem_singleton.mp hentry]
            exact Nat.lt_succ_self _ })
  else none

def inOrder (iface : Iface) (order : List ℕ) : List RunningBss :=
  order.filterMap fun handle => iface.bss.find? fun bss => bss.handle = handle

theorem mem_of_mem_inOrder {iface : Iface} {order : List ℕ} {entry : RunningBss}
    (h : entry ∈ iface.inOrder order) : entry ∈ iface.bss := by
  obtain ⟨handle, -, hfind⟩ := List.mem_filterMap.mp h
  exact List.mem_of_find?_eq_some hfind

theorem map_handle_find? (iface : Iface) {handle : ℕ} (h : handle ∈ iface.handles) :
    (iface.bss.find? fun bss => bss.handle = handle).map RunningBss.handle = some handle := by
  obtain ⟨entry, hentry, rfl⟩ := List.mem_map.mp h
  cases hfind : iface.bss.find? fun bss => bss.handle = entry.handle with
  | none =>
    have hnone := List.find?_eq_none.mp hfind entry hentry
    simp at hnone
  | some found =>
    have hfound := List.find?_some hfind
    simpa using hfound

theorem map_handle_inOrder (iface : Iface) {order : List ℕ}
    (h : ∀ handle ∈ order, handle ∈ iface.handles) :
    (iface.inOrder order).map RunningBss.handle = order := by
  induction order with
  | nil => rfl
  | cons handle order ih =>
    have hhead := iface.map_handle_find? (h handle List.mem_cons_self)
    obtain ⟨entry, hentry, hhandle⟩ := Option.map_eq_some_iff.mp hhead
    have hcons : iface.inOrder (handle :: order) = entry :: iface.inOrder order := by
      unfold inOrder
      rw [List.filterMap_cons, hentry]
    rw [hcons, List.map_cons, hhandle,
      ih fun other hother => h other (List.mem_cons_of_mem _ hother)]

/-- `iface.set_bss_order`: the list must name each running BSS once. -/
def setBssOrder (iface : Iface) (order : List ℕ) : Option Iface :=
  if h : order.length = iface.bss.length ∧ order.Nodup ∧
      ∀ handle ∈ order, handle ∈ iface.handles then
    some { iface with
      bss := iface.inOrder order
      nodup := (iface.map_handle_inOrder h.2.2).symm ▸ h.2.1
      fresh := fun entry hentry => iface.fresh entry (mem_of_mem_inOrder hentry) }
  else none

/-- `bss.set_config`: with the whole configuration the BSS gets the name in it. -/
def setConfig (iface : Iface) (driver : Driver) (handle idx : ℕ) (name : String)
    (filesOnly : Bool) : Option Iface :=
  if driver.setConfig idx then some (if filesOnly then iface else iface.setName handle name)
  else none

end Iface

end OpenWrt.Hostapd
