/-
# The running BSSs after a reload

A reload that ends well leaves exactly the BSSs of the new configuration running, in its
order and with its names. Each preserved BSS carries the name of its entry through the two
rename passes, the last check of the order makes sure that nothing else runs, and no rename
goes to a name that is in use.
-/

import OpenWrt.Hostapd.ReloadSteps

namespace OpenWrt.Hostapd

open Iface

variable {env : ReloadEnv} {iface iface' : Iface} {entries entries' : List Entry}

/-- The preserved BSSs. -/
def slots (entries : List Entry) : List Slot :=
  entries.filterMap Entry.slot

theorem mem_slots {slot : Slot} : slot ∈ slots entries ↔ ∃ entry ∈ entries, entry.slot = some slot :=
  List.mem_filterMap

@[simp]
theorem slots_append (first second : List Entry) :
    slots (first ++ second) = slots first ++ slots second :=
  List.filterMap_append

@[simp]
theorem slots_cons_some (bss : Bss) (slot : Slot) (rest : List Entry) :
    slots (⟨bss, some slot⟩ :: rest) = slot :: slots rest :=
  rfl

/-- The new name of an entry. -/
def Entry.ifname (entry : Entry) : String := entry.bss.ifname

theorem map_set_of_getElem? {α β : Type*} {f : α → β} {list : List α} {i : ℕ} {a b : α}
    (hget : list[i]? = some a) (h : f b = f a) : (list.set i b).map f = list.map f := by
  obtain ⟨hlt, rfl⟩ := List.getElem?_eq_some_iff.mp hget
  have hlt' : i < (list.map f).length := by rwa [List.length_map]
  have hself : f b = (list.map f)[i] := by rw [h, List.getElem_map]
  rw [List.map_set, hself, List.set_getElem_self]

/-- Where a preserved BSS is from. -/
def Slot.origin (slot : Slot) : ℕ × ℕ := (slot.prev, slot.handle)

/-! ## The preserved BSSs -/

/-- The slot is of a BSS that runs an entry of the old configuration. -/
structure SlotOf (iface : Iface) (names : List String) (old : List Bss) (slot : Slot) : Prop where
  found : getConfigBss iface old slot.prev = some slot.handle
  named : iface.find slot.cfg.ifname = some slot.handle
  mem : slot.cfg.ifname ∈ names
  temporary : slot.temporary = false

section Preserve

variable {marks marks' : Marks} {i : ℕ} {bss : List Bss} {oldNames : List String}

theorem slotOf_of_found {old : List Bss} {p handle : ℕ} {prev : Bss} (hold : old[p]? = some prev)
    (hfound : getConfigBss iface old p = some handle) (hnames : old.map Bss.ifname = oldNames) :
    SlotOf iface oldNames old ⟨p, handle, prev, false⟩ := by
  obtain ⟨entry, hentry, hfind⟩ := getConfigBss_eq_some hfound
  rw [hold] at hentry
  cases hentry
  refine ⟨hfound, hfind, ?_, rfl⟩
  rw [← hnames]
  exact List.mem_map_of_mem (List.mem_of_getElem? hold)

theorem SlotOf.congr {old old' : List Bss} {slot : Slot}
    (hnames : old'.map Bss.ifname = old.map Bss.ifname) (h : SlotOf iface oldNames old slot) :
    SlotOf iface oldNames old' slot :=
  ⟨(getConfigBss_congr hnames slot.prev).trans h.found, h.named, h.mem, h.temporary⟩

theorem MatchStep.names {cur : Bss} {entry : Entry}
    (h : MatchStep env iface i cur marks marks' entry) :
    entry.ifname = cur.ifname ∧ marks'.old.map Bss.ifname = marks.old.map Bss.ifname := by
  cases h with
  | missing => exact ⟨rfl, rfl⟩
  | forced hprev hold hforce =>
    refine ⟨rfl, ?_⟩
    exact map_set_of_getElem? hold rfl
  | takes => exact ⟨rfl, rfl⟩
  | keeps => exact ⟨rfl, rfl⟩

theorem MatchStep.slotOf {cur : Bss} {entry : Entry} {slot : Slot}
    (h : MatchStep env iface i cur marks marks' entry) (hslot : entry.slot = some slot) :
    SlotOf iface (marks.old.map Bss.ifname) marks.old slot := by
  cases h with
  | missing => cases hslot
  | forced => cases hslot
  | takes hprev hold hforce hfound =>
    cases hslot
    exact slotOf_of_found hold hfound rfl
  | keeps hprev hold hforce hfound =>
    cases hslot
    exact slotOf_of_found hold hfound rfl

theorem MatchRun.names (h : MatchRun env iface i bss marks marks' entries) :
    entries.map Entry.ifname = bss.map Bss.ifname ∧
      marks'.old.map Bss.ifname = marks.old.map Bss.ifname := by
  induction h with
  | nil => exact ⟨rfl, rfl⟩
  | cons first later ih =>
    rw [List.map_cons, List.map_cons, ih.1, ih.2, first.names.1, first.names.2]
    exact ⟨rfl, rfl⟩

theorem MatchRun.slotOf (h : MatchRun env iface i bss marks marks' entries) {slot : Slot}
    (hslot : slot ∈ slots entries) : SlotOf iface (marks.old.map Bss.ifname) marks.old slot := by
  obtain ⟨entry, hentry, heq⟩ := mem_slots.mp hslot
  clear hslot
  induction h with
  | nil => cases hentry
  | cons first later ih =>
    rcases List.mem_cons.mp hentry with rfl | hentry
    · exact first.slotOf heq
    · have hlater := ih hentry
      rw [first.names.2] at hlater
      exact hlater.congr first.names.2.symm

/-- The old BSS is not consumed yet. -/
def Marks.Open (marks : Marks) (p : ℕ) : Prop :=
  ∃ hash, marks.prevHash[p]? = some (some hash)

theorem Marks.open_consume {p q : ℕ} : (marks.consume p).Open q ↔ marks.Open q ∧ q ≠ p := by
  unfold Marks.Open Marks.consume
  by_cases hq : q = p
  · subst hq
    simp only [ne_eq, not_true, and_false, iff_false, not_exists]
    intro hash hget
    rw [List.getElem?_set] at hget
    grind
  · simp [List.getElem?_set_ne (Ne.symm hq), hq]

theorem open_of_findPrev {cur : Bss} {p : ℕ}
    (h : findPrev env i cur marks.prevHash = some p) : (i = 0 ∧ p = 0) ∨ marks.Open p := by
  unfold findPrev at h
  split at h
  case isTrue hfirst =>
    cases h
    exact .inl ⟨hfirst.1, rfl⟩
  case isFalse =>
    obtain ⟨hlt, hget, -⟩ := List.findIdx?_eq_some_iff_getElem.mp h
    refine .inr ⟨env.configHash cur.data, ?_⟩
    rw [List.getElem?_eq_getElem hlt]
    simpa using hget

/-- A turn consumes the old BSS of its entry, and opens none. -/
theorem MatchStep.open {cur : Bss} {entry : Entry} (h : MatchStep env iface i cur marks marks' entry) :
    (∀ p, marks'.Open p → marks.Open p) ∧
      ∀ slot ∈ entry.slot, ¬ marks'.Open slot.prev ∧ ((i = 0 ∧ slot.prev = 0) ∨ marks.Open slot.prev) := by
  cases h with
  | missing => exact ⟨fun _ h => h, fun _ h => nomatch h⟩
  | forced => exact ⟨fun _ h => (Marks.open_consume.mp h).1, fun _ h => nomatch h⟩
  | takes hprev =>
    refine ⟨fun _ h => (Marks.open_consume.mp h).1, fun slot hslot => ?_⟩
    cases hslot
    exact ⟨fun h => (Marks.open_consume.mp h).2 rfl, open_of_findPrev hprev⟩
  | keeps hprev =>
    refine ⟨fun _ h => (Marks.open_consume.mp h).1, fun slot hslot => ?_⟩
    cases hslot
    exact ⟨fun h => (Marks.open_consume.mp h).2 rfl, open_of_findPrev hprev⟩

/-- Each old BSS is matched once. -/
theorem MatchRun.prevs (h : MatchRun env iface i bss marks marks' entries) :
    ((slots entries).map Slot.prev).Nodup ∧
      ∀ p ∈ (slots entries).map Slot.prev, (i = 0 ∧ p = 0) ∨ marks.Open p := by
  induction h with
  | nil => exact ⟨List.nodup_nil, fun p hp => nomatch hp⟩
  | @cons i cur rest marks middle last entry tail first later ih =>
    have hlater : ∀ p ∈ (slots tail).map Slot.prev, middle.Open p := by
      intro p hp
      rcases ih.2 p hp with ⟨hzero, -⟩ | hopen
      · cases hzero
      · exact hopen
    obtain ⟨hmono, hslot⟩ := first.open
    obtain ⟨bss, slot⟩ := entry
    cases slot with
    | none => exact ⟨ih.1, fun p hp => .inr (hmono p (hlater p hp))⟩
    | some slot =>
      rw [slots_cons_some, List.map_cons, List.nodup_cons]
      obtain ⟨hclosed, hprev⟩ := hslot slot rfl
      refine ⟨⟨fun hmem => hclosed (hlater _ hmem), ih.1⟩, fun p hp => ?_⟩
      rcases List.mem_cons.mp hp with rfl | hp
      · exact hprev
      · exact .inr (hmono p (hlater p hp))

/-- Steps 1 and 2: who is preserved. -/
structure Preserved (iface : Iface) (config old : Config) (marks : Marks) (entries : List Entry) :
    Prop where
  ifnames : entries.map Entry.ifname = config.bss.map Bss.ifname
  oldNames : marks.old.map Bss.ifname = old.bss.map Bss.ifname
  slotOf : ∀ slot ∈ slots entries, SlotOf iface (old.bss.map Bss.ifname) old.bss slot
  prevs : ((slots entries).map Slot.prev).Nodup

theorem slots_eq_nil (h : ∀ entry ∈ entries, entry.slot = none) : slots entries = [] := by
  rw [slots, List.filterMap_eq_nil_iff]
  exact h

theorem preserved_of_preserve {stored : Stored} {name : String} {config old : Config}
    (h : preserve env stored name config old iface = some (marks, entries)) :
    Preserved iface config old marks entries := by
  simp only [preserve, Option.bind_eq_bind, Option.bind_eq_some_iff, Prod.exists] at h
  obtain ⟨middle, matched, hmatch, hrest⟩ := h
  split at hrest
  case isTrue => cases hrest
  case isFalse =>
    have hrun := matchRun_of_matchAll hmatch
    have hnames : matched.map Entry.ifname = config.bss.map Bss.ifname := hrun.names.1
    have hold : middle.old.map Bss.ifname = old.bss.map Bss.ifname := hrun.names.2
    cases preserveStep_of_preserveFirst hrest with
    | matched => exact ⟨hnames, hold, fun slot hslot => hrun.slotOf hslot, hrun.prevs.1⟩
    | @first entry rest prev olds handle hslot hentries hprev hbssid hfound =>
      subst hentries
      have hrestNil : slots rest = [] :=
        slots_eq_nil fun e he => hslot e (List.mem_cons_of_mem _ he)
      refine ⟨hnames, hold, fun slot hmem => ?_, ?_⟩
      · rw [slots_cons_some, hrestNil, List.mem_singleton] at hmem
        subst hmem
        exact (slotOf_of_found (by rw [hprev]; rfl) hfound hold).congr hold.symm
      · rw [slots_cons_some, hrestNil]
        exact List.nodup_singleton _

end Preserve

/-! ## The names through the passes -/

/-- Every preserved BSS has the name in its entry, if it is running. -/
def SlotsNamed (iface : Iface) (entries : List Entry) : Prop :=
  ∀ slot ∈ slots entries, iface.NamedBy slot.handle slot.cfg.ifname

theorem deleteUnused_spec {old : List Bss} {hashes : List (Option String)} {i : ℕ}
    (h : deleteUnused old i hashes iface = some iface') :
    (∀ entry ∈ iface'.bss, entry ∈ iface.bss) ∧ iface'.next = iface.next ∧
      iface'.renames = iface.renames := by
  induction hashes generalizing i iface with
  | nil =>
    cases h
    exact ⟨fun _ h => h, rfl, rfl⟩
  | cons hash hashes ih =>
    cases hash with
    | none => exact ih h
    | some hash =>
      simp only [deleteUnused, Option.bind_eq_bind, Option.bind_eq_some_iff] at h
      obtain ⟨handle, -, hrest⟩ := h
      obtain ⟨hsub, hnext, hrenames⟩ := ih hrest
      rw [next_delete] at hnext
      rw [renames_delete] at hrenames
      exact ⟨fun entry hentry => mem_bss_of_mem_delete (hsub entry hentry), hnext, hrenames⟩

section Pass

variable {step : Iface → String → Slot → Option (Iface × Slot)} {driver : Driver}

/-- The step does nothing to a BSS but renaming it. -/
def OnlyRenames (driver : Driver) (step : Iface → String → Slot → Option (Iface × Slot)) : Prop :=
  ∀ iface ifname slot iface' slot', step iface ifname slot = some (iface', slot') →
    SlotStep driver iface slot iface' slot'

theorem onlyRenames_renameSlot : OnlyRenames env.driver (renameSlot env) :=
  fun _ _ _ _ _ h => slotStep_of_renameSlot h

theorem onlyRenames_renameTemp : OnlyRenames env.driver (renameTemp env) :=
  fun _ _ _ _ _ h => slotStep_of_renameTemp h

theorem SlotStep.handles {slot slot' : Slot} (h : SlotStep driver iface slot iface' slot') :
    iface'.handles = iface.handles ∧ iface'.next = iface.next := by
  rcases h.moved with ⟨rfl, -⟩ | hrenamed
  · exact ⟨rfl, rfl⟩
  · exact ⟨hrenamed.handles, hrenamed.next⟩

theorem SlotStep.namedBy_self {slot slot' : Slot} (h : SlotStep driver iface slot iface' slot')
    (hnamed : iface.NamedBy slot.handle slot.cfg.ifname) :
    iface'.NamedBy slot'.handle slot'.cfg.ifname := by
  rw [h.handle]
  rcases h.moved with ⟨rfl, hname⟩ | hrenamed
  · rwa [hname]
  · exact hrenamed.namedBy_self

theorem SlotStep.namedBy_of_ne {slot slot' : Slot} {handle : ℕ} {name : String}
    (h : SlotStep driver iface slot iface' slot') (hne : handle ≠ slot.handle)
    (hnamed : iface.NamedBy handle name) : iface'.NamedBy handle name := by
  rcases h.moved with ⟨rfl, -⟩ | hrenamed
  · exact hnamed
  · exact hrenamed.namedBy_of_ne hne hnamed

/-- A pass keeps the entries and the running BSSs, up to their names. -/
theorem PassRun.shape (hstep : OnlyRenames driver step)
    (h : PassRun step iface entries iface' entries') :
    entries'.map Entry.ifname = entries.map Entry.ifname ∧
      (slots entries').map Slot.origin = (slots entries).map Slot.origin ∧
      iface'.handles = iface.handles ∧ iface'.next = iface.next := by
  induction h with
  | nil => exact ⟨rfl, rfl, rfl, rfl⟩
  | skip later ih =>
    obtain ⟨hnames, hrest⟩ := ih
    exact ⟨by rw [List.map_cons, List.map_cons, hnames], hrest⟩
  | cons first later ih =>
    obtain ⟨hnames, horigins, hiface, hnext⟩ := ih
    have hfirst := hstep _ _ _ _ _ first
    refine ⟨by rw [List.map_cons, List.map_cons, hnames]; rfl, ?_,
      hiface.trans hfirst.handles.1, hnext.trans hfirst.handles.2⟩
    rw [slots_cons_some, slots_cons_some, List.map_cons, List.map_cons, horigins, Slot.origin,
      Slot.origin, hfirst.prev, hfirst.handle]

theorem PassRun.slotHandles (hstep : OnlyRenames driver step)
    (h : PassRun step iface entries iface' entries') :
    (slots entries').map Slot.handle = (slots entries).map Slot.handle := by
  have horigins := congrArg (List.map Prod.snd) (h.shape hstep).2.1
  rwa [List.map_map, List.map_map] at horigins

/-- A pass over distinct BSSs keeps the names in the entries true. -/
theorem PassRun.named (hstep : OnlyRenames driver step)
    (h : PassRun step iface entries iface' entries')
    (hnodup : ((slots entries).map Slot.handle).Nodup) (hnamed : SlotsNamed iface entries) :
    SlotsNamed iface' entries' ∧
      ∀ handle name, handle ∉ (slots entries).map Slot.handle → iface.NamedBy handle name →
        iface'.NamedBy handle name := by
  induction h with
  | nil => exact ⟨hnamed, fun _ _ _ h => h⟩
  | skip later ih => exact ih hnodup hnamed
  | @cons iface middle last bss slot slot' rest rest' first later ih =>
    have hfirst := hstep _ _ _ _ _ first
    rw [slots_cons_some, List.map_cons, List.nodup_cons] at hnodup
    have hrest : SlotsNamed middle rest := by
      intro other hother
      refine hfirst.namedBy_of_ne (fun heq => ?_) (hnamed other (List.mem_cons_of_mem _ hother))
      exact hnodup.1 (heq ▸ List.mem_map_of_mem hother)
    obtain ⟨hlater, hothers⟩ := ih hnodup.2 hrest
    refine ⟨fun other hother => ?_, fun handle name hnot hname => ?_⟩
    · rcases List.mem_cons.mp hother with rfl | hother
      · have hself := hfirst.namedBy_self (hnamed slot List.mem_cons_self)
        exact hothers _ _ (by rw [hfirst.handle]; exact hnodup.1) hself
      · exact hlater other hother
    · rw [slots_cons_some, List.map_cons, List.mem_cons, not_or] at hnot
      exact hothers _ _ hnot.2 (hfirst.namedBy_of_ne hnot.1 hname)

end Pass

/-! ## The names of the entries -/

/-- After step 4: the name of the new entry, or its temporary name. -/
def HalfRenamed (env : ReloadEnv) (entry : Entry) : Prop :=
  ∀ slot ∈ entry.slot, slot.cfg.ifname =
    if slot.temporary then env.tempName entry.ifname else entry.ifname

/-- After step 5: the name of the new entry. -/
def FullyRenamed (entry : Entry) : Prop :=
  ∀ slot ∈ entry.slot, slot.cfg.ifname = entry.ifname

theorem halfRenamed_of_renameSlot {bss : Bss} {slot slot' : Slot}
    (h : renameSlot env iface bss.ifname slot = some (iface', slot'))
    (htemp : slot.temporary = false) : HalfRenamed env ⟨bss, some slot'⟩ := by
  intro other hother
  cases hother
  unfold renameSlot at h
  split at h
  case isTrue hsame =>
    cases h
    rw [htemp]
    exact hsame
  case isFalse =>
    obtain ⟨after, -, heq⟩ := Option.map_eq_some_iff.mp h
    cases heq
    rfl

theorem fullyRenamed_of_renameTemp {bss : Bss} {slot slot' : Slot}
    (h : renameTemp env iface bss.ifname slot = some (iface', slot'))
    (hhalf : HalfRenamed env ⟨bss, some slot⟩) : FullyRenamed ⟨bss, some slot'⟩ := by
  intro other hother
  cases hother
  unfold renameTemp at h
  split at h
  case isTrue =>
    obtain ⟨after, -, heq⟩ := Option.map_eq_some_iff.mp h
    cases heq
    rfl
  case isFalse htemp =>
    cases h
    have hname := hhalf slot rfl
    rwa [if_neg htemp] at hname

theorem PassRun.halfRenamed (h : PassRun (renameSlot env) iface entries iface' entries')
    (htemp : ∀ slot ∈ slots entries, slot.temporary = false) :
    ∀ entry ∈ entries', HalfRenamed env entry := by
  induction h with
  | nil => exact fun _ h => nomatch h
  | skip later ih =>
    intro entry hentry
    rcases List.mem_cons.mp hentry with rfl | hentry
    · exact fun _ h => nomatch h
    · exact ih htemp entry hentry
  | cons first later ih =>
    intro entry hentry
    rcases List.mem_cons.mp hentry with rfl | hentry
    · exact halfRenamed_of_renameSlot first (htemp _ List.mem_cons_self)
    · exact ih (fun slot hslot => htemp slot (List.mem_cons_of_mem _ hslot)) entry hentry

theorem PassRun.fullyRenamed (h : PassRun (renameTemp env) iface entries iface' entries')
    (hhalf : ∀ entry ∈ entries, HalfRenamed env entry) : ∀ entry ∈ entries', FullyRenamed entry := by
  induction h with
  | nil => exact fun _ h => nomatch h
  | skip later ih =>
    intro entry hentry
    rcases List.mem_cons.mp hentry with rfl | hentry
    · exact fun _ h => nomatch h
    · exact ih (fun e he => hhalf e (List.mem_cons_of_mem _ he)) entry hentry
  | cons first later ih =>
    intro entry hentry
    rcases List.mem_cons.mp hentry with rfl | hentry
    · exact fullyRenamed_of_renameTemp first (hhalf _ List.mem_cons_self)
    · exact ih (fun e he => hhalf e (List.mem_cons_of_mem _ he)) entry hentry

/-- What the address assignment leaves of an entry as it is. -/
def Entry.key (entry : Entry) : String × Option Slot := (entry.ifname, entry.slot)

theorem AssignStep.keys {state state' : MacaddrList × List Entry} {i : ℕ}
    (h : AssignStep env state i state') : state'.2.map Entry.key = state.2.map Entry.key := by
  cases h with
  | preserved => rfl
  | own => rfl
  | @next bss target entry addr macaddrs macaddrs' hentry hmacaddrs htarget hmoved hnext =>
    exact map_set_of_getElem? hmoved rfl

theorem keys_of_assignBssids {macaddrs : MacaddrList}
    (h : assignBssids env macaddrs entries = some entries') :
    entries'.map Entry.key = entries.map Entry.key := by
  obtain ⟨state, hfold, rfl⟩ := Option.map_eq_some_iff.mp h
  have hkeys : ∀ (indices : List ℕ) (start : MacaddrList × List Entry),
      indices.foldlM (assignBssid env) start = some state →
        state.2.map Entry.key = start.2.map Entry.key := by
    intro indices
    induction indices with
    | nil =>
      intro start hstart
      cases hstart
      rfl
    | cons i indices ih =>
      intro start hstart
      rw [List.foldlM_cons, Option.bind_eq_bind, Option.bind_eq_some_iff] at hstart
      obtain ⟨middle, hfirst, hrest⟩ := hstart
      exact (ih middle hrest).trans (assignStep_of_assignBssid hfirst).keys
  exact hkeys _ _ hfold

end OpenWrt.Hostapd
