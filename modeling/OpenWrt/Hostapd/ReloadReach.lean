/-
# Renaming, adding and ordering the BSSs

The rename passes go to free names, where either the driver refuses a name that a device
has, or no two new names, and no temporary name and another one, are the same. The missing
BSSs are added with their names, and the check of the order lets through only a list of all
running BSSs.
-/

import Mathlib.Data.List.Perm.Subperm
import OpenWrt.Hostapd.ReloadRun

namespace OpenWrt.Hostapd

open Iface

variable {env : ReloadEnv} {iface iface' : Iface} {entries entries' : List Entry}

/-! ## The targets of the renames -/

/-- The renames since the first state went to names that were not in use. -/
def RenamesFree (iface iface' : Iface) : Prop :=
  ∃ added, iface'.renames = iface.renames ++ added ∧ ∀ rename ∈ added, rename.target ∉ rename.used

theorem RenamesFree.refl (iface : Iface) : RenamesFree iface iface :=
  ⟨[], by simp, fun _ h => nomatch h⟩

theorem RenamesFree.trans {first second third : Iface} (h : RenamesFree first second)
    (h' : RenamesFree second third) : RenamesFree first third := by
  obtain ⟨added, heq, hfree⟩ := h
  obtain ⟨more, heq', hfree'⟩ := h'
  refine ⟨added ++ more, by rw [heq', heq, List.append_assoc], fun rename hrename => ?_⟩
  rcases List.mem_append.mp hrename with hrename | hrename
  · exact hfree rename hrename
  · exact hfree' rename hrename

theorem Iface.Renamed.renamesFree {driver : Driver} {handle : ℕ} {name : String}
    (h : Renamed iface driver handle name iface') (hfree : name ∉ iface.names) :
    RenamesFree iface iface' := by
  refine ⟨[⟨iface.names, name⟩], h.renames, fun rename hrename => ?_⟩
  rw [List.mem_singleton.mp hrename]
  exact hfree

/-- Every running BSS is preserved. -/
def Covered (iface : Iface) (entries : List Entry) : Prop :=
  ∀ handle ∈ iface.handles, handle ∈ (slots entries).map Slot.handle

theorem exists_slot_of_mem_names (hcover : Covered iface entries)
    (hnamed : SlotsNamed iface entries) {name : String} (hname : name ∈ iface.names) :
    ∃ slot ∈ slots entries, slot.cfg.ifname = name := by
  obtain ⟨entry, hentry, rfl⟩ := List.mem_map.mp hname
  obtain ⟨slot, hslot, hhandle⟩ := List.mem_map.mp (hcover _ (List.mem_map_of_mem hentry))
  exact ⟨slot, hslot, (hnamed slot hslot entry hentry hhandle.symm).symm⟩

section Pass

variable {step : Iface → String → Slot → Option (Iface × Slot)} {driver : Driver}
  {Inv : List Entry → List Entry → Prop}

/-- What a pass needs of the entries that are done and those that are to do, so that its
renames go to free names. -/
structure PassSafe (step : Iface → String → Slot → Option (Iface × Slot))
    (Inv : List Entry → List Entry → Prop) : Prop where
  skip : ∀ done bss rest, Inv done (⟨bss, none⟩ :: rest) → Inv (done ++ [⟨bss, none⟩]) rest
  next : ∀ done bss slot rest iface iface' slot', Inv done (⟨bss, some slot⟩ :: rest) →
    step iface bss.ifname slot = some (iface', slot') → Inv (done ++ [⟨bss, some slot'⟩]) rest
  free : ∀ done bss slot rest iface iface' slot', Inv done (⟨bss, some slot⟩ :: rest) →
    step iface bss.ifname slot = some (iface', slot') →
    SlotsNamed iface (done ++ ⟨bss, some slot⟩ :: rest) →
    Covered iface (done ++ ⟨bss, some slot⟩ :: rest) →
    iface' = iface ∨ slot'.cfg.ifname ∉ iface.names

/-- The names in the entries stay true while one of them is worked on. -/
theorem slotsNamed_step {done rest : List Entry} {bss : Bss} {slot slot' : Slot}
    (hstep : SlotStep driver iface slot iface' slot')
    (hnodup : ((slots (done ++ ⟨bss, some slot⟩ :: rest)).map Slot.handle).Nodup)
    (hnamed : SlotsNamed iface (done ++ ⟨bss, some slot⟩ :: rest)) :
    SlotsNamed iface' (done ++ ⟨bss, some slot'⟩ :: rest) := by
  simp only [slots_append, slots_cons_some, List.map_append, List.map_cons] at hnodup
  obtain ⟨hdone, hcons, hdisjoint⟩ := List.nodup_append.mp hnodup
  have hrest := (List.nodup_cons.mp hcons).1
  intro other hother
  rw [slots_append, slots_cons_some, List.mem_append, List.mem_cons] at hother
  have hmem : ∀ other ∈ slots done ++ slots rest, iface.NamedBy other.handle other.cfg.ifname := by
    intro other hother
    refine hnamed other ?_
    rw [slots_append, slots_cons_some, List.mem_append, List.mem_cons]
    rcases List.mem_append.mp hother with h | h
    · exact .inl h
    · exact .inr (.inr h)
  rcases hother with hother | rfl | hother
  · refine hstep.namedBy_of_ne ?_ (hmem other (List.mem_append_left _ hother))
    exact hdisjoint _ (List.mem_map_of_mem hother) _ List.mem_cons_self
  · refine hstep.namedBy_self (hnamed slot ?_)
    rw [slots_append, slots_cons_some]
    exact List.mem_append_right _ List.mem_cons_self
  · refine hstep.namedBy_of_ne (fun heq => hrest ?_) (hmem other (List.mem_append_right _ hother))
    exact heq ▸ List.mem_map_of_mem hother

theorem PassRun.renamesFree (honly : OnlyRenames driver step) (hsafe : PassSafe step Inv)
    (h : PassRun step iface entries iface' entries') {done : List Entry} (hinv : Inv done entries)
    (hnodup : ((slots (done ++ entries)).map Slot.handle).Nodup)
    (hnamed : SlotsNamed iface (done ++ entries)) (hcover : Covered iface (done ++ entries)) :
    RenamesFree iface iface' := by
  induction h generalizing done with
  | nil => exact .refl _
  | @skip iface last bss rest rest' later ih =>
    have heq : done ++ ⟨bss, none⟩ :: rest = done ++ [⟨bss, none⟩] ++ rest := by simp
    rw [heq] at hnodup hnamed hcover
    exact ih (hsafe.skip done bss rest hinv) hnodup hnamed hcover
  | @cons iface middle last bss slot slot' rest rest' first later ih =>
    have hfirst := honly _ _ _ _ _ first
    have heq : done ++ ⟨bss, some slot'⟩ :: rest = done ++ [⟨bss, some slot'⟩] ++ rest := by simp
    have hhandles : (slots (done ++ ⟨bss, some slot'⟩ :: rest)).map Slot.handle =
        (slots (done ++ ⟨bss, some slot⟩ :: rest)).map Slot.handle := by
      simp [hfirst.handle]
    have hstep : RenamesFree iface middle := by
      rcases hsafe.free done bss slot rest _ _ _ hinv first hnamed hcover with rfl | hfree
      · exact .refl _
      · rcases hfirst.moved with ⟨rfl, -⟩ | hrenamed
        · exact .refl _
        · exact hrenamed.renamesFree hfree
    refine hstep.trans (ih (hsafe.next done bss slot rest _ _ _ hinv first) ?_ ?_ ?_)
    · rw [← heq, hhandles]
      exact hnodup
    · rw [← heq]
      exact slotsNamed_step hfirst hnodup hnamed
    · rw [← heq]
      intro handle hhandle
      rw [hhandles]
      rw [hfirst.handles.1] at hhandle
      exact hcover handle hhandle

theorem passSafe_of_driver
    (hdriver : ∀ running handle name, driver.rename running handle name = true →
      name ∉ running.map RunningBss.name) (honly : OnlyRenames driver step) :
    PassSafe step fun _ _ => True where
  skip _ _ _ _ := trivial
  next _ _ _ _ _ _ _ _ _ := trivial
  free done bss slot rest iface iface' slot' _ hstep _ _ := by
    rcases (honly _ _ _ _ _ hstep).moved with ⟨rfl, -⟩ | hrenamed
    · exact .inl rfl
    · exact .inr (hdriver _ _ _ hrenamed.taken)

end Pass

/-! ## Distinct names -/

/-- No two new names are the same, and no temporary name is another temporary name, a new
name or a name of the old configuration. -/
structure NamesApart (tempName : String → String) (oldNames newNames : List String) : Prop where
  nodup : newNames.Nodup
  old : ∀ name ∈ newNames, tempName name ∉ oldNames
  new : ∀ name ∈ newNames, tempName name ∉ newNames
  temp : ∀ name ∈ newNames, ∀ other ∈ newNames, tempName name = tempName other → name = other

/-- While step 4 goes on: the entries that are done have their names or temporary names, the
others those of the old configuration. -/
structure Renaming (env : ReloadEnv) (oldNames newNames : List String) (done rest : List Entry) :
    Prop where
  names : (done ++ rest).map Entry.ifname = newNames
  done : ∀ entry ∈ done, HalfRenamed env entry
  rest : ∀ slot ∈ slots rest, slot.cfg.ifname ∈ oldNames ∧ slot.temporary = false

/-- While step 5 goes on: the entries that are done have their names, the others may have
temporary names. -/
structure Finishing (env : ReloadEnv) (newNames : List String) (done rest : List Entry) : Prop where
  names : (done ++ rest).map Entry.ifname = newNames
  done : ∀ entry ∈ done, FullyRenamed entry
  rest : ∀ entry ∈ rest, HalfRenamed env entry

section Apart

variable {oldNames newNames : List String} {done rest : List Entry} {bss : Bss}

theorem mem_middle (done rest : List Entry) (entry : Entry) : entry ∈ done ++ entry :: rest :=
  List.mem_append_right _ List.mem_cons_self

theorem mem_newNames (hnames : (done ++ rest).map Entry.ifname = newNames) {entry : Entry}
    (h : entry ∈ done ++ rest) : entry.ifname ∈ newNames := by
  rw [← hnames]
  exact List.mem_map_of_mem h

theorem ifname_ne {slot : Option Slot}
    (hnames : (done ++ ⟨bss, slot⟩ :: rest).map Entry.ifname = newNames) (hnodup : newNames.Nodup)
    {entry : Entry} (h : entry ∈ done ++ rest) : entry.ifname ≠ bss.ifname := by
  rw [← hnames] at hnodup
  have hmiddle : ((⟨bss, slot⟩ :: (done ++ rest)).map Entry.ifname).Nodup := by
    refine (List.Perm.nodup_iff ?_).mp hnodup
    exact List.Perm.map _ List.perm_middle
  rw [List.map_cons, List.nodup_cons] at hmiddle
  intro heq
  have hmem : entry.ifname ∈ (done ++ rest).map Entry.ifname := List.mem_map_of_mem h
  rw [heq] at hmem
  exact hmiddle.1 hmem

theorem mem_of_slot {slot other : Slot} {owner : Entry}
    (h : owner ∈ done ++ ⟨bss, some slot⟩ :: rest) (hslot : owner.slot = some other)
    (hne : other ≠ slot) : owner ∈ done ++ rest := by
  rcases List.mem_append.mp h with h | h
  · exact List.mem_append_left _ h
  · rcases List.mem_cons.mp h with rfl | h
    · cases hslot
      exact absurd rfl hne
    · exact List.mem_append_right _ h

theorem passSafe_renaming (hapart : NamesApart env.tempName oldNames newNames) :
    PassSafe (renameSlot env) (Renaming env oldNames newNames) where
  skip done bss rest hinv := by
    refine ⟨by simpa using hinv.names, fun entry hentry => ?_, hinv.rest⟩
    rcases List.mem_append.mp hentry with hentry | hentry
    · exact hinv.done entry hentry
    · rw [List.mem_singleton.mp hentry]
      exact fun _ h => nomatch h
  next done bss slot rest iface iface' slot' hinv hstep := by
    have hslot := hinv.rest slot List.mem_cons_self
    refine ⟨by simpa [Entry.ifname] using hinv.names, fun entry hentry => ?_,
      fun other hother => hinv.rest other (List.mem_cons_of_mem _ hother)⟩
    rcases List.mem_append.mp hentry with hentry | hentry
    · exact hinv.done entry hentry
    · rw [List.mem_singleton.mp hentry]
      exact halfRenamed_of_renameSlot hstep hslot.2
  free done bss slot rest iface iface' slot' hinv hstep hnamed hcover := by
    unfold renameSlot at hstep
    split at hstep
    case isTrue =>
      cases hstep
      exact .inl rfl
    case isFalse =>
      obtain ⟨after, -, heq⟩ := Option.map_eq_some_iff.mp hstep
      cases heq
      refine .inr ?_
      cases hfind : iface.find bss.ifname with
      | none => exact not_mem_names_of_find hfind
      | some handle =>
        -- the own name is in use, so the target is the temporary one
        have hown : bss.ifname ∈ newNames :=
          mem_newNames hinv.names (mem_middle done rest ⟨bss, some slot⟩)
        intro hused
        obtain ⟨other, hother, hname⟩ := exists_slot_of_mem_names hcover hnamed hused
        change other.cfg.ifname = env.tempName bss.ifname at hname
        obtain ⟨owner, howner, hslot⟩ := mem_slots.mp hother
        rcases List.mem_append.mp howner with hdone | hrest
        · have hnew : owner.ifname ∈ newNames :=
            mem_newNames hinv.names (List.mem_append_left _ hdone)
          have hhalf := hinv.done owner hdone other hslot
          rw [hname] at hhalf
          split at hhalf
          · exact ifname_ne hinv.names hapart.nodup (List.mem_append_left _ hdone)
              (hapart.temp _ hown _ hnew hhalf).symm
          · exact hapart.new _ hown (hhalf ▸ hnew)
        · have hmem : other ∈ slots (⟨bss, some slot⟩ :: rest) :=
            mem_slots.mpr ⟨owner, hrest, hslot⟩
          exact hapart.old _ hown (hname ▸ (hinv.rest other hmem).1)

theorem passSafe_finishing (hapart : NamesApart env.tempName oldNames newNames) :
    PassSafe (renameTemp env) (Finishing env newNames) where
  skip done bss rest hinv := by
    refine ⟨by simpa using hinv.names, fun entry hentry => ?_,
      fun entry hentry => hinv.rest entry (List.mem_cons_of_mem _ hentry)⟩
    rcases List.mem_append.mp hentry with hentry | hentry
    · exact hinv.done entry hentry
    · rw [List.mem_singleton.mp hentry]
      exact fun _ h => nomatch h
  next done bss slot rest iface iface' slot' hinv hstep := by
    refine ⟨by simpa [Entry.ifname] using hinv.names, fun entry hentry => ?_,
      fun entry hentry => hinv.rest entry (List.mem_cons_of_mem _ hentry)⟩
    rcases List.mem_append.mp hentry with hentry | hentry
    · exact hinv.done entry hentry
    · rw [List.mem_singleton.mp hentry]
      exact fullyRenamed_of_renameTemp hstep (hinv.rest _ List.mem_cons_self)
  free done bss slot rest iface iface' slot' hinv hstep hnamed hcover := by
    unfold renameTemp at hstep
    split at hstep
    case isFalse =>
      cases hstep
      exact .inl rfl
    case isTrue htemp =>
      obtain ⟨after, -, heq⟩ := Option.map_eq_some_iff.mp hstep
      cases heq
      refine .inr fun hused => ?_
      have hown : bss.ifname ∈ newNames :=
        mem_newNames hinv.names (mem_middle done rest ⟨bss, some slot⟩)
      obtain ⟨other, hother, hname⟩ := exists_slot_of_mem_names hcover hnamed hused
      change other.cfg.ifname = bss.ifname at hname
      obtain ⟨owner, howner, hslot⟩ := mem_slots.mp hother
      by_cases hsame : other = slot
      · -- this BSS still has its temporary name
        have hhalf := hinv.rest ⟨bss, some slot⟩ List.mem_cons_self slot rfl
        rw [if_pos htemp, ← hsame, hname] at hhalf
        exact hapart.new _ hown (hhalf ▸ hown)
      · have hmem := mem_of_slot howner hslot hsame
        have hne := ifname_ne hinv.names hapart.nodup hmem
        rcases List.mem_append.mp hmem with hdone | hrest
        · exact hne ((hinv.done owner hdone other hslot).symm.trans hname)
        · have hhalf := hinv.rest owner (List.mem_cons_of_mem _ hrest) other hslot
          rw [hname] at hhalf
          split at hhalf
          · have hnew : owner.ifname ∈ newNames :=
              mem_newNames hinv.names (List.mem_append_right _ (List.mem_cons_of_mem _ hrest))
            exact hapart.new _ hnew (hhalf ▸ hown)
          · exact hne hhalf.symm

end Apart

/-! ## Adding, ordering and updating -/

/-- What adding the missing BSSs does. -/
structure Added (iface : Iface) (entries : List Entry) (iface' : Iface) (order : List ℕ) : Prop where
  next : iface.next ≤ iface'.next
  renames : iface'.renames = iface.renames
  handles : ∃ added, iface'.handles = iface.handles ++ added ∧ ∀ handle ∈ added, iface.next ≤ handle
  order : List.Forall₂ (fun handle entry => (∀ slot ∈ entry.slot, handle = slot.handle) ∧
    (entry.slot = none → iface.next ≤ handle)) order entries
  named : ∀ handle name, handle < iface.next → iface.NamedBy handle name → iface'.NamedBy handle name

theorem Iface.namedBy_append {driver : Driver} {idx handle other : ℕ} {name name' : String}
    (h : iface.addBss driver idx name = some (handle, iface')) (hlt : other < iface.next)
    (hnamed : iface.NamedBy other name') : iface'.NamedBy other name' := by
  unfold addBss at h
  split at h
  case isFalse => cases h
  case isTrue =>
    cases h
    intro entry hentry heq
    rcases List.mem_append.mp hentry with hentry | hentry
    · exact hnamed entry hentry heq
    · rw [List.mem_singleton.mp hentry] at heq
      exact absurd hlt (by rw [← heq]; exact Nat.lt_irrefl _)

theorem Iface.addBss_spec {driver : Driver} {idx handle : ℕ} {name : String}
    (h : iface.addBss driver idx name = some (handle, iface')) :
    handle = iface.next ∧ iface'.next = iface.next + 1 ∧ iface'.renames = iface.renames ∧
      iface'.handles = iface.handles ++ [iface.next] ∧ iface'.NamedBy handle name := by
  unfold addBss at h
  split at h
  case isFalse => cases h
  case isTrue =>
    cases h
    refine ⟨rfl, rfl, rfl, by simp [handles], fun entry hentry heq => ?_⟩
    rcases List.mem_append.mp hentry with hentry | hentry
    · exact absurd (iface.fresh entry hentry) (by rw [heq]; exact Nat.lt_irrefl _)
    · rw [List.mem_singleton.mp hentry]

theorem added_of_addMissing {i : ℕ} {order : List ℕ}
    (h : addMissing env i entries iface = some (iface', order)) :
    Added iface entries iface' order ∧
      (SlotsNamed iface entries → (∀ slot ∈ slots entries, slot.handle < iface.next) →
        (∀ entry ∈ entries, FullyRenamed entry) →
        List.Forall₂ (fun handle entry => iface'.NamedBy handle entry.ifname) order entries) := by
  induction entries generalizing i iface iface' order with
  | nil =>
    cases h
    exact ⟨⟨Nat.le_refl _, rfl, ⟨[], by simp, fun _ h => nomatch h⟩, .nil, fun _ _ _ h => h⟩,
      fun _ _ _ => .nil⟩
  | cons entry rest ih =>
    obtain ⟨bss, slot⟩ := entry
    cases slot with
    | some slot =>
      simp only [addMissing, Option.bind_eq_bind, Option.bind_eq_some_iff, Prod.exists,
        Option.pure_def, Option.some.injEq, Prod.mk.injEq] at h
      obtain ⟨last, tail, hrest, rfl, rfl⟩ := h
      obtain ⟨hadded, hnames⟩ := ih hrest
      refine ⟨⟨hadded.next, hadded.renames, hadded.handles, .cons ⟨?_, ?_⟩ hadded.order,
        hadded.named⟩, fun hnamed hlt hfull => .cons ?_ ?_⟩
      · exact fun other hother => by cases hother; rfl
      · exact fun hnone => nomatch hnone
      · have hname := hfull ⟨bss, some slot⟩ List.mem_cons_self slot rfl
        rw [← hname]
        exact hadded.named _ _ (hlt slot List.mem_cons_self) (hnamed slot List.mem_cons_self)
      · exact hnames (fun other hother => hnamed other (List.mem_cons_of_mem _ hother))
          (fun other hother => hlt other (List.mem_cons_of_mem _ hother))
          (fun entry hentry => hfull entry (List.mem_cons_of_mem _ hentry))
    | none =>
      simp only [addMissing, Option.bind_eq_bind, Option.bind_eq_some_iff, Prod.exists,
        Option.pure_def, Option.some.injEq, Prod.mk.injEq] at h
      obtain ⟨handle, middle, hfirst, last, tail, hrest, rfl, rfl⟩ := h
      obtain ⟨hadded, hnames⟩ := ih hrest
      obtain ⟨rfl, hnext, hrenames, hhandles, hname⟩ := addBss_spec hfirst
      have hle : iface.next ≤ middle.next := by omega
      refine ⟨⟨Nat.le_trans hle hadded.next, hadded.renames.trans hrenames, ?_, .cons ⟨?_, ?_⟩ ?_,
        fun other name hlt hnamed => ?_⟩, fun hnamed hlt hfull => .cons ?_ ?_⟩
      · obtain ⟨added, heq, hfresh⟩ := hadded.handles
        refine ⟨iface.next :: added, by rw [heq, hhandles]; simp, fun handle hhandle => ?_⟩
        rcases List.mem_cons.mp hhandle with rfl | hhandle
        · exact Nat.le_refl _
        · exact Nat.le_trans hle (hfresh handle hhandle)
      · exact fun _ h => nomatch h
      · exact fun _ => Nat.le_refl _
      · exact hadded.order.imp fun handle entry hpair =>
        ⟨hpair.1, fun hnone => Nat.le_trans hle (hpair.2 hnone)⟩
      · exact hadded.named _ _ (by omega) (namedBy_append hfirst hlt hnamed)
      · exact hadded.named _ _ (by omega) hname
      · refine hnames (fun other hother => ?_) (fun other hother => ?_)
          (fun entry hentry => hfull entry (List.mem_cons_of_mem _ hentry))
        · exact namedBy_append hfirst (hlt other hother) (hnamed other hother)
        · exact Nat.lt_of_lt_of_le (hlt other hother) hle

/-- Passing the check of the order puts exactly the listed BSSs in that order. -/
theorem Iface.setBssOrder_spec {order : List ℕ} (h : iface.setBssOrder order = some iface') :
    order.Nodup ∧ iface'.handles = order ∧ iface.handles.Perm order ∧
      iface'.renames = iface.renames ∧ ∀ entry ∈ iface'.bss, entry ∈ iface.bss := by
  unfold setBssOrder at h
  split at h
  case isFalse => cases h
  case isTrue hcond =>
    cases h
    obtain ⟨hlength, hnodup, hmem⟩ := hcond
    refine ⟨hnodup, map_handle_inOrder iface hmem, ?_, rfl, fun entry => mem_of_mem_inOrder⟩
    have hle : iface.handles.length ≤ order.length :=
      Nat.le_of_eq (by rw [handles, List.length_map, hlength])
    exact ((List.Nodup.subperm hnodup hmem).perm_of_length_le hle).symm

theorem names_eq_of_order {order : List ℕ} {bss running : List RunningBss}
    (hbss : bss.map RunningBss.handle = order) (hsub : ∀ entry ∈ bss, entry ∈ running)
    (hnamed : List.Forall₂ (fun handle entry => ∀ b ∈ running, b.handle = handle →
      b.name = Entry.ifname entry) order entries) :
    bss.map RunningBss.name = entries.map Entry.ifname := by
  induction bss generalizing order entries with
  | nil =>
    cases hbss
    cases hnamed
    rfl
  | cons first bss ih =>
    cases hbss
    cases hnamed with
    | cons hfirst hrest =>
      rw [List.map_cons, List.map_cons, hfirst first (hsub first List.mem_cons_self) rfl,
        ih rfl (fun entry hentry => hsub entry (List.mem_cons_of_mem _ hentry)) hrest]

/-- Step 9 leaves the running BSSs as they are where they have their names. -/
theorem updateConfig_spec {i : ℕ} (h : updateConfig env i entries iface = some iface')
    (hnamed : ∀ entry ∈ entries, ∀ slot ∈ entry.slot, iface.NamedBy slot.handle entry.ifname) :
    iface'.bss = iface.bss ∧ iface'.renames = iface.renames := by
  induction entries generalizing i iface with
  | nil =>
    cases h
    exact ⟨rfl, rfl⟩
  | cons entry rest ih =>
    obtain ⟨bss, slot⟩ := entry
    have hrest : ∀ entry ∈ rest, ∀ slot ∈ entry.slot, iface.NamedBy slot.handle entry.ifname :=
      fun entry hentry => hnamed entry (List.mem_cons_of_mem _ hentry)
    cases slot with
    | none => exact ih h hrest
    | some slot =>
      simp only [updateConfig, Option.bind_eq_bind, Option.bind_eq_some_iff] at h
      obtain ⟨middle, hfirst, hlater⟩ := h
      have hname : iface.NamedBy slot.handle bss.ifname :=
        hnamed ⟨bss, some slot⟩ List.mem_cons_self slot rfl
      have hset : ∀ filesOnly, iface.setConfig env.driver slot.handle i bss.ifname filesOnly =
          some middle → middle.bss = iface.bss ∧ middle.renames = iface.renames := by
        intro filesOnly hset
        unfold Iface.setConfig at hset
        split at hset
        case isFalse => cases hset
        case isTrue =>
          cases hset
          cases filesOnly with
          | true => exact ⟨rfl, rfl⟩
          | false => exact ⟨setName_bss_of_namedBy hname, rfl⟩
      have hmiddle : middle.bss = iface.bss ∧ middle.renames = iface.renames := by
        unfold updateBss at hfirst
        split at hfirst
        · cases hfirst
          exact ⟨rfl, rfl⟩
        · split at hfirst
          · exact hset true hfirst
          · split at hfirst
            · cases hfirst
              exact ⟨rfl, rfl⟩
            · exact hset false hfirst
      have hnamed' : ∀ entry ∈ rest, ∀ slot ∈ entry.slot,
          middle.NamedBy slot.handle entry.ifname := by
        unfold Iface.NamedBy
        rw [hmiddle.1]
        exact hrest
      obtain ⟨hbss, hrenames⟩ := ih hlater hnamed'
      exact ⟨hbss.trans hmiddle.1, hrenames.trans hmiddle.2⟩

end OpenWrt.Hostapd
