/-
# What the steps of a reload do

One lemma for each step of a reload says everything the step may have done when it is
passed. The results on the running BSSs and on the addresses are read off these lemmas.
-/

import OpenWrt.Hostapd.Reload

namespace OpenWrt.Hostapd

variable {env : ReloadEnv} {iface iface' : Iface} {marks marks' : Marks}

/-! ## Looking up a BSS -/

namespace Iface

def NamedBy (iface : Iface) (handle : ℕ) (name : String) : Prop :=
  ∀ entry ∈ iface.bss, entry.handle = handle → entry.name = name

theorem eq_of_handle_eq {first second : RunningBss} (hfirst : first ∈ iface.bss)
    (hsecond : second ∈ iface.bss) (h : first.handle = second.handle) : first = second :=
  List.inj_on_of_nodup_map iface.nodup hfirst hsecond h

variable {name : String} {handle : ℕ} {driver : Driver}

theorem exists_of_find (h : iface.find name = some handle) :
    ∃ entry ∈ iface.bss, entry.handle = handle ∧ entry.name = name := by
  obtain ⟨entry, hfind, rfl⟩ := Option.map_eq_some_iff.mp h
  refine ⟨entry, List.mem_reverse.mp (List.mem_of_find?_eq_some hfind), rfl, ?_⟩
  have hname := List.find?_some hfind
  simpa using hname

theorem namedBy_of_find (h : iface.find name = some handle) : iface.NamedBy handle name := by
  obtain ⟨found, hfound, hhandle, hname⟩ := exists_of_find h
  intro entry hentry heq
  rw [eq_of_handle_eq hentry hfound (heq.trans hhandle.symm), hname]

theorem mem_handles_of_find (h : iface.find name = some handle) : handle ∈ iface.handles := by
  obtain ⟨entry, hentry, rfl, -⟩ := exists_of_find h
  exact List.mem_map_of_mem hentry

theorem not_mem_names_of_find (h : iface.find name = none) : name ∉ iface.names := by
  intro hmem
  obtain ⟨entry, hentry, hname⟩ := List.mem_map.mp hmem
  have hnone := List.find?_eq_none.mp (Option.map_eq_none_iff.mp h) entry
    (List.mem_reverse.mpr hentry)
  simp [hname] at hnone

theorem mem_bss_of_mem_delete {entry : RunningBss} (h : entry ∈ (iface.delete handle).bss) :
    entry ∈ iface.bss := by
  unfold delete at h
  split at h
  · exact h
  · exact List.mem_of_mem_filter h

@[simp]
theorem next_delete (handle : ℕ) : (iface.delete handle).next = iface.next := by
  unfold delete
  split <;> rfl

@[simp]
theorem renames_delete (handle : ℕ) : (iface.delete handle).renames = iface.renames := by
  unfold delete
  split <;> rfl

theorem handles_setName (handle : ℕ) (name : String) :
    (iface.setName handle name).handles = iface.handles :=
  map_handle_renamed handle name iface.bss

theorem namedBy_setName_self (handle : ℕ) (name : String) :
    (iface.setName handle name).NamedBy handle name := by
  intro entry hentry heq
  obtain ⟨bss, -, rfl⟩ := List.mem_map.mp hentry
  rw [handle_renamed] at heq
  simp [renamed, heq]

theorem NamedBy.setName_of_ne {handle other : ℕ} {name name' : String} (hne : other ≠ handle)
    (h : iface.NamedBy other name') : (iface.setName handle name).NamedBy other name' := by
  intro entry hentry heq
  obtain ⟨bss, hbss, rfl⟩ := List.mem_map.mp hentry
  rw [handle_renamed] at heq
  rw [renamed, if_neg (by rwa [heq])]
  exact h bss hbss heq

theorem setName_bss_of_namedBy (h : iface.NamedBy handle name) :
    (iface.setName handle name).bss = iface.bss := by
  change iface.bss.map (renamed handle name) = iface.bss
  conv_rhs => rw [← List.map_id iface.bss]
  refine List.map_congr_left fun entry hentry => ?_
  unfold renamed
  split
  case isTrue heq => rw [← h entry hentry heq]; rfl
  case isFalse => rfl

/-- What a rename that was made has done. -/
structure Renamed (iface : Iface) (driver : Driver) (handle : ℕ) (name : String)
    (iface' : Iface) : Prop where
  bss : iface'.bss = (iface.setName handle name).bss
  next : iface'.next = iface.next
  renames : iface'.renames = iface.renames ++ [⟨iface.names, name⟩]
  taken : driver.rename iface.bss handle name = true

theorem renamed_of_rename (h : iface.rename driver handle name = some iface') :
    Renamed iface driver handle name iface' := by
  unfold rename at h
  split at h
  case isTrue hcond =>
    cases h
    exact ⟨rfl, rfl, rfl, hcond.2⟩
  case isFalse => cases h

theorem Renamed.handles (h : Renamed iface driver handle name iface') :
    iface'.handles = iface.handles := by
  rw [Iface.handles, h.bss]
  exact handles_setName handle name

theorem Renamed.namedBy_self (h : Renamed iface driver handle name iface') :
    iface'.NamedBy handle name := by
  unfold NamedBy
  rw [h.bss]
  exact namedBy_setName_self handle name

theorem Renamed.namedBy_of_ne {handle other : ℕ} {name name' : String}
    (h : Renamed iface driver handle name iface') (hne : other ≠ handle)
    (hnamed : iface.NamedBy other name') : iface'.NamedBy other name' := by
  unfold NamedBy
  rw [h.bss]
  exact hnamed.setName_of_ne hne

end Iface

theorem getConfigBss_eq_some {bss : List Bss} {idx handle : ℕ}
    (h : getConfigBss iface bss idx = some handle) :
    ∃ entry, bss[idx]? = some entry ∧ iface.find entry.ifname = some handle := by
  obtain ⟨entry, hentry, hfind⟩ := Option.bind_eq_some_iff.mp h
  split at hfind
  · cases hfind
  · exact ⟨entry, hentry, hfind⟩

theorem getConfigBss_congr {first second : List Bss}
    (h : first.map Bss.ifname = second.map Bss.ifname) (idx : ℕ) :
    getConfigBss iface first idx = getConfigBss iface second idx := by
  have hnames : ∀ bss : List Bss, getConfigBss iface bss idx =
      (bss.map Bss.ifname)[idx]?.bind fun ifname =>
        if ifname = "" then none else iface.find ifname := by
    intro bss
    rw [List.getElem?_map, getConfigBss, Option.bind_map]
    rfl
  rw [hnames, hnames, h]

/-! ## Steps 1 and 2 -/

section Match

variable {i : ℕ} {cur : Bss} {entry : Entry}

/-- The marks after the old BSS `p` is consumed. -/
def Marks.consume (marks : Marks) (p : ℕ) : Marks :=
  { marks with prevHash := marks.prevHash.set p none }

/-- What one turn of the matching may do. -/
inductive MatchStep (env : ReloadEnv) (iface : Iface) (i : ℕ) (cur : Bss) (marks : Marks) :
    Marks → Entry → Prop
  | /-- No old BSS has the content. -/
    missing (hprev : findPrev env i cur marks.prevHash = none) :
      MatchStep env iface i cur marks marks ⟨cur, none⟩
  | /-- The old BSS is consumed, but its reload is forced. -/
    forced {p : ℕ} {prev : Bss} (hprev : findPrev env i cur marks.prevHash = some p)
      (hold : marks.old[p]? = some prev) (hforce : prev.forceReload = true) :
      MatchStep env iface i cur marks
        { marks.consume p with old := marks.old.set p { prev with forceReload := false } }
        ⟨cur, none⟩
  | /-- The old BSS is preserved with its address. -/
    takes {p : ℕ} {prev : Bss} {handle : ℕ}
      (hprev : findPrev env i cur marks.prevHash = some p) (hold : marks.old[p]? = some prev)
      (hforce : prev.forceReload = false) (hfound : getConfigBss iface marks.old p = some handle)
      (htakes : takesMacaddr marks.macaddrs cur prev) :
      MatchStep env iface i cur marks
        { marks.consume p with macaddrs := marks.macaddrs.put prev.bssid i }
        ⟨{ cur with bssid := prev.bssid }, some ⟨p, handle, prev, false⟩⟩
  | /-- The old BSS is preserved, its address is not. -/
    keeps {p : ℕ} {prev : Bss} {handle : ℕ}
      (hprev : findPrev env i cur marks.prevHash = some p) (hold : marks.old[p]? = some prev)
      (hforce : prev.forceReload = false) (hfound : getConfigBss iface marks.old p = some handle)
      (htakes : ¬ takesMacaddr marks.macaddrs cur prev) :
      MatchStep env iface i cur marks (marks.consume p) ⟨cur, some ⟨p, handle, prev, false⟩⟩

theorem matchStep_of_matchBss (h : matchBss env iface i cur marks = some (marks', entry)) :
    MatchStep env iface i cur marks marks' entry := by
  unfold matchBss at h
  split at h
  case h_1 hprev =>
    cases h
    exact .missing hprev
  case h_2 p hprev =>
    dsimp only at h
    split at h
    case h_1 => cases h
    case h_2 prev hold =>
      split at h
      case isTrue hforce =>
        cases h
        exact .forced hprev hold hforce
      case isFalse hforce =>
        have hnot : prev.forceReload = false := by simpa using hforce
        split at h
        case h_1 => cases h
        case h_2 handle hfound =>
          split at h
          case isTrue htakes =>
            cases h
            exact .takes hprev hold hnot hfound htakes
          case isFalse htakes =>
            cases h
            exact .keeps hprev hold hnot hfound htakes

/-- What step 1 does, turn by turn. -/
inductive MatchRun (env : ReloadEnv) (iface : Iface) :
    ℕ → List Bss → Marks → Marks → List Entry → Prop
  | /-- No BSS is left. -/
    nil {i : ℕ} {marks : Marks} : MatchRun env iface i [] marks marks []
  | /-- One turn. -/
    cons {i : ℕ} {cur : Bss} {rest : List Bss} {marks middle marks' : Marks} {entry : Entry}
      {entries : List Entry} (first : MatchStep env iface i cur marks middle entry)
      (later : MatchRun env iface (i + 1) rest middle marks' entries) :
      MatchRun env iface i (cur :: rest) marks marks' (entry :: entries)

theorem matchRun_of_matchAll {bss : List Bss} {entries : List Entry}
    (h : matchAll env iface i bss marks = some (marks', entries)) :
    MatchRun env iface i bss marks marks' entries := by
  induction bss generalizing i marks marks' entries with
  | nil =>
    cases h
    exact .nil
  | cons cur rest ih =>
    simp only [matchAll, Option.bind_eq_bind, Option.bind_eq_some_iff, Prod.exists,
      Option.pure_def, Option.some.injEq, Prod.mk.injEq] at h
    obtain ⟨middle, entry, hfirst, last, tail, hlater, rfl, rfl⟩ := h
    exact .cons (matchStep_of_matchBss hfirst) (ih hlater)

/-- What step 2 may do. -/
inductive PreserveStep (iface : Iface) (marks : Marks) (entries : List Entry) :
    Marks → List Entry → Prop
  | /-- A BSS is preserved already. -/
    matched (hslot : ∃ entry ∈ entries, entry.slot.isSome) :
      PreserveStep iface marks entries marks entries
  | /-- None is: the first one keeps its BSS with the address. -/
    first {entry : Entry} {rest : List Entry} {prev : Bss} {old : List Bss} {handle : ℕ}
      (hslot : ∀ entry ∈ entries, entry.slot = none) (hentries : entries = entry :: rest)
      (hold : marks.old = prev :: old)
      (hbssid : entry.bss.bssid = prev.bssid ∨ entry.bss.defaultMacaddr = true)
      (hfound : getConfigBss iface marks.old 0 = some handle) :
      PreserveStep iface marks entries
        { marks.consume 0 with macaddrs := marks.macaddrs.put prev.bssid 0 }
        (⟨{ entry.bss with bssid := prev.bssid }, some ⟨0, handle, prev, false⟩⟩ :: rest)

theorem preserveStep_of_preserveFirst {entries entries' : List Entry}
    (h : preserveFirst iface marks entries = some (marks', entries')) :
    PreserveStep iface marks entries marks' entries' := by
  unfold preserveFirst at h
  split at h
  case isTrue hslot =>
    cases h
    exact .matched hslot
  case isFalse hslot =>
    have hnone : ∀ entry ∈ entries, entry.slot = none := by
      intro entry hentry
      by_contra hsome
      exact hslot ⟨entry, hentry, Option.isSome_iff_ne_none.mpr hsome⟩
    split at h
    case h_1 entry rest prev old hold =>
      split at h
      case isTrue => cases h
      case isFalse hbssid =>
        obtain ⟨handle, hfound, heq⟩ := Option.map_eq_some_iff.mp h
        cases heq
        rw [not_and_or, not_not, not_not] at hbssid
        exact .first hnone rfl hold hbssid hfound
    case h_2 => cases h

end Match

/-! ## Steps 4 and 5 -/

section Pass

variable {step : Iface → String → Slot → Option (Iface × Slot)} {entries entries' : List Entry}

/-- What a step on one preserved BSS does: nothing, or a rename to the name in its entry. -/
structure SlotStep (driver : Driver) (iface : Iface) (slot : Slot) (iface' : Iface)
    (slot' : Slot) : Prop where
  handle : slot'.handle = slot.handle
  prev : slot'.prev = slot.prev
  moved : (iface' = iface ∧ slot'.cfg.ifname = slot.cfg.ifname) ∨
    iface.Renamed driver slot.handle slot'.cfg.ifname iface'

theorem slotStep_of_renameSlot {ifname : String} {slot slot' : Slot}
    (h : renameSlot env iface ifname slot = some (iface', slot')) :
    SlotStep env.driver iface slot iface' slot' := by
  unfold renameSlot at h
  split at h
  case isTrue =>
    cases h
    exact ⟨rfl, rfl, .inl ⟨rfl, rfl⟩⟩
  case isFalse =>
    obtain ⟨after, hrename, heq⟩ := Option.map_eq_some_iff.mp h
    cases heq
    exact ⟨rfl, rfl, .inr (Iface.renamed_of_rename hrename)⟩

theorem slotStep_of_renameTemp {ifname : String} {slot slot' : Slot}
    (h : renameTemp env iface ifname slot = some (iface', slot')) :
    SlotStep env.driver iface slot iface' slot' := by
  unfold renameTemp at h
  split at h
  case isTrue =>
    obtain ⟨after, hrename, heq⟩ := Option.map_eq_some_iff.mp h
    cases heq
    exact ⟨rfl, rfl, .inr (Iface.renamed_of_rename hrename)⟩
  case isFalse =>
    cases h
    exact ⟨rfl, rfl, .inl ⟨rfl, rfl⟩⟩

/-- What a pass does, BSS by BSS. -/
inductive PassRun (step : Iface → String → Slot → Option (Iface × Slot)) :
    Iface → List Entry → Iface → List Entry → Prop
  | /-- No entry is left. -/
    nil {iface : Iface} : PassRun step iface [] iface []
  | /-- An entry with no BSS stays. -/
    skip {iface iface' : Iface} {bss : Bss} {rest rest' : List Entry}
      (later : PassRun step iface rest iface' rest') :
      PassRun step iface (⟨bss, none⟩ :: rest) iface' (⟨bss, none⟩ :: rest')
  | /-- A step on a preserved BSS. -/
    cons {iface middle iface' : Iface} {bss : Bss} {slot slot' : Slot} {rest rest' : List Entry}
      (first : step iface bss.ifname slot = some (middle, slot'))
      (later : PassRun step middle rest iface' rest') :
      PassRun step iface (⟨bss, some slot⟩ :: rest) iface' (⟨bss, some slot'⟩ :: rest')

theorem passRun_of_passSlots (h : passSlots step iface entries = some (iface', entries')) :
    PassRun step iface entries iface' entries' := by
  induction entries generalizing iface iface' entries' with
  | nil =>
    cases h
    exact .nil
  | cons entry rest ih =>
    obtain ⟨bss, slot⟩ := entry
    cases slot with
    | none =>
      simp only [passSlots, Option.bind_eq_bind, Option.bind_eq_some_iff, Prod.exists,
        Option.pure_def, Option.some.injEq, Prod.mk.injEq] at h
      obtain ⟨last, tail, hlater, rfl, rfl⟩ := h
      exact .skip (ih hlater)
    | some slot =>
      simp only [passSlots, Option.bind_eq_bind, Option.bind_eq_some_iff, Prod.exists,
        Option.pure_def, Option.some.injEq, Prod.mk.injEq] at h
      obtain ⟨middle, slot', hfirst, last, tail, hlater, rfl, rfl⟩ := h
      exact .cons hfirst (ih hlater)

end Pass

/-! ## Step 6 -/

section Assign

variable {state state' : MacaddrList × List Entry} {i : ℕ}

/-- What one turn of the address assignment may do. -/
inductive AssignStep (env : ReloadEnv) (state : MacaddrList × List Entry) (i : ℕ) :
    MacaddrList × List Entry → Prop
  | /-- There is no new BSS at the index. -/
    preserved (hslot : ∀ entry ∈ state.2[i]?, entry.slot ≠ none) : AssignStep env state i state
  | /-- The address is listed for this BSS. -/
    own {bss : Bss} (hentry : state.2[i]? = some ⟨bss, none⟩)
      (hown : state.1.get bss.bssid = some (i : ℤ)) : AssignStep env state i state
  | /-- The BSS, or the one that was given its address, gets another one. -/
    next {bss : Bss} {target : ℕ} {entry : Entry} {addr : String} {macaddrs macaddrs' : MacaddrList}
      (hentry : state.2[i]? = some ⟨bss, none⟩)
      (hmacaddrs : macaddrs = if (state.1.get bss.bssid).any (· < 0) then state.1.put bss.bssid i
        else state.1)
      (htarget : (bss.defaultMacaddr = true ∧ target = i) ∨
        (bss.defaultMacaddr = false ∧ 0 < target ∧ state.1.get bss.bssid = some (target : ℤ) ∧
          target ≠ i))
      (hmoved : state.2[target]? = some entry)
      (hnext : bssMacaddrNext env.phydev macaddrs entry.bss i = some (addr, macaddrs')) :
      AssignStep env state i
        (macaddrs', state.2.set target
          { entry with bss := { entry.bss with bssid := some addr } })

theorem assignStep_of_assignBssid (h : assignBssid env state i = some state') :
    AssignStep env state i state' := by
  unfold assignBssid at h
  split at h
  case h_1 bss hentry =>
    dsimp only at h
    split at h
    case isTrue hown =>
      have hnot : ¬ ((state.1.get bss.bssid).any (· < 0)) = true := by
        rw [hown]
        simp
      rw [if_neg hnot] at h
      cases h
      exact .own hentry hown
    case isFalse hown =>
      split at h
      case isTrue => cases h
      case isFalse hmove =>
        split at h
        case h_1 => cases h
        case h_2 entry hmoved =>
          obtain ⟨⟨addr, macaddrs'⟩, hnext, heq⟩ := Option.map_eq_some_iff.mp h
          cases heq
          refine .next hentry rfl ?_ hmoved hnext
          cases hdefault : bss.defaultMacaddr with
          | true => exact .inl ⟨rfl, if_pos rfl⟩
          | false =>
            rw [hdefault] at hmove
            have hpos : 0 < (state.1.get bss.bssid).getD 0 := by simpa using hmove
            cases hget : state.1.get bss.bssid with
            | none => simp [hget] at hpos
            | some value =>
              rw [hget, Option.getD_some] at hpos
              have hcast : ((value.toNat : ℕ) : ℤ) = value := Int.toNat_of_nonneg (by omega)
              refine .inr ⟨rfl, ?_, ?_, ?_⟩
              · simpa using hpos
              · simp [hcast]
              · intro hi
                have heq : value.toNat = i := by simpa using hi
                exact hown (by rw [hget, ← heq, hcast])
  case h_2 hnone =>
    cases h
    refine .preserved fun entry hentry hslot => ?_
    obtain ⟨bss, slot⟩ := entry
    cases hslot
    exact hnone bss hentry

end Assign

end OpenWrt.Hostapd
