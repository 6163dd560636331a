/-
# The multi-link devices that are kept

An unchanged device keeps its record exactly when it is set up and no other device with the same
configuration stands between: the unchanged devices of one configuration, in the order of the new
list, have to be the first old ones with it. The interfaces of the removed devices are reloaded,
and the network device of a kept one is left alone when the reloads find it in place.
-/

import OpenWrt.Hostapd.MldReload

namespace OpenWrt.Hostapd

variable {prevMld : List (String × MldData)} {configs : List (String × MldConfig)}
  {name : String} {config : MldConfig} {data : MldData}

/-! ## The matching -/

/-- The old devices with the configuration, in the order of the table. -/
def namesWith (prevMld : List (String × MldData)) (config : MldConfig) : List String :=
  (prevMld.filter fun entry => entry.2.config = config).map Prod.fst

/-- The new devices with the configuration that had it before, in the order of the new list. -/
def unchangedWith (prevMld : List (String × MldData)) (configs : List (String × MldConfig))
    (config : MldConfig) : List String :=
  (configs.filter fun entry => entry.2 = config ∧ entry.1 ∈ namesWith prevMld config).map Prod.fst

/-- The device is found under its configuration and has the name it is set up with. -/
def TakesOver (prevMld : List (String × MldData)) (name : String) (config : MldConfig) : Prop :=
  ∃ data, mldFindMatchingConfig prevMld config = some (name, data) ∧ data.ifname = some name

/-- A device that is set up has the name it is found under. -/
def IsNamed (prevMld : List (String × MldData)) : Prop :=
  ∀ entry ∈ prevMld, ∀ ifname ∈ entry.2.ifname, ifname = entry.1

theorem mem_namesWith : name ∈ namesWith prevMld config ↔
    ∃ data, (name, data) ∈ prevMld ∧ data.config = config := by
  simp [namesWith]

theorem mldMatch_cons_of_takesOver (h : TakesOver prevMld name config) :
    mldMatch prevMld ((name, config) :: configs) =
      ((name, .kept name) :: (mldMatch (prevMld.filter fun entry => entry.1 ≠ name) configs).1,
        (mldMatch (prevMld.filter fun entry => entry.1 ≠ name) configs).2) := by
  obtain ⟨data, hfind, hifname⟩ := h
  simp only [mldMatch, hfind, if_pos hifname]

theorem mldMatch_cons_of_not_takesOver (hnamed : IsNamed prevMld)
    (h : ¬ TakesOver prevMld name config) :
    mldMatch prevMld ((name, config) :: configs) =
      ((name, .new config) :: (mldMatch prevMld configs).1, (mldMatch prevMld configs).2) := by
  cases hfind : mldFindMatchingConfig prevMld config with
  | none => simp only [mldMatch, hfind]
  | some entry =>
    obtain ⟨prev, data⟩ := entry
    have hifname : ¬ data.ifname = some name := by
      intro hifname
      have hprev : name = prev := hnamed _ (List.mem_of_find?_eq_some hfind) name hifname
      exact h ⟨data, hprev ▸ hfind, hifname⟩
    simp only [mldMatch, hfind, if_neg hifname]

/-- The matching goes over the new list in its order. -/
theorem map_fst_mldMatch (prevMld : List (String × MldData))
    (configs : List (String × MldConfig)) :
    (mldMatch prevMld configs).1.map Prod.fst = configs.map Prod.fst := by
  induction configs generalizing prevMld with
  | nil => rfl
  | cons entry rest ih =>
    obtain ⟨name, config⟩ := entry
    unfold mldMatch
    cases mldFindMatchingConfig prevMld config with
    | none => simp only [List.map_cons, ih]
    | some found =>
      obtain ⟨prev, data⟩ := found
      by_cases hifname : data.ifname = some name
      · simp only [if_pos hifname, List.map_cons, ih]
      · simp only [if_neg hifname, List.map_cons, ih]

theorem eq_of_fst_eq (hnodup : (prevMld.map Prod.fst).Nodup) {data' : MldData}
    (h : (name, data) ∈ prevMld) (h' : (name, data') ∈ prevMld) : data = data' :=
  (Prod.mk.inj (List.inj_on_of_nodup_map hnodup h h' rfl)).2

/-- What is taken over comes first among the devices with its configuration. -/
theorem takesOver_iff (hnamed : IsNamed prevMld) (hnodup : (prevMld.map Prod.fst).Nodup) :
    TakesOver prevMld name config ↔
      (namesWith prevMld config).head? = some name ∧
        ∀ data, (name, data) ∈ prevMld → data.config = config → data.ifname ≠ none := by
  have hhead : (namesWith prevMld config).head? =
      (mldFindMatchingConfig prevMld config).map Prod.fst := by
    rw [namesWith, List.head?_map, List.head?_filter]
    rfl
  rw [hhead]
  constructor
  · rintro ⟨data, hfind, hifname⟩
    refine ⟨by rw [hfind]; rfl, fun data' hmem _ => ?_⟩
    rw [← eq_of_fst_eq hnodup (List.mem_of_find?_eq_some hfind) hmem, hifname]
    exact Option.some_ne_none _
  · rintro ⟨hfirst, hset⟩
    obtain ⟨⟨prev, data⟩, hfind, rfl⟩ := Option.map_eq_some_iff.mp hfirst
    have hmem := List.mem_of_find?_eq_some hfind
    have hconfig : data.config = config := by simpa using List.find?_some hfind
    obtain ⟨ifname, hifname⟩ := Option.ne_none_iff_exists'.mp (hset data hmem hconfig)
    exact ⟨data, hfind, hifname.trans (congrArg some (hnamed _ hmem ifname hifname))⟩

section Erase

variable {configs : List (String × MldConfig)} {other : MldConfig}

theorem namesWith_erase (prevMld : List (String × MldData)) (name : String) (config : MldConfig) :
    namesWith (prevMld.filter fun entry => entry.1 ≠ name) config =
      (namesWith prevMld config).filter (· ≠ name) := by
  simp only [namesWith, List.filter_map, List.filter_filter, Bool.and_comm, Function.comp_def]

theorem unchangedWith_erase (hnew : name ∉ configs.map Prod.fst) :
    unchangedWith (prevMld.filter fun entry => entry.1 ≠ name) configs config =
      unchangedWith prevMld configs config := by
  unfold unchangedWith
  congr 1
  refine List.filter_congr fun entry hentry => ?_
  have hne : entry.1 ≠ name := by
    rintro rfl
    exact hnew (List.mem_map_of_mem hentry)
  rw [namesWith_erase]
  simp [hne]

theorem unchangedWith_cons :
    unchangedWith prevMld ((name, config) :: configs) other =
      if config = other ∧ name ∈ namesWith prevMld other then
        name :: unchangedWith prevMld configs other
      else unchangedWith prevMld configs other := by
  by_cases h : config = other ∧ name ∈ namesWith prevMld other
  · rw [if_pos h, unchangedWith, List.filter_cons_of_pos (by simpa using h)]
    rfl
  · rw [if_neg h, unchangedWith, List.filter_cons_of_neg (by simpa using h)]
    rfl

end Erase

/-- Each unchanged device keeps its record. -/
def KeepsAll (prevMld : List (String × MldData)) (configs : List (String × MldConfig)) : Prop :=
  ∀ name config, (name, config) ∈ configs → name ∈ namesWith prevMld config →
    (name, .kept name) ∈ (mldMatch prevMld configs).1

/-- The unchanged devices of a configuration are the first old ones with it. -/
def IsInOrder (prevMld : List (String × MldData)) (configs : List (String × MldConfig)) : Prop :=
  ∀ config, unchangedWith prevMld configs config <+: namesWith prevMld config

/-- The unchanged devices are set up. -/
def IsSetUp (prevMld : List (String × MldData)) (configs : List (String × MldConfig)) : Prop :=
  ∀ name data, (name, data) ∈ prevMld → (name, data.config) ∈ configs → data.ifname ≠ none

section Step

variable (hnamed : IsNamed prevMld) (hnodup : (prevMld.map Prod.fst).Nodup)
  (hnew : name ∉ configs.map Prod.fst)

include hnew

theorem keepsAll_cons_of_takesOver (h : TakesOver prevMld name config) :
    KeepsAll prevMld ((name, config) :: configs) ↔
      KeepsAll (prevMld.filter fun entry => entry.1 ≠ name) configs := by
  have hne : ∀ other other', (other, other') ∈ configs → other ≠ name := by
    rintro other other' hmem rfl
    exact hnew (List.mem_map_of_mem hmem)
  unfold KeepsAll
  rw [mldMatch_cons_of_takesOver h]
  constructor
  · intro hkeeps other other' hmem hold
    rw [namesWith_erase] at hold
    rcases List.mem_cons.mp (hkeeps other other' (List.mem_cons_of_mem _ hmem)
      (List.mem_of_mem_filter hold)) with heq | hkept
    · exact absurd (Prod.mk.inj heq).1 (hne other other' hmem)
    · exact hkept
  · intro hkeeps other other' hmem hold
    rcases List.mem_cons.mp hmem with heq | hmem
    · cases heq
      exact List.mem_cons_self
    · refine List.mem_cons_of_mem _ (hkeeps other other' hmem ?_)
      rw [namesWith_erase]
      exact List.mem_filter.mpr ⟨hold, by simpa using hne other other' hmem⟩

include hnamed in
theorem keepsAll_cons_of_not_takesOver (h : ¬ TakesOver prevMld name config) :
    KeepsAll prevMld ((name, config) :: configs) ↔
      name ∉ namesWith prevMld config ∧ KeepsAll prevMld configs := by
  have hne : ∀ other other', (other, other') ∈ configs → other ≠ name := by
    rintro other other' hmem rfl
    exact hnew (List.mem_map_of_mem hmem)
  unfold KeepsAll
  rw [mldMatch_cons_of_not_takesOver hnamed h]
  constructor
  · refine fun hkeeps => ⟨fun hold => ?_, fun other other' hmem hold => ?_⟩
    · rcases List.mem_cons.mp (hkeeps name config List.mem_cons_self hold) with heq | hmem
      · cases heq
      · exact hnew (map_fst_mldMatch prevMld configs ▸ List.mem_map_of_mem hmem)
    · rcases List.mem_cons.mp (hkeeps other other' (List.mem_cons_of_mem _ hmem) hold) with
        heq | hkept
      · exact absurd (Prod.mk.inj heq).1 (hne other other' hmem)
      · exact hkept
  · rintro ⟨hnone, hkeeps⟩ other other' hmem hold
    rcases List.mem_cons.mp hmem with heq | hmem
    · cases heq
      exact absurd hold hnone
    · exact List.mem_cons_of_mem _ (hkeeps other other' hmem hold)

include hnodup

theorem isSetUp_cons_of_takesOver (h : TakesOver prevMld name config) :
    IsSetUp prevMld ((name, config) :: configs) ↔
      IsSetUp (prevMld.filter fun entry => entry.1 ≠ name) configs := by
  obtain ⟨data, hfind, hifname⟩ := h
  constructor
  · intro hset other data' hmem hconfig
    exact hset other data' (List.mem_of_mem_filter hmem) (List.mem_cons_of_mem _ hconfig)
  · intro hset other data' hmem hconfig
    by_cases hother : other = name
    · subst hother
      rw [← eq_of_fst_eq hnodup (List.mem_of_find?_eq_some hfind) hmem, hifname]
      exact Option.some_ne_none _
    · refine hset other data' (List.mem_filter.mpr ⟨hmem, by simpa using hother⟩) ?_
      exact (List.mem_cons.mp hconfig).resolve_left fun heq => hother (Prod.mk.inj heq).1

include hnamed

theorem isInOrder_cons_of_takesOver (h : TakesOver prevMld name config) :
    IsInOrder prevMld ((name, config) :: configs) ↔
      IsInOrder (prevMld.filter fun entry => entry.1 ≠ name) configs := by
  obtain ⟨rest, hrest⟩ := List.head?_eq_some_iff.mp ((takesOver_iff hnamed hnodup).mp h).1
  have hnodup' : ∀ other, (namesWith prevMld other).Nodup := fun other =>
    (List.filter_sublist.map _).nodup hnodup
  have hfirst : name ∉ rest := by
    have hall := hnodup' config
    rw [hrest] at hall
    exact (List.nodup_cons.mp hall).1
  refine forall_congr' fun other => ?_
  rw [unchangedWith_erase hnew, namesWith_erase, unchangedWith_cons]
  by_cases hother : config = other
  · subst hother
    rw [hrest, if_pos ⟨rfl, List.mem_cons_self⟩, List.cons_prefix_cons,
      List.filter_cons_of_neg (by simp), List.filter_eq_self.mpr]
    · exact and_iff_right rfl
    · rintro other hmem
      simpa using ne_of_mem_of_not_mem hmem hfirst
  · rw [if_neg fun h => hother h.1, List.filter_eq_self.mpr]
    intro other' hmem
    have hne : other' ≠ name := by
      rintro rfl
      obtain ⟨data, hdata, hconfig⟩ := mem_namesWith.mp hmem
      obtain ⟨data', hdata', hconfig'⟩ := mem_namesWith.mp (hrest ▸ List.mem_cons_self)
      rw [eq_of_fst_eq hnodup hdata hdata'] at hconfig
      exact hother (hconfig'.symm.trans hconfig)
    simpa using hne

end Step

/-- Where a device is not taken over, nothing changes unless it is an unchanged one. -/
theorem isInOrder_and_isSetUp_cons_of_not_takesOver (hnamed : IsNamed prevMld)
    (hnodup : (prevMld.map Prod.fst).Nodup) (h : ¬ TakesOver prevMld name config) :
    IsInOrder prevMld ((name, config) :: configs) ∧ IsSetUp prevMld ((name, config) :: configs) ↔
      name ∉ namesWith prevMld config ∧ IsInOrder prevMld configs ∧ IsSetUp prevMld configs := by
  by_cases hold : name ∈ namesWith prevMld config
  · refine iff_of_false (fun hall => h ((takesOver_iff hnamed hnodup).mpr ⟨?_, ?_⟩))
      (fun hall => hall.1 hold)
    · have hprefix := hall.1 config
      rw [unchangedWith_cons, if_pos ⟨rfl, hold⟩] at hprefix
      obtain ⟨rest, hrest⟩ := hprefix
      rw [← hrest]
      rfl
    · rintro data hmem rfl
      exact hall.2 name data hmem List.mem_cons_self
  · refine ⟨fun hall => ⟨hold, fun other => ?_, fun other data hmem hconfig => ?_⟩,
      fun hall => ⟨fun other => ?_, fun other data hmem hconfig => ?_⟩⟩
    · have hprefix := hall.1 other
      rwa [unchangedWith_cons, if_neg] at hprefix
      rintro ⟨rfl, hmem⟩
      exact hold hmem
    · exact hall.2 other data hmem (List.mem_cons_of_mem _ hconfig)
    · rw [unchangedWith_cons, if_neg]
      · exact hall.2.1 other
      · rintro ⟨rfl, hmem⟩
        exact hold hmem
    · refine hall.2.2 other data hmem ((List.mem_cons.mp hconfig).resolve_left fun heq => hold ?_)
      cases heq
      exact mem_namesWith.mpr ⟨data, hmem, rfl⟩

theorem keepsAll_iff (hnamed : IsNamed prevMld) (hnodup : (prevMld.map Prod.fst).Nodup)
    (hconfigs : (configs.map Prod.fst).Nodup) :
    KeepsAll prevMld configs ↔ IsInOrder prevMld configs ∧ IsSetUp prevMld configs := by
  induction configs generalizing prevMld with
  | nil =>
    exact iff_of_true (fun _ _ hmem => absurd hmem List.not_mem_nil)
      ⟨fun _ => List.nil_prefix, fun _ _ _ hmem => absurd hmem List.not_mem_nil⟩
  | cons entry rest ih =>
    obtain ⟨name, config⟩ := entry
    obtain ⟨hnew, hrest⟩ := List.nodup_cons.mp hconfigs
    by_cases h : TakesOver prevMld name config
    · rw [keepsAll_cons_of_takesOver hnew h, isInOrder_cons_of_takesOver hnamed hnodup hnew h,
        isSetUp_cons_of_takesOver hnodup hnew h]
      exact ih (fun entry hmem => hnamed entry (List.mem_of_mem_filter hmem))
        ((List.filter_sublist.map _).nodup hnodup) hrest
    · rw [keepsAll_cons_of_not_takesOver hnamed hnew h,
        isInOrder_and_isSetUp_cons_of_not_takesOver hnamed hnodup h, ih hnamed hnodup hrest]

/-! ## The removed devices -/

/-- Only an unchanged device is taken over, and under its own name. -/
theorem of_kept_mem_mldMatch (hnamed : IsNamed prevMld) {prev : String}
    (h : (name, MldSource.kept prev) ∈ (mldMatch prevMld configs).1) :
    prev = name ∧ ∃ data, (name, data) ∈ prevMld ∧ (name, data.config) ∈ configs := by
  induction configs generalizing prevMld with
  | nil => exact absurd h List.not_mem_nil
  | cons entry rest ih =>
    obtain ⟨name', config⟩ := entry
    by_cases htakes : TakesOver prevMld name' config
    · rw [mldMatch_cons_of_takesOver htakes] at h
      rcases List.mem_cons.mp h with heq | hmem
      · cases heq
        obtain ⟨data, hfind, hifname⟩ := htakes
        have hconfig : data.config = config := by simpa using List.find?_some hfind
        exact ⟨rfl, data, List.mem_of_find?_eq_some hfind, hconfig ▸ List.mem_cons_self⟩
      · obtain ⟨rfl, data, hdata, hconfig⟩ :=
          ih (fun entry hmem => hnamed entry (List.mem_of_mem_filter hmem)) hmem
        exact ⟨rfl, data, List.mem_of_mem_filter hdata, List.mem_cons_of_mem _ hconfig⟩
    · rw [mldMatch_cons_of_not_takesOver hnamed htakes] at h
      rcases List.mem_cons.mp h with heq | hmem
      · cases heq
      · obtain ⟨rfl, data, hdata, hconfig⟩ := ih hnamed hmem
        exact ⟨rfl, data, hdata, List.mem_cons_of_mem _ hconfig⟩

/-- What is not taken over is left, in the order of the table. -/
theorem mldMatch_left (hnamed : IsNamed prevMld) (configs : List (String × MldConfig)) :
    (mldMatch prevMld configs).2 =
      prevMld.filter fun entry => (entry.1, .kept entry.1) ∉ (mldMatch prevMld configs).1 := by
  induction configs generalizing prevMld with
  | nil => simp [mldMatch]
  | cons entry rest ih =>
    obtain ⟨name, config⟩ := entry
    by_cases htakes : TakesOver prevMld name config
    · rw [mldMatch_cons_of_takesOver htakes]
      dsimp only
      rw [ih fun entry hmem => hnamed entry (List.mem_of_mem_filter hmem), List.filter_filter]
      refine List.filter_congr fun entry _ => ?_
      by_cases hentry : entry.1 = name <;> simp [hentry]
    · rw [mldMatch_cons_of_not_takesOver hnamed htakes]
      dsimp only
      rw [ih hnamed]
      simp

/-! ## A call -/

namespace MldSet

variable (call : MldSet)

/-- The old device is in the new list, with the same configuration. -/
def IsUnchanged (name : String) (data : MldData) : Prop :=
  (name, data) ∈ call.table.entries ∧ (name, data.config) ∈ call.configs.entries

/-- The old devices that are gone or have changed. -/
def gone : List (String × MldData) :=
  call.table.entries.filter fun entry => (entry.1, entry.2.config) ∉ call.configs.entries

/-- An old device stays as it is; the interfaces with a link of it are found again. -/
structure Keeps (name : String) (data : MldData) : Prop where
  record : ∃ links, (name, { data with iface := links }) ∈ call.newMld
  /-- The reloads neither add nor remove its network device. -/
  untouched : (call.reloaded name data).2 = []
  notRemoved : name ∉ call.removed
  notAdded : name ∉ call.added

/-- An old device is removed, and its record is not used any more. -/
structure Removes (name : String) : Prop where
  removed : name ∈ call.removed
  dropped : ∀ other, (other, MldSource.kept name) ∉ call.matched.1

/-- The call keeps the unchanged devices and removes the other old ones. -/
structure KeepsUnchanged : Prop where
  keeps : ∀ name data, call.IsUnchanged name data → call.Keeps name data
  removes : ∀ name data, (name, data) ∈ call.gone → call.Removes name

/-- When a call keeps the unchanged devices. -/
structure FindsUnchanged : Prop where
  /-- Each of them is set up. -/
  setUp : ∀ name data, call.IsUnchanged name data → data.ifname ≠ none
  /-- Those of one configuration come first among the old devices with it, in the same order. -/
  inOrder : ∀ config, unchangedWith call.table.entries call.configs.entries config <+:
    namesWith call.table.entries config
  /-- The reloads of the interfaces of the other devices do not disturb them. -/
  undisturbed : ∀ name data, call.IsUnchanged name data →
    UndisturbedBy call.env name data (ifacesOf call.env call.gone)

theorem keepsAll_iff : KeepsAll call.table.entries call.configs.entries ↔
    (∀ config, unchangedWith call.table.entries call.configs.entries config <+:
      namesWith call.table.entries config) ∧
      ∀ name data, call.IsUnchanged name data → data.ifname ≠ none := by
  rw [Hostapd.keepsAll_iff call.table.named call.table.nodup call.configs.nodup]
  exact and_congr_right fun _ => forall₂_congr fun _ _ => and_imp.symm

variable {call} {name : String} {data : MldData}

theorem isUnchanged_of_kept (hold : (name, data) ∈ call.table.entries) {other : String}
    (h : (other, MldSource.kept name) ∈ call.matched.1) :
    other = name ∧ call.IsUnchanged name data := by
  obtain ⟨rfl, data', hdata, hconfig⟩ := of_kept_mem_mldMatch call.table.named h
  rw [eq_of_fst_eq call.table.nodup hdata hold] at hconfig
  exact ⟨rfl, hold, hconfig⟩

theorem mem_removed_iff : name ∈ call.removed ↔
    (∃ data, (name, data) ∈ call.table.entries) ∧ (name, .kept name) ∉ call.matched.1 := by
  unfold removed matched
  rw [mldMatch_left call.table.named]
  simp

theorem removes_of_mem_gone (h : (name, data) ∈ call.gone) : call.Removes name := by
  obtain ⟨hold, hgone⟩ := List.mem_filter.mp h
  have hdropped : ∀ other, (other, MldSource.kept name) ∉ call.matched.1 := by
    intro other hkept
    exact of_decide_eq_true hgone (isUnchanged_of_kept hold hkept).2.2
  exact ⟨mem_removed_iff.mpr ⟨⟨data, hold⟩, hdropped name⟩, hdropped⟩

/-- A name of the new list that is not added is taken over. -/
theorem kept_of_not_added {config : MldConfig} (hnew : (name, config) ∈ call.configs.entries)
    (h : name ∉ call.added) : (name, .kept name) ∈ call.matched.1 := by
  have hname : name ∈ call.matched.1.map Prod.fst := by
    rw [matched, map_fst_mldMatch]
    exact List.mem_map_of_mem hnew
  obtain ⟨⟨_, source⟩, hmem, rfl⟩ := List.mem_map.mp hname
  cases source with
  | kept prev =>
    obtain ⟨rfl, -⟩ := of_kept_mem_mldMatch call.table.named hmem
    exact hmem
  | new config =>
    have hadded : _ ∈ call.added := List.mem_filterMap.mpr ⟨_, hmem, rfl⟩
    exact absurd hadded h

theorem not_added_of_kept (h : (name, .kept name) ∈ call.matched.1) : name ∉ call.added := by
  intro hadded
  obtain ⟨⟨_, source⟩, hmem, hsource⟩ := List.mem_filterMap.mp hadded
  have hnodup : (call.matched.1.map Prod.fst).Nodup := by
    rw [matched, map_fst_mldMatch]
    exact call.configs.nodup
  cases source with
  | kept prev => cases hsource
  | new config =>
    cases hsource
    cases List.inj_on_of_nodup_map hnodup h hmem rfl

theorem matched_left_of_keepsAll (h : KeepsAll call.table.entries call.configs.entries) :
    call.matched.2 = call.gone := by
  unfold matched gone
  rw [mldMatch_left call.table.named]
  refine List.filter_congr fun entry hold => ?_
  refine decide_eq_decide.mpr (not_congr ⟨fun hkept => (isUnchanged_of_kept hold hkept).2.2,
    fun hnew => h entry.1 entry.2.config hnew (mem_namesWith.mpr ⟨entry.2, hold, rfl⟩)⟩)

theorem mem_newMld_of_kept (hold : (name, data) ∈ call.table.entries)
    (h : (name, .kept name) ∈ call.matched.1) :
    (name, (call.reloaded name data).1) ∈ call.newMld := by
  refine List.mem_filterMap.mpr ⟨_, h, ?_⟩
  have hfind : call.table.entries.find? (fun entry => entry.1 = name) = some (name, data) := by
    cases hfound : call.table.entries.find? fun entry => entry.1 = name with
    | none => exact absurd (decide_eq_true rfl) (List.find?_eq_none.mp hfound _ hold)
    | some entry =>
      have hname : entry.1 = name := by simpa using List.find?_some hfound
      rw [List.inj_on_of_nodup_map call.table.nodup (List.mem_of_find?_eq_some hfound) hold hname]
  simp only [record, hfind, Option.map_some]

end MldSet

/-- `mld_set_config` keeps the unchanged devices exactly when it finds each of them. -/
theorem mldSetConfig_keeps_iff (call : MldSet) : call.KeepsUnchanged ↔ call.FindsUnchanged := by
  have hreload : KeepsAll call.table.entries call.configs.entries →
      call.reloadIface = ifacesOf call.env call.gone := by
    intro hkeeps
    rw [MldSet.reloadIface, MldSet.matched_left_of_keepsAll hkeeps]
  constructor
  · intro h
    have hkeeps : KeepsAll call.table.entries call.configs.entries := by
      intro name config hnew hold
      obtain ⟨data, hdata, rfl⟩ := mem_namesWith.mp hold
      exact MldSet.kept_of_not_added hnew (h.keeps name data ⟨hdata, hnew⟩).notAdded
    obtain ⟨hinOrder, hsetUp⟩ := call.keepsAll_iff.mp hkeeps
    refine ⟨hsetUp, hinOrder, fun name data hunchanged => ?_⟩
    rw [← hreload hkeeps]
    rcases mldReloads_spec call.env name data call.reloadIface with ⟨hundisturbed, -⟩ | ⟨-, hops⟩
    · exact hundisturbed
    · exact absurd (h.keeps name data hunchanged).untouched hops
  · intro h
    have hkeeps := call.keepsAll_iff.mpr ⟨h.inOrder, h.setUp⟩
    refine ⟨fun name data hunchanged => ?_, fun name data => MldSet.removes_of_mem_gone⟩
    have hkept : (name, .kept name) ∈ call.matched.1 :=
      hkeeps name data.config hunchanged.2 (mem_namesWith.mpr ⟨data, hunchanged.1, rfl⟩)
    have hundisturbed := h.undisturbed name data hunchanged
    rw [← hreload hkeeps] at hundisturbed
    rcases mldReloads_spec call.env name data call.reloadIface with
      ⟨-, links, heq, -⟩ | ⟨hnot, -⟩
    · have hrecord := MldSet.mem_newMld_of_kept hunchanged.1 hkept
      rw [MldSet.reloaded, heq] at hrecord
      exact ⟨⟨links, hrecord⟩, congrArg Prod.snd heq,
        fun hremoved => (MldSet.mem_removed_iff.mp hremoved).2 hkept,
        MldSet.not_added_of_kept hkept⟩
    · exact absurd hundisturbed hnot

/-- Two devices with one configuration that the new list has the other way round. -/
def swappedSet : MldSet where
  table :=
    { entries := [("ap-mld0", ⟨⟨some "phy0", none, [some 0, some 1], []⟩, ["phy0.0", "phy0.1"],
          some "ap-mld0", some "02:00:00:00:00:00", true, 3, true⟩),
        ("ap-mld1", ⟨⟨some "phy0", none, [some 0, some 1], []⟩, ["phy0.0", "phy0.1"],
          some "ap-mld1", some "06:00:00:00:00:00", true, 3, true⟩)]
      nodup := by decide
      named := by simp }
  configs :=
    { entries := [("ap-mld1", ⟨some "phy0", none, [some 0, some 1], []⟩),
        ("ap-mld0", ⟨some "phy0", none, [some 0, some 1], []⟩)]
      nodup := by decide }
  env :=
    { bss := []
      order := []
      stored := fun _ => none
      opens := fun _ => true
      access := fun _ _ => true
      wdevAdd := fun _ _ => true
      openPhy := fun _ => true
      macaddrNext := fun _ => some "0a:00:00:00:00:00" }

/-- Nothing has changed, and the second device is removed and added again. -/
theorem swapped_removed : ¬ ∀ call : MldSet, call.KeepsUnchanged := by
  intro h
  have hkeeps := (h swappedSet).keeps "ap-mld1" _ ⟨List.mem_cons_of_mem _ List.mem_cons_self,
    List.mem_cons_self⟩
  exact hkeeps.notRemoved (by decide)

end OpenWrt.Hostapd
