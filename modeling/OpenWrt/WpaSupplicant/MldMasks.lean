/-
# The masks of the MLDs

The radios that an MLD was started with are present, the radios that are present belong to
its configuration, and each of them has an interface configuration to start from. The first
holds in every run. The other two hold as long as a phy is configured with MLD interfaces
only for radios of the MLD, and a phy is started only when its radio has been configured for
the MLDs that span it: the start itself marks the radio present without looking.
-/

import OpenWrt.Lib.Run
import OpenWrt.WpaSupplicant.Wpas

namespace OpenWrt.WpaSupplicant

open Lib

/-! ## One MLD -/

namespace Mld

variable {data data' : Mld}

theorem getElem?_storeConfig {phyConfig : List (Option IfaceConfig)} (r i : ℕ)
    (config : Option IfaceConfig) :
    ((storeConfig phyConfig (some r) config)[i]?).join =
      if i = r then config else (phyConfig[i]?).join := by
  unfold storeConfig
  dsimp only
  rw [List.getElem?_set, List.length_append, List.length_replicate]
  by_cases heq : r = i
  · rw [if_pos heq, if_pos heq.symm, if_pos (by omega)]
    rfl
  · rw [if_neg heq, if_neg fun h => heq h.symm]
    by_cases hlt : i < phyConfig.length
    · rw [List.getElem?_append_left hlt]
    · have hle : phyConfig.length ≤ i := Nat.le_of_not_lt hlt
      rw [List.getElem?_append_right hle, List.getElem?_replicate, List.getElem?_eq_none hle]
      split <;> rfl

theorem phyConfigOf_setIfaceConfig (radio : Option ℕ) (config : Option IfaceConfig) (i : ℕ) :
    (data.setIfaceConfig radio config).phyConfigOf i =
      if radio = some i then config else data.phyConfigOf i := by
  cases radio with
  | none => rfl
  | some r =>
    refine (getElem?_storeConfig r i config).trans ?_
    by_cases heq : i = r
    · rw [if_pos heq, if_pos (congrArg some heq.symm)]
    · rw [if_neg heq, if_neg fun h => heq (Option.some.inj h).symm]
      rfl

/-- Records that agree but for the radios the MLD is up on. -/
structure Parked (data data' : Mld) : Prop where
  name : data'.name = data.name
  phy : data'.phy = data.phy
  present : data'.radioMaskPresent = data.radioMaskPresent
  mask : data'.radioMask = data.radioMask
  config : ∀ r, data'.phyConfigOf r = data.phyConfigOf r

theorem parked_of_remove (h : data'.remove = data.remove) : data.Parked data' := by
  have hname := congrArg Mld.name h
  have hphy := congrArg Mld.phy h
  have hpresent := congrArg radioMaskPresent h
  have hmask := congrArg radioMask h
  exact ⟨hname, hphy, hpresent, hmask, fun r => by
    have hconfig := congrArg (fun d => d.phyConfigOf r) h
    exact hconfig⟩

/-- `mld_update_iface` takes the MLD down or leaves it, and then it is up only on radios that
are present. -/
theorem updateIface_cases :
    (data.updateIface = data ∧ data.radioMaskUp ⊆ data.radioMaskPresent) ∨
      data.updateIface = data.remove := by
  unfold updateIface
  split
  case isTrue hup =>
    refine .inl ⟨rfl, ?_⟩
    rw [hup]
    exact Finset.empty_subset _
  case isFalse =>
    split
    case isTrue => exact .inr rfl
    case isFalse =>
      split
      case isTrue hsub => exact .inl ⟨rfl, Finset.sdiff_eq_empty_iff_subset.mp hsub⟩
      case isFalse => exact .inr rfl

/-- The masks of an MLD are in order. -/
structure Masked (data : Mld) : Prop where
  up : data.radioMaskUp ⊆ data.radioMaskPresent
  present : data.radioMaskPresent ⊆ data.radioMask
  config : ∀ r ∈ data.radioMaskPresent, (data.phyConfigOf r).isSome

theorem Masked.congr (h : data.Masked) (hup : data'.radioMaskUp ⊆ data'.radioMaskPresent)
    (hsame : data'.remove = data.remove) : data'.Masked := by
  have hparked := parked_of_remove hsame
  refine ⟨hup, ?_, fun r hr => ?_⟩
  · rw [hparked.present, hparked.mask]
    exact h.present
  · rw [hparked.config]
    exact h.config r (hparked.present ▸ hr)

theorem updateIface_remove : data.updateIface.remove = data.remove := by
  rcases data.updateIface_cases with ⟨heq, -⟩ | heq
  · rw [heq]
  · rw [heq]
    rfl

theorem up_updateIface : data.updateIface.radioMaskUp ⊆ data.updateIface.radioMaskPresent := by
  rcases data.updateIface_cases with ⟨heq, hsub⟩ | heq
  · rw [heq]
    exact hsub
  · rw [heq]
    exact Finset.empty_subset _

theorem masked_updateIface (hpresent : data.radioMaskPresent ⊆ data.radioMask)
    (hconfig : ∀ r ∈ data.radioMaskPresent, (data.phyConfigOf r).isSome) :
    data.updateIface.Masked := by
  have hremoved : data.remove.Masked := ⟨Finset.empty_subset _, hpresent, hconfig⟩
  exact hremoved.congr up_updateIface updateIface_remove

theorem masked_new (name : String) (config : MldConfig) : (new name config).Masked :=
  ⟨Finset.empty_subset _, Finset.empty_subset _, fun _ hr => absurd hr (Finset.notMem_empty _)⟩

/-- A radio can get an interface configuration for an MLD that spans it; what is no radio
counts as radio 0 and needs the configuration of that one. -/
def RadioFits (data : Mld) (radio : Option ℕ) : Prop :=
  radio.getD 0 ∈ data.radioMask ∧ (radio = none → (data.phyConfigOf 0).isSome)

theorem masked_setIfaceConfig_iff {radio : Option ℕ} {config : Option IfaceConfig}
    (h : data.Masked) : (data.setIfaceConfig radio config).updateIface.Masked ↔
      (config.isSome → data.RadioFits radio) := by
  cases config with
  | none =>
    refine ⟨fun _ => nofun, fun _ => masked_updateIface ?_ fun r hr => ?_⟩
    · exact (Finset.erase_subset _ _).trans h.present
    · obtain ⟨hne, hmem⟩ := Finset.mem_erase.mp hr
      rw [phyConfigOf_setIfaceConfig, if_neg]
      · exact h.config r hmem
      · rintro rfl
        exact hne rfl
  | some config =>
    constructor
    · intro hmasked _
      have hparked := parked_of_remove (data.setIfaceConfig radio (some config)).updateIface_remove
      have hmem : radio.getD 0 ∈
          (data.setIfaceConfig radio (some config)).updateIface.radioMaskPresent := by
        rw [hparked.present]
        exact Finset.mem_insert_self _ _
      have hmask := hmasked.present hmem
      rw [hparked.mask] at hmask
      refine ⟨hmask, ?_⟩
      rintro rfl
      have hconfig := hmasked.config 0 hmem
      rw [hparked.config] at hconfig
      exact hconfig
    · intro hfits
      obtain ⟨hmask, hzero⟩ := hfits rfl
      refine masked_updateIface (Finset.insert_subset hmask h.present) fun r hr => ?_
      rw [phyConfigOf_setIfaceConfig]
      split
      case isTrue => rfl
      case isFalse hne =>
        rcases Finset.mem_insert.mp hr with rfl | hmem
        · cases radio with
          | none => exact hzero rfl
          | some r => exact absurd rfl hne
        · exact h.config r hmem

end Mld

/-! ## What `mld_start` does -/

namespace Wpas

variable {w w' : Wpas}

/-- What one turn of the loop leaves of an MLD, and what it starts. -/
structure Turned (data data' : Mld) (news : List Start) : Prop where
  same : data'.remove = data.remove
  up : data'.radioMaskUp ⊆ data.radioMaskUp ∪ data.radioMaskPresent
  news : ∀ new ∈ news, ∃ radio ∈ data.radioMaskPresent,
    new = .mld data.name data.phy data.radioMaskPresent (data.phyConfigOf radio)

variable (env : Env)

theorem mldAdd_turned (data : Mld) (scan : MldScan) :
    ∃ data' news, (w.mldAdd env data scan).mld = scan.mld ++ [data'] ∧
      (w.mldAdd env data scan).started = scan.started ++ news ∧ Turned data data' news := by
  have hstays : Turned data data [] := ⟨rfl, Finset.subset_union_left, nofun⟩
  unfold mldAdd
  cases hfirst : data.firstPhy with
  | none => exact ⟨data, [], rfl, (List.append_nil _).symm, hstays⟩
  | some radio =>
    dsimp only
    split
    case isFalse => exact ⟨data, [], rfl, (List.append_nil _).symm, hstays⟩
    case isTrue =>
      refine ⟨_, _, rfl, rfl, ?_, ?_, fun new hnew => ⟨radio, ?_, List.mem_singleton.mp hnew⟩⟩
      · split <;> rfl
      · split
        · exact Finset.subset_union_right
        · exact Finset.subset_union_left
      · unfold Mld.firstPhy at hfirst
        split at hfirst
        · cases hfirst
          exact Finset.min'_mem _ _
        · cases hfirst

theorem mldTurn_turned (scan : MldScan) (data : Mld) :
    ∃ data' news, (w.mldTurn env scan data).mld = scan.mld ++ [data'] ∧
      (w.mldTurn env scan data).started = scan.started ++ news ∧ Turned data data' news := by
  unfold mldTurn
  split
  case isTrue =>
    exact ⟨data, [], rfl, (List.append_nil _).symm, rfl, Finset.subset_union_left, nofun⟩
  case isFalse =>
    split
    case isTrue => exact mldAdd_turned env data scan
    case isFalse =>
      obtain ⟨data', news, hmld, hstarted, hturned⟩ :=
        mldAdd_turned (w := w) env data.remove { scan with phyList := [] }
      refine ⟨data', news, hmld, hstarted, hturned.same, ?_, hturned.news⟩
      refine hturned.up.trans (Finset.union_subset_union_left ?_)
      exact Finset.empty_subset _

/-- What `mld_start` does: the MLDs keep all but the radios they are up on, and what it starts
is an MLD on its radios that are present, from the configuration of one of them. -/
structure MldStarted (w w' : Wpas) : Prop where
  config : w'.config = w.config
  timers : w'.timers = w.timers
  mld : w'.mld.map Mld.remove = w.mld.map Mld.remove
  turned : ∀ data' ∈ w'.mld, ∃ data ∈ w.mld, data'.remove = data.remove ∧
    data'.radioMaskUp ⊆ data.radioMaskUp ∪ data.radioMaskPresent
  news : ∃ news, w'.started = w.started ++ news ∧
    ∀ new ∈ news, ∃ data ∈ w.mld, ∃ radio ∈ data.radioMaskPresent,
      new = .mld data.name data.phy data.radioMaskPresent (data.phyConfigOf radio)

theorem MldStarted.refl (w : Wpas) : MldStarted w w :=
  ⟨rfl, rfl, rfl, fun data hdata => ⟨data, hdata, rfl, Finset.subset_union_left⟩, [],
    (List.append_nil _).symm, nofun⟩

theorem foldl_mldTurn (mlds : List Mld) (scan : MldScan) :
    ∃ mlds' news, (mlds.foldl (w.mldTurn env) scan).mld = scan.mld ++ mlds' ∧
      (mlds.foldl (w.mldTurn env) scan).started = scan.started ++ news ∧
      mlds'.map Mld.remove = mlds.map Mld.remove ∧
      (∀ data' ∈ mlds', ∃ data ∈ mlds, data'.remove = data.remove ∧
        data'.radioMaskUp ⊆ data.radioMaskUp ∪ data.radioMaskPresent) ∧
      ∀ new ∈ news, ∃ data ∈ mlds, ∃ radio ∈ data.radioMaskPresent,
        new = .mld data.name data.phy data.radioMaskPresent (data.phyConfigOf radio) := by
  induction mlds generalizing scan with
  | nil => exact ⟨[], [], (List.append_nil _).symm, (List.append_nil _).symm, rfl, nofun, nofun⟩
  | cons data mlds ih =>
    obtain ⟨data', news, hmld, hstarted, hturned⟩ := mldTurn_turned (w := w) env scan data
    obtain ⟨mlds', more, hmlds, hmore, hsame, hup, hnews⟩ := ih (w.mldTurn env scan data)
    refine ⟨data' :: mlds', news ++ more, ?_, ?_, ?_, fun other hother => ?_,
      fun new hnew => ?_⟩
    · rw [List.foldl_cons, hmlds, hmld, List.append_assoc]
      rfl
    · rw [List.foldl_cons, hmore, hstarted, List.append_assoc]
    · rw [List.map_cons, List.map_cons, hturned.same, hsame]
    · rcases List.mem_cons.mp hother with rfl | hmem
      · exact ⟨data, List.mem_cons_self, hturned.same, hturned.up⟩
      · obtain ⟨old, hold, hrest⟩ := hup other hmem
        exact ⟨old, List.mem_cons_of_mem _ hold, hrest⟩
    · rcases List.mem_append.mp hnew with hmem | hmem
      · exact ⟨data, List.mem_cons_self, hturned.news new hmem⟩
      · obtain ⟨old, hold, hrest⟩ := hnews new hmem
        exact ⟨old, List.mem_cons_of_mem _ hold, hrest⟩

theorem mldStart_started (w : Wpas) : MldStarted w (w.mldStart env) := by
  unfold mldStart
  split
  case isTrue => exact .refl w
  case isFalse =>
    obtain ⟨mlds, news, hmld, hstarted, hsame, hup, hnews⟩ :=
      foldl_mldTurn (w := w) env w.mld ⟨[], [], w.started⟩
    rw [List.nil_append] at hmld
    refine ⟨rfl, rfl, ?_, ?_, news, hstarted, hnews⟩
    · dsimp only
      rw [hmld, hsame]
    · dsimp only
      rw [hmld]
      exact hup

/-! ## All MLDs -/

/-- The masks of all MLDs are in order, and no MLD was started without a configuration. -/
structure Masked (w : Wpas) : Prop where
  mld : ∀ data ∈ w.mld, data.Masked
  started : ∀ name phy links config, Start.mld name phy links config ∈ w.started →
    config.isSome

theorem MldStarted.masked (hstarted : MldStarted w w') (h : w.Masked) : w'.Masked := by
  refine ⟨fun data' hdata' => ?_, fun name phy links config hmem => ?_⟩
  · obtain ⟨data, hdata, hsame, hup⟩ := hstarted.turned data' hdata'
    refine (h.mld data hdata).congr (hup.trans ?_) hsame
    rw [(Mld.parked_of_remove hsame).present]
    exact Finset.union_subset (h.mld data hdata).up (Finset.Subset.refl _)
  · obtain ⟨news, heq, hnews⟩ := hstarted.news
    rw [heq] at hmem
    rcases List.mem_append.mp hmem with hold | hnew
    · exact h.started name phy links config hold
    · obtain ⟨data, hdata, radio, hradio, heq⟩ := hnews _ hnew
      cases heq
      exact (h.mld data hdata).config radio hradio

theorem startPending_cases (name : String) :
    (w.startPending env name).mld = w.mld ∧ (w.startPending env name).timers = w.timers ∧
      ((w.startPending env name).started = w.started ∨
        ∃ phy, w.config name = some phy ∧ env.opens name "" = true ∧
          (w.startPending env name).started = w.started ++
            (phy.data.filter fun entry => ¬ entry.2.running).map fun entry =>
              Start.iface name entry.1) := by
  unfold startPending
  cases hphy : w.config name with
  | none => exact ⟨rfl, rfl, .inl rfl⟩
  | some phy =>
    dsimp only
    split
    case isTrue hopen =>
      exact ⟨rfl, rfl, .inr ⟨phy, rfl, (Bool.and_eq_true_iff.mp hopen).2, rfl⟩⟩
    case isFalse => exact ⟨rfl, rfl, .inl rfl⟩

theorem masked_startPending (name : String) (h : w.Masked) : (w.startPending env name).Masked := by
  obtain ⟨hmld, -, hstarted⟩ := w.startPending_cases env name
  refine ⟨?_, fun mldName phy links config hmem => ?_⟩
  · rw [hmld]
    exact h.mld
  · rcases hstarted with heq | ⟨p, -, -, heq⟩
    · rw [heq] at hmem
      exact h.started mldName phy links config hmem
    · rw [heq] at hmem
      rcases List.mem_append.mp hmem with hold | hnew
      · exact h.started mldName phy links config hold
      · obtain ⟨entry, -, heq⟩ := List.mem_map.mp hnew
        cases heq

theorem masked_mldSetConfig (config : List (String × MldConfig)) (h : w.Masked) :
    (w.mldSetConfig config).Masked := by
  refine ⟨fun data hdata => ?_, h.started⟩
  obtain ⟨entry, -, rfl⟩ := List.mem_map.mp hdata
  cases hprev : w.mld.find? fun prev => prev.name = entry.1 with
  | none => exact Mld.masked_new _ _
  | some prev =>
    dsimp only
    split
    · exact h.mld prev (List.mem_of_find?_eq_some hprev)
    · exact Mld.masked_new _ _

def IfacesFit (w : Wpas) (phyName : String) (radio : Option ℕ)
    (ifaces : List (String × IfaceConfig)) : Prop :=
  ∀ data ∈ w.mld, data.phy = phyName → (lookup ifaces data.name).isSome → data.RadioFits radio

theorem masked_mldUpdatePhy_iff {phy : Phy} {ifaces : List (String × IfaceConfig)}
    (h : w.Masked) :
    (w.mldUpdatePhy phy ifaces).Masked ↔ w.IfacesFit phy.name phy.radio ifaces := by
  constructor
  · intro hmasked data hdata hphy
    have hmem := hmasked.mld _ (List.mem_map_of_mem hdata)
    rw [if_neg (not_not.mpr hphy), Mld.masked_setIfaceConfig_iff (h.mld data hdata)] at hmem
    exact hmem
  · intro hfits
    refine ⟨fun data' hdata' => ?_, h.started⟩
    obtain ⟨data, hdata, rfl⟩ := List.mem_map.mp hdata'
    split
    case isTrue => exact h.mld data hdata
    case isFalse hphy =>
      rw [Mld.masked_setIfaceConfig_iff (h.mld data hdata)]
      exact hfits data hdata (not_not.mp hphy)

theorem masked_phyStop (name : String) (phy : Phy) (h : w.Masked) : (w.phyStop name phy).Masked := by
  refine ⟨fun data' hdata' => ?_, h.started⟩
  obtain ⟨data, hdata, rfl⟩ := List.mem_map.mp hdata'
  have hdata := h.mld data hdata
  have hsub : data.radioMaskPresent \ phy.radioMask ⊆ data.radioMaskPresent :=
    Finset.sdiff_subset
  split
  case isTrue => exact hdata
  case isFalse =>
    dsimp only
    split
    case isTrue hup =>
      refine ⟨fun r hr => Finset.mem_sdiff.mpr ⟨hdata.up hr, fun hmem => ?_⟩,
        hsub.trans hdata.present, fun r hr => hdata.config r (hsub hr)⟩
      exact Finset.eq_empty_iff_forall_notMem.mp hup r (Finset.mem_inter.mpr ⟨hr, hmem⟩)
    case isFalse =>
      exact Mld.masked_updateIface (hsub.trans hdata.present) fun r hr =>
        hdata.config r (hsub hr)

/-- Each MLD that spans the radio of the phy has an interface configuration for it. -/
def StartFits (w : Wpas) (phy : Phy) : Prop :=
  ∀ data ∈ w.mld, OnRadio phy data → ∀ r ∈ phy.radioMask, (data.phyConfigOf r).isSome

theorem OnRadio.radioMask_subset {phy : Phy} {data : Mld} (h : OnRadio phy data) :
    phy.radioMask ⊆ data.radioMask := by
  intro r hr
  obtain ⟨other, hother⟩ := Finset.nonempty_iff_ne_empty.mpr h.2
  obtain ⟨hmask, hphy⟩ := Finset.mem_inter.mp hother
  unfold Phy.radioMask at hr hphy
  cases hradio : phy.radio with
  | none =>
    rw [hradio] at hr
    exact absurd hr (Finset.notMem_empty _)
  | some radio =>
    rw [hradio] at hr hphy
    rw [Finset.mem_singleton.mp hr, ← Finset.mem_singleton.mp hphy]
    exact hmask

def markPresent (phy : Phy) (w : Wpas) : Wpas :=
  { w with
    mld := w.mld.map fun data =>
      if OnRadio phy data then
        { data with radioMaskPresent := data.radioMaskPresent ∪ phy.radioMask }
      else data }

theorem phyStart_cases (name : String) (phy : Phy) :
    MldStarted ((w.startPending env name).markPresent phy) (w.phyStart env name phy) := by
  unfold phyStart
  dsimp only
  split
  · exact mldStart_started env _
  · exact .refl _

theorem masked_markPresent_iff {phy : Phy} (h : w.Masked) :
    (w.markPresent phy).Masked ↔ w.StartFits phy := by
  constructor
  · intro hmasked data hdata hon r hr
    have hmem := hmasked.mld _ (List.mem_map_of_mem hdata)
    rw [if_pos hon] at hmem
    exact hmem.config r (Finset.mem_union_right _ hr)
  · intro hfits
    refine ⟨fun data' hdata' => ?_, h.started⟩
    obtain ⟨data, hdata, rfl⟩ := List.mem_map.mp hdata'
    have hmasked := h.mld data hdata
    split
    case isFalse => exact hmasked
    case isTrue hon =>
      refine ⟨hmasked.up.trans Finset.subset_union_left,
        Finset.union_subset hmasked.present hon.radioMask_subset, fun r hr => ?_⟩
      rcases Finset.mem_union.mp hr with hold | hnew
      · exact hmasked.config r hold
      · exact hfits data hdata hon r hnew

theorem masked_phyStart_iff {name : String} {phy : Phy} (h : w.Masked) :
    (w.phyStart env name phy).Masked ↔ w.StartFits phy := by
  have hpending := masked_startPending env name h
  have hstarted := w.phyStart_cases env name phy
  have hmld : (w.startPending env name).mld = w.mld := (w.startPending_cases env name).1
  have hiff : ((w.startPending env name).markPresent phy).Masked ↔ w.StartFits phy := by
    rw [masked_markPresent_iff hpending]
    unfold StartFits
    rw [hmld]
  rw [← hiff]
  refine ⟨fun hmasked => ?_, hstarted.masked⟩
  rw [hiff]
  intro data hdata hon r hr
  -- the record that the data has become has the same configurations
  have hmem : { data with radioMaskPresent := data.radioMaskPresent ∪ phy.radioMask }.remove ∈
      (w.phyStart env name phy).mld.map Mld.remove := by
    rw [hstarted.mld]
    refine List.mem_map.mpr ⟨_, List.mem_map.mpr ⟨data, hmld ▸ hdata, if_pos hon⟩, rfl⟩
  obtain ⟨data', hdata', hsame⟩ := List.mem_map.mp hmem
  have hparked := Mld.parked_of_remove hsame
  have hpresent : r ∈ data'.radioMaskPresent := by
    rw [hparked.present]
    exact Finset.mem_union_right _ hr
  have hconfig := (hmasked.mld data' hdata').config r hpresent
  rw [hparked.config] at hconfig
  exact hconfig

/-! ## Runs -/

/-- The name of the phy of a configuration, which the first request for it sets. -/
def nameOf (w : Wpas) (name phy : String) : String :=
  ((w.config name).map Phy.name).getD phy

/-- The request makes a radio present only for MLDs that span it and have an interface
configuration for it. -/
def MasksFit (w : Wpas) : Request → Prop
  | .configSet _ phy radio (some config) _ => ∀ name, phyName phy radio = some name →
      w.IfacesFit (w.nameOf name phy) (radioOf radio) (mloIfaces config)
  | .phySetState _ phyArg radio (some false) => ∀ name phy, phyName phyArg radio = some name →
      w.config name = some phy → w.StartFits phy
  | _ => True

theorem masked_setConfig_iff {name phy : String} {radio : Option ℕ} {config : List IfaceConfig}
    (h : w.Masked) :
    (w.setConfig env name phy radio config).Masked ↔
      w.IfacesFit (w.nameOf name phy) radio (mloIfaces config) := by
  have hname : ((w.config name).getD ⟨phy, none, []⟩).name = w.nameOf name phy := by
    unfold nameOf
    cases w.config name <;> rfl
  have hiff := @masked_mldUpdatePhy_iff w { (w.config name).getD ⟨phy, none, []⟩ with radio }
    (mloIfaces config) h
  rw [hname] at hiff
  rw [← hiff]
  exact ⟨fun hmasked => ⟨hmasked.mld, hmasked.started⟩,
    fun hmasked => ⟨hmasked.mld, hmasked.started⟩⟩

/-- One request keeps the masks in order exactly if it fits them. -/
theorem masked_step_iff {request : Request} (h : w.Masked) :
    (w.step request).Masked ↔ w.MasksFit request := by
  cases request with
  | mldSet config =>
    refine iff_of_true ?_ trivial
    cases config with
    | none => exact h
    | some config => exact masked_mldSetConfig config ⟨h.mld, h.started⟩
  | mldStart env =>
    refine iff_of_true ?_ trivial
    exact (mldStart_started env { w with mldPending := false }).masked ⟨h.mld, h.started⟩
  | configSet env phy radio config defer =>
    have hdefer : ∀ (w' : Wpas) name,
        (if defer = true then w' else { w' with timers := w'.timers ++ [name] }).Masked ↔
          w'.Masked := by
      intro w' name
      split
      · exact Iff.rfl
      · exact ⟨fun hmasked => ⟨hmasked.mld, hmasked.started⟩,
          fun hmasked => ⟨hmasked.mld, hmasked.started⟩⟩
    unfold step
    dsimp only
    cases hname : phyName phy radio with
    | none =>
      refine iff_of_true h ?_
      cases config with
      | none => trivial
      | some config => exact fun name heq => nomatch hname.symm.trans heq
    | some name =>
      dsimp only
      rw [hdefer]
      cases config with
      | none => exact iff_of_true h trivial
      | some config =>
        dsimp only
        rw [masked_setConfig_iff env h]
        refine ⟨fun hfits name' heq => ?_, fun hfits => hfits name hname⟩
        cases hname.symm.trans heq
        exact hfits
  | phySetState env phyArg radio stop =>
    unfold step
    dsimp only
    cases stop with
    | none =>
      refine iff_of_true ?_ trivial
      split
      case h_1 heq => cases heq
      case h_2 => exact h
    | some stop =>
      cases hname : phyName phyArg radio with
      | none =>
        refine iff_of_true h ?_
        cases stop with
        | true => trivial
        | false => exact fun name phy heq => nomatch hname.symm.trans heq
      | some name =>
        dsimp only
        cases hphy : w.config name with
        | none =>
          refine iff_of_true h ?_
          cases stop with
          | true => trivial
          | false =>
            intro name' phy heq hsome
            cases hname.symm.trans heq
            exact nomatch hphy.symm.trans hsome
        | some phy =>
          cases stop with
          | true => exact iff_of_true (masked_phyStop name phy h) trivial
          | false =>
            refine (masked_phyStart_iff env h).trans ⟨fun hfits name' phy' heq hsome => ?_,
              fun hfits => hfits name phy hname hphy⟩
            cases hname.symm.trans heq
            cases hphy.symm.trans hsome
            exact hfits
  | timer env name =>
    refine iff_of_true ?_ trivial
    unfold step
    dsimp only
    split
    · exact masked_startPending env name ⟨h.mld, h.started⟩
    · exact h

/-- Over every run the masks are in order, and no MLD is started without a configuration,
exactly as long as the requests fit the masks. -/
theorem masked_iff_fits (requests : List Request) :
    (∀ n, ((requests.take n).foldl step start).Masked) ↔ Along step MasksFit requests start := by
  have hstart : start.Masked := ⟨nofun, nofun⟩
  exact (along_iff_forall_take (fun _ _ _ h => masked_step_iff h) hstart).symm

/-! ## Starting a radio that the MLD is not configured for -/

/-- Every phy opens and every interface comes up. -/
def goodEnv : Env := ⟨fun _ _ => true, fun _ => true, fun _ => none⟩

/-- A plain station interface. -/
def plainSta : IfaceConfig := ⟨"phy0.0-sta0", false, "/var/run/sta.conf", none, none, []⟩

/-- An MLD spans radio 0, the radio has only a plain interface, and the access point side
starts the radio. -/
def startUnconfigured : List Request :=
  [.mldSet (some [("sta-mld0", ⟨"phy0", [some 0], []⟩)]),
    .configSet goodEnv "phy0" (some 0) (some [plainSta]) true, .mldStart goodEnv,
    .phySetState goodEnv "phy0" (some 0) (some false)]

/-- The radio is present for the MLD, and there is no configuration for it. -/
theorem not_masked_of_unconfigured : ¬ ∀ n, ((startUnconfigured.take n).foldl step start).Masked := by
  intro hall
  have hmasked := hall startUnconfigured.length
  have hbad : ∃ data ∈ ((startUnconfigured.take startUnconfigured.length).foldl step start).mld,
      0 ∈ data.radioMaskPresent ∧ ¬ (data.phyConfigOf 0).isSome := by decide +kernel
  obtain ⟨data, hdata, hpresent, hnone⟩ := hbad
  exact hnone ((hmasked.mld data hdata).config 0 hpresent)

end Wpas

end OpenWrt.WpaSupplicant
