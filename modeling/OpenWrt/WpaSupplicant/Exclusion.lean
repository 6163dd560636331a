/-
# A stopped phy stays off

hostapd stops a radio of wpa_supplicant before it adds its own interface, and starts it again
later. Nothing records that the radio is stopped: a delayed start that is still due starts
the interfaces of the phy, and an interface configuration for an MLD makes the radio present
for the next start of the MLDs. As long as neither happens, nothing is started on the radio
between the stop and the next start request.
-/

import OpenWrt.WpaSupplicant.MldMasks

namespace OpenWrt.WpaSupplicant

open Lib

/-- The start is one of an interface of the phy configuration, or of an MLD with a link on its
radio. -/
def Start.Uses (name : String) (phy : Phy) : Start → Prop
  | .iface phyName _ => phyName = name
  | .mld _ phyName links _ => phyName = phy.name ∧ ∃ r ∈ phy.radioMask, r ∈ links

/-! ## The MLDs -/

def Mld.Off (phyName : String) (mask : Finset ℕ) (data : Mld) : Prop :=
  data.phy = phyName → ∀ r ∈ mask, r ∉ data.radioMaskPresent

namespace Wpas

variable {w w' : Wpas} {pname : String} {mask : Finset ℕ}

def MldsOff (pname : String) (mask : Finset ℕ) (w : Wpas) : Prop :=
  ∀ data ∈ w.mld, data.Off pname mask

theorem MldStarted.mldsOff (hstarted : MldStarted w w') (h : w.MldsOff pname mask) :
    w'.MldsOff pname mask := by
  intro data' hdata'
  obtain ⟨data, hdata, hsame, -⟩ := hstarted.turned data' hdata'
  have hparked := Mld.parked_of_remove hsame
  unfold Mld.Off
  rw [hparked.phy, hparked.present]
  exact h data hdata

theorem MldStarted.news_off (hstarted : MldStarted w w') (name : String) {phy : Phy}
    (h : w.MldsOff phy.name phy.radioMask) :
    ∃ news, w'.started = w.started ++ news ∧ ∀ new ∈ news, ¬ new.Uses name phy := by
  obtain ⟨news, heq, hnews⟩ := hstarted.news
  refine ⟨news, heq, fun new hnew huses => ?_⟩
  obtain ⟨data, hdata, radio, -, rfl⟩ := hnews new hnew
  obtain ⟨hphy, r, hr, hlink⟩ := huses
  exact h data hdata hphy r hr hlink

theorem mldsOff_mldSetConfig (config : List (String × MldConfig)) (h : w.MldsOff pname mask) :
    (w.mldSetConfig config).MldsOff pname mask := by
  intro data hdata
  obtain ⟨entry, -, rfl⟩ := List.mem_map.mp hdata
  have hnew : (Mld.new entry.1 entry.2).Off pname mask := fun _ r _ => Finset.notMem_empty r
  cases hprev : w.mld.find? fun prev => prev.name = entry.1 with
  | none => exact hnew
  | some prev =>
    dsimp only
    split
    · exact h prev (List.mem_of_find?_eq_some hprev)
    · exact hnew

/-- An update of a phy makes none of the radios present for an MLD. -/
theorem mldsOff_mldUpdatePhy {phy : Phy} {ifaces : List (String × IfaceConfig)}
    (h : w.MldsOff pname mask)
    (hnone : phy.name = pname → phy.radio.getD 0 ∈ mask →
      ∀ data ∈ w.mld, data.phy = pname → lookup ifaces data.name = none) :
    (w.mldUpdatePhy phy ifaces).MldsOff pname mask := by
  intro data' hdata'
  obtain ⟨data, hdata, rfl⟩ := List.mem_map.mp hdata'
  split
  case isTrue => exact h data hdata
  case isFalse hphy =>
    have hparked := Mld.parked_of_remove
      (data.setIfaceConfig phy.radio (lookup ifaces data.name)).updateIface_remove
    intro hname r hr
    rw [hparked.present]
    rw [hparked.phy] at hname
    have hold := h data hdata hname r hr
    unfold Mld.setIfaceConfig
    dsimp only
    split
    case isTrue hsome =>
      rw [Finset.mem_insert]
      rintro (rfl | hmem)
      · rw [hnone ((not_not.mp hphy).symm.trans hname) hr data hdata hname] at hsome
        cases hsome
      · exact hold hmem
    case isFalse => exact fun hmem => hold (Finset.mem_of_mem_erase hmem)

theorem phyStop_present {phy : Phy} {data : Mld} (hphy : data.phy = phy.name) :
    let data' :=
      if data.phy ≠ phy.name then data
      else
        let present := { data with radioMaskPresent := data.radioMaskPresent \ phy.radioMask }
        if data.radioMaskUp ∩ phy.radioMask = ∅ then present else present.updateIface
    data'.phy = data.phy ∧ data'.radioMaskPresent = data.radioMaskPresent \ phy.radioMask := by
  dsimp only
  rw [if_neg (not_not.mpr hphy)]
  split
  case isTrue => exact ⟨rfl, rfl⟩
  case isFalse =>
    have hparked := Mld.parked_of_remove
      { data with radioMaskPresent := data.radioMaskPresent \ phy.radioMask }.updateIface_remove
    exact ⟨hparked.phy, hparked.present⟩

theorem mldsOff_phyStop (name : String) (phy : Phy) (h : w.MldsOff pname mask) :
    (w.phyStop name phy).MldsOff pname mask := by
  intro data' hdata'
  obtain ⟨data, hdata, rfl⟩ := List.mem_map.mp hdata'
  by_cases hphy : data.phy = phy.name
  · obtain ⟨hname, hpresent⟩ := phyStop_present hphy
    unfold Mld.Off
    rw [hname, hpresent]
    exact fun heq r hr hmem => h data hdata heq r hr (Finset.mem_sdiff.mp hmem).1
  · rw [if_pos hphy]
    exact h data hdata

theorem mldsOff_of_phyStop (name : String) (phy : Phy) :
    (w.phyStop name phy).MldsOff phy.name phy.radioMask := by
  intro data' hdata'
  obtain ⟨data, hdata, rfl⟩ := List.mem_map.mp hdata'
  by_cases hphy : data.phy = phy.name
  · obtain ⟨-, hpresent⟩ := phyStop_present hphy
    unfold Mld.Off
    rw [hpresent]
    exact fun _ r hr hmem => (Finset.mem_sdiff.mp hmem).2 hr
  · rw [if_pos hphy]
    exact fun heq => absurd heq hphy

/-- A start of another radio makes none of the radios present. -/
theorem mldsOff_markPresent {phy : Phy} (h : w.MldsOff pname mask)
    (hother : phy.name = pname → ∀ data ∈ w.mld, OnRadio phy data →
      ∀ r ∈ mask, r ∉ phy.radioMask) : (w.markPresent phy).MldsOff pname mask := by
  intro data' hdata'
  obtain ⟨data, hdata, rfl⟩ := List.mem_map.mp hdata'
  split
  case isFalse => exact h data hdata
  case isTrue hon =>
    intro hname r hr hmem
    rcases Finset.mem_union.mp hmem with hold | hnew
    · exact h data hdata hname r hr hold
    · exact hother (hon.1.symm.trans hname) data hdata hon r hr hnew

/-- The request makes none of the radios present for an MLD of the phy. -/
def MldsQuiet (pname : String) (mask : Finset ℕ) (w : Wpas) : Request → Prop
  | .configSet _ phy radio (some config) _ => ∀ name, phyName phy radio = some name →
      w.nameOf name phy = pname → (radioOf radio).getD 0 ∈ mask →
      ∀ data ∈ w.mld, data.phy = pname → lookup (mloIfaces config) data.name = none
  | .phySetState _ phyArg radio (some false) => ∀ name phy, phyName phyArg radio = some name →
      w.config name = some phy → phy.name = pname → ∀ data ∈ w.mld, OnRadio phy data →
      ∀ r ∈ mask, r ∉ phy.radioMask
  | _ => True

/-! ## The interfaces of the phy -/

/-- None of the interfaces runs. -/
def IfacesOff (name : String) (w : Wpas) : Prop :=
  ∀ phy, w.config name = some phy → ∀ entry ∈ phy.data, entry.2.running = false

theorem IfacesOff.congr {name : String} (h : w.IfacesOff name)
    (hconfig : w'.config name = w.config name) : w'.IfacesOff name := by
  unfold IfacesOff
  rw [hconfig]
  exact h

theorem ifacesOff_update_of_ne {name other : String} {phy : Option Phy} (h : w.IfacesOff name)
    (hne : other ≠ name) (hconfig : w'.config = Function.update w.config other phy) :
    w'.IfacesOff name := by
  refine h.congr ?_
  rw [hconfig, Function.update_of_ne (Ne.symm hne)]

theorem ifacesOff_update_self {name : String} {phy : Phy}
    (hphy : ∀ entry ∈ phy.data, entry.2.running = false)
    (hconfig : w'.config = Function.update w.config name (some phy)) : w'.IfacesOff name := by
  intro phy' heq
  rw [hconfig, Function.update_self] at heq
  cases heq
  exact hphy

theorem mem_store {Value : Type*} {data : List (String × Value)} {key : String} {value : Value}
    {entry : String × Value} (h : entry ∈ store data key value) :
    entry ∈ data ∨ entry = (key, value) := by
  unfold store at h
  split at h
  · obtain ⟨old, hold, heq⟩ := List.mem_map.mp h
    split at heq
    · exact .inr heq.symm
    · exact .inl (heq ▸ hold)
  · rcases List.mem_append.mp h with hold | hnew
    · exact .inl hold
    · exact .inr (List.mem_singleton.mp hnew)

/-- Where no old interface runs, none runs after an update. -/
theorem running_update {phy : Phy} (values : List IfaceConfig)
    (h : ∀ entry ∈ phy.data, entry.2.running = false) :
    ∀ entry ∈ (phy.update values).data, entry.2.running = false := by
  have hfold : ∀ acc : List (String × Iface) × List (String × Iface),
      (∀ entry ∈ acc.1, entry.2.running = false) → (∀ entry ∈ acc.2, entry.2.running = false) →
      ∀ entry ∈ (values.foldl vlistTurn acc).2, entry.2.running = false := by
    induction values with
    | nil => exact fun acc _ hnew => hnew
    | cons config values ih =>
      intro acc hold hnew
      refine ih _ (fun entry hentry => hold entry (List.mem_filter.mp hentry).1) ?_
      intro entry hentry
      rcases mem_store hentry with hmem | rfl
      · exact hnew entry hmem
      · unfold ifaceCb lookup
        dsimp only
        cases hfind : acc.1.find? fun entry => entry.1 = config.iface with
        | none => rfl
        | some old =>
          dsimp only [Option.map_some]
          split
          · exact hold old (List.mem_of_find?_eq_some hfind)
          · rfl
  exact hfold (phy.data, []) h nofun

/-- A delayed start finds no interface to start, or the phy does not open. -/
def IfacesQuiet (name : String) (w : Wpas) : Request → Prop
  | .timer env other => other = name → ∀ phy, w.config name = some phy →
      env.opens name "" = true → ∀ entry ∈ phy.data, entry.2.running = true
  | _ => True

/-! ## Between a stop and the next start -/

/-- The radio is off. -/
structure Idle (name : String) (phy : Phy) (w : Wpas) : Prop where
  mlds : w.MldsOff phy.name phy.radioMask
  ifaces : w.IfacesOff name

/-- The next state, and what was started. -/
def StaysIdle (name : String) (phy : Phy) (w w' : Wpas) : Prop :=
  w'.Idle name phy ∧ ∃ news, w'.started = w.started ++ news ∧ ∀ new ∈ news, ¬ new.Uses name phy

/-- The request neither makes the radio present for an MLD nor starts an interface of the
phy. -/
def Quiet (name : String) (phy : Phy) (w : Wpas) (request : Request) : Prop :=
  w.MldsQuiet phy.name phy.radioMask request ∧ w.IfacesQuiet name request

def Request.StartsAgain (name : String) : Request → Prop
  | .phySetState _ phy radio (some false) => phyName phy radio = some name
  | _ => False

variable {name : String} {phy : Phy}

theorem StaysIdle.of_started (h : w'.Idle name phy) (hstarted : w'.started = w.started) :
    StaysIdle name phy w w' :=
  ⟨h, [], hstarted.trans (List.append_nil _).symm, nofun⟩

theorem StaysIdle.trans {w'' : Wpas} (h : StaysIdle name phy w w')
    (h' : StaysIdle name phy w' w'') : StaysIdle name phy w w'' := by
  obtain ⟨-, news, hnews, hoff⟩ := h
  obtain ⟨hidle, more, hmore, hoff'⟩ := h'
  refine ⟨hidle, news ++ more, ?_, fun new hnew => ?_⟩
  · rw [hmore, hnews, List.append_assoc]
  · rcases List.mem_append.mp hnew with hmem | hmem
    · exact hoff new hmem
    · exact hoff' new hmem

theorem MldStarted.staysIdle (hstarted : MldStarted w w') (h : w.Idle name phy) :
    StaysIdle name phy w w' :=
  ⟨⟨hstarted.mldsOff h.mlds, h.ifaces.congr (congrFun hstarted.config name)⟩,
    hstarted.news_off name h.mlds⟩

/-- The interfaces of another phy configuration may start. -/
theorem staysIdle_startPending_of_ne (env : Env) {other : String} (h : w.Idle name phy)
    (hne : other ≠ name) : StaysIdle name phy w (w.startPending env other) := by
  obtain ⟨hmld, -, hstarted⟩ := w.startPending_cases env other
  refine ⟨⟨fun data hdata => h.mlds data (hmld ▸ hdata), ?_⟩, ?_⟩
  · unfold startPending
    cases w.config other with
    | none => exact h.ifaces
    | some p =>
      dsimp only
      split
      · exact ifacesOff_update_of_ne h.ifaces hne rfl
      · exact h.ifaces
  · rcases hstarted with heq | ⟨p, -, -, heq⟩
    · exact ⟨[], heq.trans (List.append_nil _).symm, nofun⟩
    · refine ⟨_, heq, fun new hnew huses => ?_⟩
      obtain ⟨entry, -, rfl⟩ := List.mem_map.mp hnew
      exact hne huses

/-- The delayed start of the phy itself finds nothing to start. -/
theorem staysIdle_startPending_self (env : Env) (h : w.Idle name phy)
    (hquiet : ∀ p, w.config name = some p → env.opens name "" = true →
      ∀ entry ∈ p.data, entry.2.running = true) :
    StaysIdle name phy w (w.startPending env name) := by
  unfold startPending
  cases hphy : w.config name with
  | none => exact .of_started h rfl
  | some p =>
    dsimp only
    split
    case isFalse => exact .of_started h rfl
    case isTrue hopen =>
      have hnone : p.data = [] := by
        refine List.eq_nil_iff_forall_not_mem.mpr fun entry hentry => ?_
        have htrue := hquiet p hphy (Bool.and_eq_true_iff.mp hopen).2 entry hentry
        exact nomatch htrue.symm.trans (h.ifaces p hphy entry hentry)
      refine .of_started ⟨h.mlds, ?_⟩ ?_
      · refine ifacesOff_update_self (w := w) ?_ rfl
        rw [hnone]
        exact nofun
      · dsimp only
        rw [hnone]
        exact List.append_nil _

theorem idle_setConfig (env : Env) {other arg : String} {radio : Option ℕ}
    {config : List IfaceConfig} (h : w.Idle name phy)
    (hquiet : w.nameOf other arg = phy.name → radio.getD 0 ∈ phy.radioMask →
      ∀ data ∈ w.mld, data.phy = phy.name → lookup (mloIfaces config) data.name = none) :
    (w.setConfig env other arg radio config).Idle name phy := by
  have hname : ((w.config other).getD ⟨arg, none, []⟩).name = w.nameOf other arg := by
    unfold nameOf
    cases w.config other <;> rfl
  refine ⟨@mldsOff_mldUpdatePhy w _ _ { (w.config other).getD ⟨arg, none, []⟩ with radio } _
    h.mlds ?_, ?_⟩
  · intro heq
    exact hquiet (hname.symm.trans heq)
  · by_cases heq : other = name
    · subst heq
      refine ifacesOff_update_self (w := w) (running_update _ ?_) rfl
      change ∀ entry ∈ ((w.config other).getD ⟨arg, none, []⟩).data, entry.2.running = false
      cases hold : w.config other with
      | none => exact nofun
      | some old => exact h.ifaces old hold
    · exact ifacesOff_update_of_ne h.ifaces heq rfl

theorem idle_phyStop {other : String} {p : Phy} (h : w.Idle name phy) :
    (w.phyStop other p).Idle name phy := by
  refine ⟨mldsOff_phyStop other p h.mlds, ?_⟩
  by_cases heq : other = name
  · subst heq
    refine ifacesOff_update_self (w := w) (fun entry hentry => ?_) rfl
    obtain ⟨old, -, rfl⟩ := List.mem_map.mp hentry
    rfl
  · exact ifacesOff_update_of_ne h.ifaces heq rfl

/-- Another phy configuration is started. -/
theorem staysIdle_phyStart (env : Env) {other : String} {p : Phy} (h : w.Idle name phy)
    (hne : other ≠ name)
    (hquiet : p.name = phy.name → ∀ data ∈ w.mld, OnRadio p data →
      ∀ r ∈ phy.radioMask, r ∉ p.radioMask) :
    StaysIdle name phy w (w.phyStart env other p) := by
  have hpending := staysIdle_startPending_of_ne env h hne
  have hmld : (w.startPending env other).mld = w.mld := (w.startPending_cases env other).1
  have hmarked : ((w.startPending env other).markPresent p).Idle name phy := by
    refine ⟨mldsOff_markPresent hpending.1.mlds ?_, hpending.1.ifaces⟩
    rw [hmld]
    exact hquiet
  have hmark : StaysIdle name phy (w.startPending env other)
      ((w.startPending env other).markPresent p) := .of_started hmarked rfl
  exact hpending.trans (hmark.trans ((w.phyStart_cases env other p).staysIdle hmarked))

/-- A quiet request that is not the next start keeps the radio off. -/
theorem staysIdle_step {request : Request} (h : w.Idle name phy)
    (hagain : ¬ request.StartsAgain name) (hquiet : w.Quiet name phy request) :
    StaysIdle name phy w (w.step request) := by
  cases request with
  | mldSet config =>
    refine .of_started ?_ ?_
    · cases config with
      | none => exact h
      | some config => exact ⟨mldsOff_mldSetConfig config h.mlds, h.ifaces⟩
    · cases config with
      | none => rfl
      | some config => rfl
  | mldStart env =>
    exact (mldStart_started env { w with mldPending := false }).staysIdle ⟨h.mlds, h.ifaces⟩
  | configSet env arg radio config defer =>
    have hdefer : ∀ (w' : Wpas) other, w'.Idle name phy → w'.started = w.started →
        StaysIdle name phy w
          (if defer = true then w' else { w' with timers := w'.timers ++ [other] }) := by
      intro w' other hidle hsame
      split
      · exact .of_started hidle hsame
      · exact .of_started ⟨hidle.mlds, hidle.ifaces⟩ hsame
    unfold step
    dsimp only
    cases hother : phyName arg radio with
    | none => exact .of_started h rfl
    | some other =>
      refine hdefer _ other ?_ ?_
      · cases config with
        | none => exact h
        | some config => exact idle_setConfig env h (hquiet.1 other hother)
      · cases config with
        | none => rfl
        | some config => rfl
  | phySetState env arg radio stop =>
    unfold step
    dsimp only
    cases stop with
    | none =>
      split
      case h_1 heq => cases heq
      case h_2 => exact .of_started h rfl
    | some stop =>
      cases hother : phyName arg radio with
      | none => exact .of_started h rfl
      | some other =>
        dsimp only
        cases hphy : w.config other with
        | none => exact .of_started h rfl
        | some p =>
          cases stop with
          | true => exact .of_started (idle_phyStop h) rfl
          | false =>
            refine staysIdle_phyStart env h ?_ (hquiet.1 other p hother hphy)
            rintro rfl
            exact hagain hother
  | timer env other =>
    unfold step
    dsimp only
    split
    case isFalse => exact .of_started h rfl
    case isTrue =>
      have hidle : { w with timers := w.timers.erase other }.Idle name phy :=
        ⟨h.mlds, h.ifaces⟩
      by_cases heq : other = name
      · subst heq
        exact staysIdle_startPending_self env hidle (hquiet.2 rfl)
      · exact staysIdle_startPending_of_ne env hidle heq

/-- After the stop request the radio is off. -/
theorem idle_of_stop (env : Env) {arg : String} {radio : Option ℤ}
    (hname : phyName arg radio = some name) (hphy : w.config name = some phy) :
    (w.step (.phySetState env arg radio (some true))).Idle name phy := by
  have hstep : w.step (.phySetState env arg radio (some true)) = w.phyStop name phy := by
    unfold step
    dsimp only
    rw [hname]
    dsimp only
    rw [hphy]
    rfl
  rw [hstep]
  refine ⟨mldsOff_of_phyStop name phy, ifacesOff_update_self (w := w) (fun entry hentry => ?_) rfl⟩
  obtain ⟨old, -, rfl⟩ := List.mem_map.mp hentry
  rfl

def StaysOff (name : String) (phy : Phy) (w : Wpas) (window : List Request) : Prop :=
  ∀ n, ∃ news, ((window.take n).foldl step w).started = w.started ++ news ∧
    ∀ new ∈ news, ¬ new.Uses name phy

/-- A run that ends with a stop request. -/
def stopped (before : List Request) (env : Env) (phyArg : String) (radio : Option ℤ) : Wpas :=
  (before.foldl step start).step (.phySetState env phyArg radio (some true))

/-- Between the stop of a radio and its next start, nothing is started on it as long as the
requests and timers are quiet. -/
theorem staysOff_of_quiet (before window : List Request) (env : Env) {phyArg : String}
    {radio : Option ℤ} (hname : phyName phyArg radio = some name)
    (hphy : (before.foldl step start).config name = some phy)
    (hagain : ∀ request ∈ window, ¬ request.StartsAgain name)
    (hquiet : Along step (Quiet name phy) window (stopped before env phyArg radio)) :
    StaysOff name phy (stopped before env phyArg radio) window := by
  intro n
  have hidle : (stopped before env phyArg radio).Idle name phy := idle_of_stop env hname hphy
  have hstays : StaysIdle name phy (stopped before env phyArg radio)
      ((window.take n).foldl step (stopped before env phyArg radio)) :=
    invariant_take_of_along
      (fun _ request hmem h hquiet => h.trans (staysIdle_step h.1 (hagain request hmem) hquiet))
      hquiet (.of_started hidle rfl) n
  exact hstays.2

/-! ## A delayed start that is still due -/

/-- The radio is configured, and its start is delayed. -/
def configured : List Request :=
  [.configSet goodEnv "phy0" (some 0) (some [plainSta]) false]

/-- The configuration that the request leaves. -/
def plainPhy : Phy :=
  ⟨"phy0", some 0, [("phy0.0-sta0", ⟨plainSta, false⟩)]⟩

/-- The interface is removed before its delayed start. -/
def removed : List Request :=
  [.configSet goodEnv "phy0" (some 0) (some []) true, .timer goodEnv "phy0.0",
    .mldStart goodEnv]

/-- The delayed start finds no interface. -/
theorem staysOff_of_removed :
    StaysOff "phy0.0" plainPhy (stopped configured goodEnv "phy0" (some 0)) removed := by
  have hempty : ∀ phy ∈ ((removed.take 1).foldl step
      (stopped configured goodEnv "phy0" (some 0))).config "phy0.0", phy.data = [] := by
    decide +kernel
  refine staysOff_of_quiet configured removed goodEnv (by decide +kernel) (by decide +kernel) ?_ ?_
  · intro request hmem
    rcases List.mem_cons.mp hmem with rfl | hmem
    · exact id
    · rcases List.mem_cons.mp hmem with rfl | hmem
      · exact id
      · rw [List.mem_singleton.mp hmem]
        exact id
  · refine ⟨⟨fun _ _ _ _ _ _ _ => rfl, trivial⟩, ⟨trivial, fun _ phy hphy _ => ?_⟩,
      ⟨trivial, trivial⟩, trivial⟩
    rw [hempty phy hphy]
    exact nofun

/-- The delayed start comes after the stop. -/
theorem not_staysOff_of_delayed :
    ¬ StaysOff "phy0.0" plainPhy (stopped configured goodEnv "phy0" (some 0))
      [.timer goodEnv "phy0.0"] := by
  intro hoff
  obtain ⟨news, heq, hnone⟩ := hoff 1
  have hstarted : (([Request.timer goodEnv "phy0.0"].take 1).foldl step
      (stopped configured goodEnv "phy0" (some 0))).started =
        (stopped configured goodEnv "phy0" (some 0)).started ++
          [.iface "phy0.0" "phy0.0-sta0"] := by decide +kernel
  have hnews : news = [.iface "phy0.0" "phy0.0-sta0"] :=
    List.append_cancel_left (heq.symm.trans hstarted)
  rw [hnews] at hnone
  exact hnone _ List.mem_cons_self rfl

end Wpas

end OpenWrt.WpaSupplicant
