/-
# The handlers keep up with the configuration

A device that is set up or torn down has the handler for it in the queue or running. A device
that is up has been set up with its configuration, unless its setup is queued again or the
callback of a running setup will see that the configuration has changed.
-/

import OpenWrt.Lib.Run
import OpenWrt.Netifd.Handler

namespace OpenWrt.Netifd

/-! ## One device -/

variable {wdev : Wdev} {handler running : Option Op} {last : Option HandlerConfig}

/-- The configuration for the scripts is that of the data and of the disabled interfaces. -/
def Wdev.Built (wdev : Wdev) : Prop :=
  ∃ env, wdev.handlerConfig = handlerConfigOf env wdev.data wdev.disabledVifs

/-- What the state of a device says on its handlers. -/
def Wdev.Phase (wdev : Wdev) (handler running : Option Op) (last : Option HandlerConfig) : Prop :=
  match wdev.state with
  | .down => handler = none ∧ running = none
  | .setup =>
    running ≠ some .teardown ∧ (handler = some .setup ∨
      (handler = none ∧ running = some .setup ∧ last = some wdev.handlerConfig))
  | .up =>
    (wdev.autostart = true ∧ wdev.retrySetupFailed = false ∧ wdev.delete = false) ∧
      running ≠ some .teardown ∧ handler ≠ some .teardown ∧
      (handler = none → last = some wdev.handlerConfig) ∧
      (wdev.configChange = true → handler = some .setup ∨ running = some .setup)
  | .teardown =>
    (handler = some .teardown ∧ running ≠ some .teardown) ∨
      (handler = none ∧ running = some .teardown)

/-- What holds of a device between the steps. -/
structure Wdev.Sound (wdev : Wdev) (handler running : Option Op) (last : Option HandlerConfig) :
    Prop where
  built : wdev.configChange = false → wdev.Built
  phase : wdev.Phase handler running last

/-- What holds of a slot between the steps. -/
def Slot.Sound (slot : Slot) (running : Option Op) : Prop :=
  match slot.device with
  | none => slot.handler = none ∧ running = none
  | some wdev => wdev.Sound slot.handler running slot.lastSetup

/-- The outcome of a function leaves the device sound. -/
def Outcome.Sound (outcome : Outcome) (handler running : Option Op)
    (last : Option HandlerConfig) : Prop :=
  match outcome.wdev with
  | none => outcome.handler.or handler = none ∧ running = none
  | some wdev => wdev.Sound (outcome.handler.or handler) running last

namespace Wdev

theorem sound_only (h : wdev.Sound handler running last) :
    (Outcome.only wdev).Sound handler running last := h

/-- Setting up a device whose configuration for the scripts is in order. -/
theorem sound_setup (hbuilt : wdev.Built) (hrunning : running ≠ some .teardown)
    (hdown : wdev.state = .down → handler = none ∧ running = none)
    (hup : wdev.state = .up → wdev.autostart = true ∧ wdev.retrySetupFailed = false)
    (hstate : wdev.state = .up ∨ wdev.state = .down) :
    wdev.setup.Sound handler running last := by
  unfold setup
  rw [if_neg (by rcases hstate with h | h <;> simp [h])]
  split
  case isTrue hstays =>
    -- only a device that is down stays as it is
    have hisDown : wdev.state = .down := by
      refine hstate.resolve_left fun h => ?_
      obtain ⟨hauto, hfailed⟩ := hup h
      simp [hauto, hfailed] at hstays
    refine ⟨fun _ => hbuilt, ?_⟩
    unfold Phase
    rw [hisDown]
    exact hdown hisDown
  case isFalse => exact ⟨fun _ => hbuilt, hrunning, .inl rfl⟩

theorem sound_teardown (hbuilt : wdev.configChange = false → wdev.Built)
    (hphase : wdev.state = .teardown ∨ wdev.state = .down → wdev.Phase handler running last)
    (hrunning : wdev.state = .setup ∨ wdev.state = .up → running ≠ some .teardown) :
    wdev.teardown.Sound handler running last := by
  unfold teardown
  split
  case isTrue h =>
    refine ⟨hbuilt, ?_⟩
    have hold := hphase h
    unfold Phase at hold ⊢
    rcases h with h | h <;> (rw [h] at hold; dsimp only; rw [h]; exact hold)
  case isFalse h =>
    refine ⟨hbuilt, .inl ⟨rfl, hrunning ?_⟩⟩
    cases hstate : wdev.state <;> simp_all

variable {wdev' : Wdev} (env : NetEnv)

/-- A device may change in what its phase does not speak of. -/
theorem Sound.congr (h : wdev.Sound handler running last) (hstate : wdev'.state = wdev.state)
    (hconfig : wdev'.handlerConfig = wdev.handlerConfig)
    (hbuilt : wdev'.configChange = false → wdev.configChange = false ∧ wdev'.data = wdev.data ∧
      wdev'.disabledVifs = wdev.disabledVifs)
    (hup : wdev.state = .up → wdev'.autostart = wdev.autostart ∧
      wdev'.retrySetupFailed = wdev.retrySetupFailed ∧ wdev'.delete = wdev.delete ∧
      wdev'.configChange = wdev.configChange) : wdev'.Sound handler running last := by
  refine ⟨fun hchange => ?_, ?_⟩
  · obtain ⟨hold, hdata, hdisabled⟩ := hbuilt hchange
    obtain ⟨env, heq⟩ := h.built hold
    exact ⟨env, by rw [hconfig, hdata, hdisabled, heq]⟩
  · have hphase := h.phase
    unfold Phase at hphase ⊢
    rw [hstate]
    cases hs : wdev.state with
    | down => rw [hs] at hphase; exact hphase
    | setup => rw [hs] at hphase; rw [hconfig]; exact hphase
    | up =>
      obtain ⟨hauto, hfailed, hdelete, hchange⟩ := hup hs
      rw [hs] at hphase
      rw [hconfig, hauto, hfailed, hdelete, hchange]
      exact hphase
    | teardown => rw [hs] at hphase; exact hphase

theorem Sound.not_running (h : wdev.Sound handler running last)
    (hstate : wdev.state = .setup ∨ wdev.state = .up) : running ≠ some .teardown := by
  have hphase := h.phase
  unfold Phase at hphase
  rcases hstate with hs | hs
  · rw [hs] at hphase
    exact hphase.1
  · rw [hs] at hphase
    exact hphase.2.1

theorem Sound.down (h : wdev.Sound handler running last) (hstate : wdev.state = .down) :
    handler = none ∧ running = none := by
  have hphase := h.phase
  unfold Phase at hphase
  rw [hstate] at hphase
  exact hphase

theorem Sound.up (h : wdev.Sound handler running last) (hstate : wdev.state = .up) :
    wdev.autostart = true ∧ wdev.retrySetupFailed = false ∧ wdev.delete = false := by
  have hphase := h.phase
  unfold Phase at hphase
  rw [hstate] at hphase
  exact hphase.1

theorem built_updateDisabledVifs (env : NetEnv)
    (hchange : (wdev.updateDisabledVifs env).configChange = false) :
    wdev.configChange = false ∧ (wdev.updateDisabledVifs env).disabledVifs = wdev.disabledVifs := by
  simp only [updateDisabledVifs, Bool.or_eq_false_iff, decide_eq_false_iff_not, not_not,
    ne_eq] at hchange ⊢
  exact ⟨hchange.1.1, hchange.2.symm⟩

/-- `check` on a device that is sound, up to a change of its configuration. -/
theorem sound_check (h : wdev.Sound handler running last) (hstate : wdev'.state = wdev.state)
    (hconfig : wdev'.handlerConfig = wdev.handlerConfig)
    (hbuilt : wdev'.configChange = false → wdev.configChange = false ∧ wdev'.data = wdev.data ∧
      wdev'.disabledVifs = wdev.disabledVifs)
    (hup : wdev.state = .up → wdev'.autostart = wdev.autostart ∧
      wdev'.retrySetupFailed = false ∧ wdev'.delete = false) :
    (wdev'.check env).Sound handler running last := by
  have hstate' : (wdev'.updateDisabledVifs env).state = wdev.state := hstate
  have hkeeps : (wdev'.updateDisabledVifs env).configChange = false →
      wdev.configChange = false ∧ (wdev'.updateDisabledVifs env).data = wdev.data ∧
        (wdev'.updateDisabledVifs env).disabledVifs = wdev.disabledVifs := by
    intro hchange
    obtain ⟨hold, hdisabled⟩ := built_updateDisabledVifs env hchange
    obtain ⟨hchange', hdata, hdisabled'⟩ := hbuilt hold
    exact ⟨hchange', hdata, hdisabled.trans hdisabled'⟩
  unfold check
  dsimp only
  split
  case isTrue hsame =>
    have hchange := Bool.eq_false_iff.mpr hsame
    refine sound_only (h.congr hstate' hconfig hkeeps fun hs => ?_)
    obtain ⟨hauto, hfailed, hdelete⟩ := hup hs
    obtain ⟨-, hfailed', hdelete'⟩ := h.up hs
    exact ⟨hauto, hfailed.trans hfailed'.symm, hdelete.trans hdelete'.symm,
      hchange.trans (hkeeps hchange).1.symm⟩
  case isFalse =>
    split
    case isTrue hbusy =>
      refine sound_only (h.congr hstate' hconfig hkeeps fun hs => ?_)
      rw [hstate', hs] at hbusy
      exact absurd rfl hbusy.1
    case isFalse hidle =>
      have hcases : wdev.state = .up ∨ wdev.state = .down := by
        rw [hstate', not_and_or, not_not, not_not] at hidle
        exact hidle
      refine sound_setup ⟨env, rfl⟩ ?_ (fun hs => h.down (hstate'.symm.trans hs))
        (fun hs => ?_) (by rw [show ((wdev'.updateDisabledVifs env).configInit env).state =
          wdev.state from hstate']; exact hcases)
      · rcases hcases with hs | hs
        · exact h.not_running (.inr hs)
        · rw [(h.down hs).2]
          exact nofun
      · obtain ⟨hauto, hfailed, -⟩ := hup (hstate'.symm.trans hs)
        exact ⟨hauto.trans (h.up (hstate'.symm.trans hs)).1, hfailed⟩

/-- The devices have the same state and configuration. -/
structure SameConfig (wdev wdev' : Wdev) : Prop where
  state : wdev'.state = wdev.state
  handlerConfig : wdev'.handlerConfig = wdev.handlerConfig
  configChange : wdev'.configChange = wdev.configChange
  data : wdev'.data = wdev.data
  disabledVifs : wdev'.disabledVifs = wdev.disabledVifs

theorem SameConfig.built (hsame : SameConfig wdev wdev') (h : wdev.Sound handler running last)
    (hchange : wdev'.configChange = false) : wdev'.Built := by
  obtain ⟨env, heq⟩ := h.built (hsame.configChange.symm.trans hchange)
  exact ⟨env, by rw [hsame.handlerConfig, hsame.data, hsame.disabledVifs, heq]⟩

theorem Sound.congr_same (h : wdev.Sound handler running last) (hsame : SameConfig wdev wdev')
    (hup : wdev.state = .up → wdev'.autostart = wdev.autostart ∧
      wdev'.retrySetupFailed = wdev.retrySetupFailed ∧ wdev'.delete = wdev.delete) :
    wdev'.Sound handler running last := by
  refine h.congr hsame.state hsame.handlerConfig (fun hchange => ?_) fun hs => ?_
  · exact ⟨hsame.configChange.symm.trans hchange, hsame.data, hsame.disabledVifs⟩
  · obtain ⟨hauto, hfailed, hdelete⟩ := hup hs
    exact ⟨hauto, hfailed, hdelete, hsame.configChange⟩

theorem Sound.teardown (h : wdev.Sound handler running last) (hsame : SameConfig wdev wdev') :
    wdev'.teardown.Sound handler running last := by
  refine sound_teardown (hsame.built h) (fun hstate => ?_) fun hstate => ?_
  · refine (h.congr_same hsame fun hs => ?_).phase
    rw [hsame.state, hs] at hstate
    rcases hstate with hstate | hstate <;> cases hstate
  · rw [hsame.state] at hstate
    exact h.not_running hstate

theorem sound_update (data : Option DeviceData) (h : wdev.Sound handler running last) :
    (wdev.update env data).Sound handler running last := by
  unfold update
  split
  case h_1 =>
    refine sound_check env h rfl rfl (fun hchange => nomatch hchange) fun hs => ?_
    exact ⟨rfl, rfl, (h.up hs).2.2⟩
  case h_2 data =>
    split
    case isTrue => exact sound_only h
    case isFalse =>
      exact sound_check env h rfl rfl (fun hchange => nomatch hchange) fun hs => ⟨rfl, rfl, rfl⟩

theorem sound_start (h : wdev.Sound handler running last) :
    (wdev.start env).Sound handler running last := by
  unfold start
  split
  case isTrue => exact sound_only h
  case isFalse =>
    dsimp only
    split
    case isTrue =>
      refine sound_only (h.congr_same ⟨rfl, rfl, rfl, rfl, rfl⟩ fun hs => ?_)
      obtain ⟨hauto, hfailed, -⟩ := h.up hs
      exact ⟨hauto.symm, hfailed.symm, rfl⟩
    case isFalse hdown =>
      have hs : wdev.state = .down := not_not.mp hdown
      obtain ⟨hhandler, hrunning⟩ := h.down hs
      have hnone : running ≠ some .teardown := by
        rw [hrunning]
        exact nofun
      split
      case isTrue =>
        exact sound_setup ⟨env, rfl⟩ hnone (fun _ => ⟨hhandler, hrunning⟩)
          (fun hup => nomatch hs.symm.trans hup) (.inr hs)
      case isFalse hsame =>
        obtain ⟨hold, hdisabled⟩ :=
          @built_updateDisabledVifs { wdev.reset with autostart := true } env
            (Bool.eq_false_iff.mpr hsame)
        obtain ⟨env', heq⟩ := h.built hold
        refine sound_setup ⟨env', ?_⟩ hnone (fun _ => ⟨hhandler, hrunning⟩)
          (fun hup => nomatch hs.symm.trans hup) (.inr hs)
        rw [hdisabled]
        exact heq

theorem sound_retrySetup (h : wdev.Sound handler running last) :
    (wdev.retrySetup env).Sound handler running last := by
  unfold retrySetup
  split
  · exact sound_only h
  · split
    · exact sound_only h
    · exact sound_start env h

/-- `stop` on a device that may also be marked for deletion. -/
theorem sound_stop (h : wdev.Sound handler running last) (hsame : SameConfig wdev wdev') :
    wdev'.stop.Sound handler running last := by
  unfold stop
  dsimp only
  have hstate := hsame.state
  split
  case h_1 hs =>
    refine sound_only (h.congr_same ⟨hstate, hsame.2, hsame.3, hsame.4, hsame.5⟩ fun hup => ?_)
    exact nomatch (hstate.symm.trans hs).symm.trans hup
  case h_2 hs => exact h.teardown ⟨hstate, hsame.2, hsame.3, hsame.4, hsame.5⟩
  case h_3 hs =>
    refine sound_only (h.congr_same ⟨hstate, hsame.2, hsame.3, hsame.4, hsame.5⟩ fun hup => ?_)
    exact nomatch (hstate.symm.trans hs).symm.trans hup
  case h_4 hs =>
    refine sound_only (h.congr_same ⟨hstate, hsame.2, hsame.3, hsame.4, hsame.5⟩ fun hup => ?_)
    exact nomatch (hstate.symm.trans hs).symm.trans hup

theorem sound_destroy (h : wdev.Sound handler running last) :
    wdev.destroy.Sound handler running last := by
  unfold destroy
  dsimp only
  split
  case isTrue => exact sound_stop h ⟨rfl, rfl, rfl, rfl, rfl⟩
  case isFalse hdown => exact h.down (not_not.mp hdown)

/-- The callback of a setup script that is not running any more. -/
theorem sound_setupCb (h : wdev.Sound handler (some .setup) last) :
    (wdev.setupCb env).Sound handler none last := by
  have hphase := h.phase
  unfold Phase at hphase
  unfold setupCb
  split
  case isTrue hother =>
    split
    case isTrue hup =>
      refine sound_setup ⟨env, rfl⟩ nofun (fun hdown => ?_) (fun _ => ?_) (.inl hup.1)
      · exact nomatch hup.1.symm.trans hdown
      · exact ⟨(h.up hup.1).1, (h.up hup.1).2.1⟩
    case isFalse hnot =>
      refine ⟨h.built, ?_⟩
      unfold Phase
      cases hs : wdev.state with
      | down =>
        rw [hs] at hphase
        exact nomatch hphase.2
      | setup => exact absurd hs hother
      | up =>
        rw [hs] at hphase
        obtain ⟨hauto, -, hhandler, hlast, -⟩ := hphase
        exact ⟨hauto, nofun, hhandler, hlast, fun hchange => absurd ⟨hs, hchange⟩ hnot⟩
      | teardown =>
        rw [hs] at hphase
        rcases hphase with ⟨hhandler, -⟩ | ⟨-, hrunning⟩
        · exact .inl ⟨hhandler, nofun⟩
        · cases hrunning
  case isFalse hsetup =>
    have hs : wdev.state = .setup := not_not.mp hsetup
    have hbusy : ∀ wdev' : Wdev, SameConfig wdev wdev' →
        wdev'.teardown.Sound handler none last := by
      intro wdev' hsame
      refine sound_teardown (hsame.built h) (fun hstate => ?_) fun _ => nofun
      rw [hsame.state, hs] at hstate
      rcases hstate with hstate | hstate <;> cases hstate
    split
    · exact hbusy _ ⟨rfl, rfl, rfl, rfl, rfl⟩
    · exact hbusy _ ⟨rfl, rfl, rfl, rfl, rfl⟩

/-- The callback of a teardown script that is not running any more. -/
theorem sound_teardownCb (h : wdev.Sound handler (some .teardown) last) :
    (wdev.teardownCb env).Sound handler none last := by
  have hphase := h.phase
  unfold Phase at hphase
  have hhandler : handler = none := by
    cases hs : wdev.state with
    | down =>
      rw [hs] at hphase
      exact hphase.1
    | setup =>
      rw [hs] at hphase
      exact absurd rfl hphase.1
    | up =>
      rw [hs] at hphase
      exact absurd rfl hphase.2.1
    | teardown =>
      rw [hs] at hphase
      rcases hphase with ⟨-, hrunning⟩ | ⟨hhandler, -⟩
      · exact absurd rfl hrunning
      · exact hhandler
  unfold teardownCb
  dsimp only
  split
  case isTrue => exact ⟨hhandler, rfl⟩
  case isFalse =>
    have hbuilt : (wdev.tornDown env).Built := by
      unfold tornDown
      dsimp only
      split
      case isTrue => exact ⟨env, rfl⟩
      case isFalse hsame =>
        obtain ⟨env', heq⟩ := h.built (Bool.eq_false_iff.mpr hsame)
        exact ⟨env', heq⟩
    have hdown : (wdev.tornDown env).state = .down := by
      unfold tornDown
      dsimp only
      split <;> rfl
    exact sound_setup hbuilt nofun (fun _ => ⟨hhandler, rfl⟩)
      (fun hup => nomatch hdown.symm.trans hup) (.inr hdown)

theorem sound_callback (op : Op) (h : wdev.Sound handler (some op) last) :
    (wdev.callback env op).Sound handler none last := by
  cases op with
  | setup => exact sound_setupCb env h
  | teardown => exact sound_teardownCb env h

theorem sound_markUp (h : wdev.Sound handler running last) :
    wdev.markUp.Sound handler running last := by
  unfold markUp
  split
  case isTrue => exact sound_only h
  case isFalse hsetup =>
    have hs : wdev.state = .setup := not_not.mp hsetup
    split
    case isTrue => exact h.teardown ⟨rfl, rfl, rfl, rfl, rfl⟩
    case isFalse hstays =>
      rw [not_or, not_or, not_not, Bool.not_eq_true, Bool.not_eq_true] at hstays
      obtain ⟨-, hauto, hdelete⟩ := hstays
      have hphase := h.phase
      unfold Phase at hphase
      rw [hs] at hphase
      obtain ⟨hrunning, hhandler⟩ := hphase
      refine ⟨h.built, ⟨hauto, rfl, hdelete⟩, hrunning, ?_, fun hnone => ?_, fun _ => ?_⟩
      · rcases hhandler with hh | ⟨hh, -⟩ <;> rw [hh] <;> exact nofun
      · rcases hhandler with hh | ⟨-, -, hlast⟩
        · rw [hh] at hnone
          cases hnone
        · exact hlast
      · exact hhandler.imp id fun hh => hh.2.1

theorem sameConfig_putData (key : String) (data : LinkData) :
    SameConfig wdev (wdev.putData key data) := ⟨rfl, rfl, rfl, rfl, rfl⟩

theorem setData_cases (target : Target) (ifname : Option String) :
    wdev.setData target ifname = wdev ∨
      ∃ key data, wdev.setData target ifname = wdev.putData key data := by
  unfold setData
  split
  · exact .inr ⟨_, _, rfl⟩
  · split
    · exact .inl rfl
    · exact .inr ⟨_, _, rfl⟩
  · split
    · exact .inl rfl
    · split
      · exact .inl rfl
      · exact .inr ⟨_, _, rfl⟩

theorem sound_setData (target : Target) (ifname : Option String)
    (h : wdev.Sound handler running last) :
    (Outcome.only (wdev.setData target ifname)).Sound handler running last := by
  rcases @setData_cases wdev target ifname with heq | ⟨key, data, heq⟩
  · rw [heq]
    exact sound_only h
  · rw [heq]
    exact sound_only (h.congr_same (sameConfig_putData key data) fun _ => ⟨rfl, rfl, rfl⟩)

theorem sound_processAdd (proc : Proc) (h : wdev.Sound handler running last) :
    (Outcome.only (wdev.processAdd proc)).Sound handler running last := by
  unfold processAdd
  split
  · exact sound_only h
  · split
    · exact sound_only h
    · exact sound_only (h.congr_same ⟨rfl, rfl, rfl, rfl, rfl⟩ fun _ => ⟨rfl, rfl, rfl⟩)

theorem sound_procCheck (active : Proc → Bool) (h : wdev.Sound handler running last) :
    (wdev.procCheck active).Sound handler running last := by
  unfold procCheck
  split
  · exact sound_only h
  · exact h.teardown ⟨rfl, rfl, rfl, rfl, rfl⟩

theorem sound_new (data : DeviceData) : (new env data).Sound none none last :=
  ⟨fun _ => ⟨env, rfl⟩, rfl, rfl⟩

end Wdev

/-! ## The system -/

namespace Slot

variable {slot : Slot}

theorem sound_call {f : Wdev → Outcome} (h : slot.Sound running)
    (hf : ∀ wdev : Wdev, wdev.Sound slot.handler running slot.lastSetup →
      (f wdev).Sound slot.handler running slot.lastSetup) :
    (slot.call f).Sound running := by
  unfold Slot.Sound at h
  unfold call
  cases hdevice : slot.device with
  | none =>
    rw [hdevice] at h
    unfold Slot.Sound
    rw [hdevice]
    exact h
  | some wdev =>
    rw [hdevice] at h
    exact hf wdev h

theorem sound_take {outcome : Outcome} (h : outcome.Sound slot.handler running slot.lastSetup) :
    (slot.take outcome).Sound running := h

theorem sound_updateConfig (env : NetEnv) (new : Option DeviceData) (h : slot.Sound running) :
    (slot.updateConfig env new).Sound running := by
  have hdevice := h
  unfold Slot.Sound at hdevice
  unfold updateConfig
  split
  case h_1 => exact h
  case h_2 wdev hw =>
    rw [hw] at hdevice
    exact sound_take (Wdev.sound_destroy hdevice)
  case h_3 wdev data hw =>
    rw [hw] at hdevice
    exact sound_take (Wdev.sound_update env (some data) hdevice)
  case h_4 data hw =>
    rw [hw] at hdevice
    obtain ⟨hhandler, rfl⟩ := hdevice
    change (Wdev.new env data).Sound slot.handler none slot.lastSetup
    rw [hhandler]
    exact Wdev.sound_new env data

end Slot

namespace System

variable {s : System}

/-- What holds of the system between the steps. -/
structure Sound (s : System) : Prop where
  slots : ∀ name, (s.slots name).Sound (s.running name)
  /-- The running script is that of the handler that was taken. -/
  tasks : s.tasks = s.cur.toList

theorem sound_on {name : String} {f : Slot → Slot} (h : s.Sound)
    (hf : (f (s.slots name)).Sound (s.running name)) : (s.on name f).Sound := by
  refine ⟨fun other => ?_, h.tasks⟩
  change (Function.update s.slots name (f (s.slots name)) other).Sound (s.running other)
  by_cases heq : other = name
  · subst heq
    rw [Function.update_self]
    exact hf
  · rw [Function.update_of_ne heq]
    exact h.slots other

theorem sound_onCall {name : String} {f : Wdev → Outcome} (h : s.Sound)
    (hf : ∀ {wdev : Wdev} {handler running last}, wdev.Sound handler running last →
      (f wdev).Sound handler running last) :
    (s.on name (Slot.call f)).Sound :=
  sound_on h (Slot.sound_call (h.slots name) fun _ hw => hf hw)

/-- The callback of a handler that is not running any more. -/
theorem sound_complete (env : NetEnv) {name : String} {op : Op} (hcur : s.cur = some (name, op))
    (hslots : ∀ name, (s.slots name).Sound (s.running name)) (htasks : s.tasks = []) :
    (s.complete env (name, op)).Sound := by
  unfold complete
  rw [hcur]
  dsimp only
  rw [if_neg (not_not.mpr rfl)]
  have hrunning : s.running name = some op := by
    unfold running
    rw [hcur]
    exact if_pos rfl
  refine ⟨fun other => ?_, htasks⟩
  change (Function.update s.slots name _ other).Sound none
  by_cases heq : other = name
  · subst heq
    rw [Function.update_self]
    have hslot := hslots other
    rw [hrunning] at hslot
    unfold Slot.Sound at hslot
    unfold Slot.call
    cases hdevice : (s.slots other).device with
    | none =>
      rw [hdevice] at hslot
      exact nomatch hslot.2
    | some wdev =>
      rw [hdevice] at hslot
      exact Wdev.sound_callback env op hslot
  · rw [Function.update_of_ne heq]
    have hslot := hslots other
    have hnone : s.running other = none := by
      unfold running
      rw [hcur]
      exact if_neg (Ne.symm heq)
    rwa [hnone] at hslot

/-- Taking a handler from the queue. -/
theorem sound_dequeue {name : String} {op : Op} (h : s.Sound) (hcur : s.cur = none)
    (hhandler : (s.slots name).handler = some op) (other : String) :
    (({ s with cur := some (name, op) }.on name (Slot.dequeue op)).slots other).Sound
      (({ s with cur := some (name, op) }.on name (Slot.dequeue op)).running other) := by
  have hidle : ∀ name, s.running name = none := by
    intro name
    unfold running
    rw [hcur]
    rfl
  change (Function.update s.slots name _ other).Sound (if name = other then some op else none)
  by_cases heq : other = name
  · subst heq
    rw [Function.update_self, if_pos rfl]
    have hslot := h.slots other
    rw [hidle] at hslot
    unfold Slot.Sound at hslot ⊢
    unfold Slot.dequeue
    cases hdevice : (s.slots other).device with
    | none =>
      rw [hdevice, hhandler] at hslot
      exact nomatch hslot.1
    | some wdev =>
      rw [hdevice, hhandler] at hslot
      refine ⟨hslot.built, ?_⟩
      have hphase := hslot.phase
      unfold Wdev.Phase at hphase ⊢
      cases hs : wdev.state with
      | down =>
        rw [hs] at hphase
        exact nomatch hphase.1
      | setup =>
        rw [hs] at hphase
        obtain ⟨-, hop | ⟨hop, -⟩⟩ := hphase
        · cases hop
          exact ⟨nofun, .inr ⟨rfl, rfl, rfl⟩⟩
        · cases hop
      | up =>
        rw [hs] at hphase
        obtain ⟨hflags, -, hop, -, -⟩ := hphase
        cases op with
        | setup => exact ⟨hflags, nofun, nofun, fun _ => rfl, fun _ => .inr rfl⟩
        | teardown => exact absurd rfl hop
      | teardown =>
        rw [hs] at hphase
        rcases hphase with ⟨hop, -⟩ | ⟨hop, -⟩
        · cases hop
          exact .inr ⟨rfl, rfl⟩
        · cases hop
  · rw [Function.update_of_ne heq, if_neg (Ne.symm heq)]
    have hslot := h.slots other
    rwa [hidle] at hslot

theorem sound_runNext (env : NetEnv) (name : String) (starts : Bool) (h : s.Sound) :
    (s.runNext env name starts).Sound := by
  unfold runNext
  split
  case h_2 => exact h
  case h_1 op hcur hhandler =>
    have hslots := sound_dequeue h hcur hhandler
    have htasks : s.tasks = [] := by
      rw [h.tasks, hcur]
      rfl
    split
    case isTrue =>
      refine ⟨hslots, ?_⟩
      change s.tasks ++ [(name, op)] = [(name, op)]
      rw [htasks, List.nil_append]
    case isFalse => exact sound_complete env rfl hslots htasks

theorem sound_exit (env : NetEnv) (task : String × Op) (h : s.Sound) :
    (s.exit env task).Sound := by
  unfold exit
  split
  case isFalse => exact h
  case isTrue hmem =>
    have hcur : s.cur = some task := by
      rw [h.tasks, Option.mem_toList] at hmem
      exact hmem
    refine sound_complete env hcur h.slots ?_
    change s.tasks.erase task = []
    rw [h.tasks, hcur]
    simp

/-- Every step keeps the system sound. -/
theorem sound_step (event : Event) (h : s.Sound) : (s.step event).Sound := by
  cases event with
  | reload env new => exact ⟨fun name => Slot.sound_updateConfig env (new name) (h.slots name), h.tasks⟩
  | up env name => exact sound_onCall h (Wdev.sound_start env)
  | down name =>
    have hstop := @sound_onCall _ name _ h fun hw => Wdev.sound_stop hw ⟨rfl, rfl, rfl, rfl, rfl⟩
    refine sound_on h ?_
    have hslot := hstop.slots name
    change (Function.update s.slots name _ name).Sound (s.running name) at hslot
    rw [Function.update_self] at hslot
    exact hslot
  | retry env name => exact sound_onCall h (Wdev.sound_retrySetup env)
  | reconf env name => exact sound_onCall h (Wdev.sound_update env none)
  | checkInterfaces env name =>
    refine sound_onCall h fun {wdev} _ _ _ hw => ?_
    split
    · refine Wdev.sound_check env hw rfl rfl (fun hchange => ⟨hchange, rfl, rfl⟩) fun hs => ?_
      exact ⟨rfl, (hw.up hs).2⟩
    · exact Wdev.sound_only hw
  | next env name starts => exact sound_runNext env name starts h
  | exit env task => exact sound_exit env task h
  | timeout env =>
    change (s.timeout env).Sound
    unfold timeout
    split
    · exact h
    · exact sound_exit env _ h
  | markUp name => exact sound_onCall h Wdev.sound_markUp
  | setData name target ifname => exact sound_onCall h (Wdev.sound_setData target ifname)
  | processAdd name proc => exact sound_onCall h (Wdev.sound_processAdd proc)
  | setRetry name retry =>
    exact sound_onCall h fun hw =>
      Wdev.sound_only (hw.congr_same ⟨rfl, rfl, rfl, rfl, rfl⟩ fun _ => ⟨rfl, rfl, rfl⟩)
  | procCheck name active => exact sound_onCall h (Wdev.sound_procCheck active)

theorem sound_run (events : List Event) : (events.foldl step start).Sound := by
  have hstart : start.Sound := ⟨fun _ => ⟨rfl, rfl⟩, rfl⟩
  generalize start = s at hstart ⊢
  induction events generalizing s with
  | nil => exact hstart
  | cons event events ih => exact ih _ (sound_step event hstart)

end System

/-! ## No device is stuck, and no update is lost -/

/-- The callback of the operation acts on the device: it does not leave it in its state. -/
def Wdev.ActsOn (op : Op) (wdev : Wdev) : Prop :=
  ∀ env wdev', (wdev.callback env op).wdev = some wdev' → wdev'.state ≠ wdev.state

/-- The exit of a setup script tears down a device that is not up yet. -/
theorem Wdev.state_setupCb (env : NetEnv) (hs : wdev.state = .setup) {wdev' : Wdev}
    (heq : (wdev.setupCb env).wdev = some wdev') : wdev'.state = .teardown := by
  have hteardown : ∀ other : Wdev, other.state = .setup →
      other.teardown.wdev = some wdev' → wdev'.state = .teardown := by
    intro other hother heq
    unfold teardown at heq
    rw [if_neg (by rw [hother]; decide)] at heq
    cases heq
    rfl
  unfold setupCb at heq
  rw [if_neg (not_not.mpr hs)] at heq
  split at heq
  · exact hteardown { wdev with retry := wdev.retry - 1 } hs heq
  · exact hteardown { wdev with retrySetupFailed := true } hs heq

theorem Wdev.acts_setup (hs : wdev.state = .setup) : wdev.ActsOn .setup := by
  intro env wdev' h
  rw [hs, Wdev.state_setupCb env hs h]
  decide

theorem Wdev.acts_teardown (hs : wdev.state = .teardown) : wdev.ActsOn .teardown := by
  intro env wdev' h
  change (wdev.teardownCb env).wdev = some wdev' at h
  have hdown : (wdev.tornDown env).state = .down := by
    unfold tornDown
    dsimp only
    split <;> rfl
  unfold teardownCb at h
  dsimp only at h
  rw [hs]
  split at h
  · cases h
  · change (wdev.tornDown env).setup.wdev = some wdev' at h
    unfold setup at h
    split at h
    · cases h
      rw [hdown]
      decide
    · split at h
      · cases h
        rw [hdown]
        decide
      · cases h
        exact nofun

/-- What the handlers owe to a device. -/
structure Served (wdev : Wdev) (handler running : Option Op) (last : Option HandlerConfig) :
    Prop where
  /-- A device in between has a handler whose callback acts on it. -/
  acts : wdev.state = .setup ∨ wdev.state = .teardown →
    ∃ op, (handler = some op ∨ running = some op) ∧ wdev.ActsOn op
  /-- A device that is up, with no handler left, was set up with its configuration. -/
  current : wdev.state = .up → handler = none → running = none →
    ∃ config, last = some config ∧
      ∃ env, config = handlerConfigOf env wdev.data wdev.disabledVifs

theorem Wdev.Sound.served (h : wdev.Sound handler running last) :
    Served wdev handler running last := by
  have hphase := h.phase
  unfold Wdev.Phase at hphase
  refine ⟨fun hstate => ?_, fun hup hnone hidle => ?_⟩
  · rcases hstate with hs | hs
    · rw [hs] at hphase
      obtain ⟨-, hop | ⟨-, hop, -⟩⟩ := hphase
      · exact ⟨.setup, .inl hop, Wdev.acts_setup hs⟩
      · exact ⟨.setup, .inr hop, Wdev.acts_setup hs⟩
    · rw [hs] at hphase
      rcases hphase with ⟨hop, -⟩ | ⟨-, hop⟩
      · exact ⟨.teardown, .inl hop, Wdev.acts_teardown hs⟩
      · exact ⟨.teardown, .inr hop, Wdev.acts_teardown hs⟩
  · rw [hup] at hphase
    obtain ⟨-, -, -, hlast, hchange⟩ := hphase
    have hsame : wdev.configChange = false := by
      refine Bool.eq_false_iff.mpr fun htrue => ?_
      rcases hchange htrue with hop | hop
      · rw [hnone] at hop
        cases hop
      · rw [hidle] at hop
        cases hop
    exact ⟨_, hlast hnone, h.built hsame⟩

/-- Over every run at most one script runs, no device is stuck, and no update is lost. -/
theorem handlers_serve (events : List Event) :
    (events.foldl System.step System.start).tasks.length ≤ 1 ∧
      ∀ name wdev, ((events.foldl System.step System.start).slots name).device = some wdev →
        Served wdev ((events.foldl System.step System.start).slots name).handler
          ((events.foldl System.step System.start).running name)
          ((events.foldl System.step System.start).slots name).lastSetup := by
  have hsound := System.sound_run events
  refine ⟨?_, fun name wdev hdevice => ?_⟩
  · rw [hsound.tasks]
    cases (events.foldl System.step System.start).cur with
    | none => exact Nat.zero_le 1
    | some => exact Nat.le_refl 1
  · have hslot := hsound.slots name
    unfold Slot.Sound at hslot
    rw [hdevice] at hslot
    exact hslot.served

end OpenWrt.Netifd
