/-
# The exit of a setup script

A setup script notifies that the device is up, and runs on. A configuration that is applied in
between takes the device back to its setup, so that the exit of the first script counts as that of
a setup that has failed. This is the only way for the exit of such a script to do harm, as long as
nobody stops or removes the device and none of its processes dies.
-/

import OpenWrt.Netifd.Lifecycle

namespace OpenWrt.Netifd

open Lib

/-! ## Watching a device -/

/-- The event is a notification that the device is up. -/
def Event.marksUp (name : String) : Event → Bool
  | .markUp other => other = name
  | _ => false

/-- The event stops or removes the device, or finds one of its processes gone. -/
def Event.disturbs (name : String) (slot : Slot) : Event → Bool
  | .down other => other = name
  | .reload _ new => new name = none
  | .procCheck other active =>
    other = name && slot.device.any fun wdev => !wdev.procs.all active
  | _ => false

/-- The event applies a configuration to the device, unless this is deferred. -/
def Event.applies (name : String) (wdev : Wdev) : Event → Bool
  | .reload _ new => (new name).any fun data => wdev.data ≠ data
  | .reconf _ other => other = name
  | .checkInterfaces env other =>
    other = name && wdev.autostart && (wdev.updateDisabledVifs env).configChange
  | _ => false

/-- The system, with what has happened while the setup script of one device runs. -/
structure Watch where
  system : System
  /-- The script has notified that the device is up. -/
  notified : Bool
  /-- The device was to be stopped or removed, or a process of it was gone. -/
  disturbed : Bool

namespace Watch

variable (name : String) (w : Watch)

def start : Watch := ⟨.start, false, false⟩

/-- The setup script of the device runs. -/
def isSetup : Bool := w.system.running name = some .setup

def step (event : Event) : Watch where
  system := w.system.step event
  notified := w.isSetup name && (w.notified || event.marksUp name)
  disturbed := w.isSetup name && (w.disturbed || event.disturbs name (w.system.slots name))

/-- No retry is consumed, the setup has not failed, and no teardown is started. -/
structure Unharmed (wdev wdev' : Wdev) : Prop where
  retry : wdev'.retry = wdev.retry
  retrySetupFailed : wdev'.retrySetupFailed = wdev.retrySetupFailed
  teardown : wdev'.state = .teardown → wdev.state = .teardown

/-- The exit of a setup script that has notified, and was not disturbed, does no harm. -/
def ExitsWell : Prop :=
  w.isSetup name = true → w.notified = true → w.disturbed = false →
    ∀ env wdev, (w.system.slots name).device = some wdev →
      ∃ wdev', ((w.system.exit env (name, .setup)).slots name).device = some wdev' ∧
        Unharmed wdev wdev'

/-- No configuration is applied to a device that is up while the script that brought it up still
runs. -/
def Defers (event : Event) : Prop :=
  w.isSetup name = true → w.notified = true →
    ∀ wdev, (w.system.slots name).device = some wdev → wdev.state = .up →
      event.applies name wdev = false

end Watch

/-! ## The device while its setup script runs -/

section Device

variable {wdev : Wdev} {notified disturbed : Bool}

/-- What the state says of the setup script that runs. -/
def Wdev.Fits (wdev : Wdev) (notified disturbed : Bool) : Prop :=
  match wdev.state with
  | .down => False
  | .setup => notified = false ∧ (disturbed = true → wdev.cancelSetup = true)
  | .up => disturbed = false
  | .teardown => True

def Outcome.Fits (outcome : Outcome) (notified disturbed : Bool) : Prop :=
  ∃ wdev, outcome.wdev = some wdev ∧ wdev.Fits notified disturbed

namespace Wdev

theorem Fits.not_down (h : wdev.Fits notified disturbed) : wdev.state ≠ .down := by
  intro hs
  unfold Fits at h
  rw [hs] at h
  exact h

theorem fits_only (h : wdev.Fits notified disturbed) :
    (Outcome.only wdev).Fits notified disturbed := ⟨wdev, rfl, h⟩

theorem Fits.congr {wdev' : Wdev} (h : wdev.Fits notified disturbed)
    (hstate : wdev'.state = wdev.state) (hcancel : wdev'.cancelSetup = wdev.cancelSetup) :
    wdev'.Fits notified disturbed := by
  unfold Fits at h ⊢
  rw [hstate, hcancel]
  exact h

/-- A device that is torn down is past its setup. -/
theorem fits_teardown (hdown : wdev.state ≠ .down) :
    wdev.teardown.Fits notified disturbed := by
  unfold teardown
  split
  case isTrue h =>
    have hs := h.resolve_right hdown
    refine ⟨_, rfl, ?_⟩
    unfold Fits
    dsimp only
    rw [hs]
    trivial
  case isFalse => exact ⟨_, rfl, trivial⟩

/-- A device that is set up again while the script runs has not been brought up by it. -/
theorem fits_setup (h : wdev.Fits notified disturbed)
    (hup : wdev.state = .up → notified = false) : wdev.setup.Fits notified disturbed := by
  unfold setup
  split
  case isTrue => exact fits_only h
  case isFalse hstate =>
    split
    case isTrue => exact fits_only h
    case isFalse =>
      have hs : wdev.state = .up := by
        by_contra hnot
        exact hstate ⟨hnot, h.not_down⟩
      unfold Fits at h
      rw [hs] at h
      exact ⟨_, rfl, hup hs, fun htrue => nomatch h.symm.trans htrue⟩

variable (env : NetEnv)

theorem fits_check (h : wdev.Fits notified disturbed)
    (hup : wdev.state = .up → (wdev.updateDisabledVifs env).configChange = true →
      notified = false) : (wdev.check env).Fits notified disturbed := by
  have hscanned : (wdev.updateDisabledVifs env).Fits notified disturbed := h.congr rfl rfl
  unfold check
  dsimp only
  split
  case isTrue => exact fits_only hscanned
  case isFalse hchange =>
    rw [not_not] at hchange
    split
    case isTrue => exact fits_only hscanned
    case isFalse => exact fits_setup (h.congr rfl rfl) fun hs => hup hs hchange

theorem fits_update (data : DeviceData) (h : wdev.Fits notified disturbed)
    (hup : wdev.state = .up → wdev.data ≠ data → notified = false) :
    (wdev.update env (some data)).Fits notified disturbed := by
  simp only [update]
  split
  case isTrue => exact fits_only h
  case isFalse hdata => exact fits_check env (h.congr rfl rfl) fun hs _ => hup hs hdata

theorem fits_reconf (h : wdev.Fits notified disturbed) (hup : wdev.state = .up → notified = false) :
    (wdev.update env none).Fits notified disturbed :=
  fits_check env (h.congr rfl rfl) fun hs _ => hup hs

theorem fits_start (h : wdev.Fits notified disturbed) :
    (wdev.start env).Fits notified disturbed := by
  unfold start
  split
  case isTrue => exact fits_only h
  case isFalse =>
    dsimp only
    rw [if_pos (show wdev.reset.state ≠ .down from h.not_down)]
    exact fits_only (h.congr rfl rfl)

theorem fits_retrySetup (h : wdev.Fits notified disturbed) :
    (wdev.retrySetup env).Fits notified disturbed := by
  unfold retrySetup
  rw [if_pos (Or.inl h.not_down), ite_self]
  exact fits_only h

theorem fits_stop (h : wdev.Fits notified disturbed) : wdev.stop.Fits notified true := by
  unfold stop
  dsimp only
  split
  case h_1 hs =>
    unfold Fits at h
    rw [hs] at h
    refine ⟨_, rfl, ?_⟩
    unfold Fits
    dsimp only
    rw [hs]
    exact ⟨h.1, fun _ => rfl⟩
  case h_2 hs => exact fits_teardown (by simp [hs])
  case h_3 hs => exact absurd hs h.not_down
  case h_4 hs =>
    refine ⟨_, rfl, ?_⟩
    unfold Fits
    dsimp only
    rw [hs]
    trivial

theorem fits_destroy (h : wdev.Fits notified disturbed) : wdev.destroy.Fits notified true := by
  unfold destroy
  dsimp only
  rw [if_pos h.not_down]
  exact fits_stop (h.congr rfl rfl)

/-- The notification of a device that was not disturbed brings it up. -/
theorem fits_markUp (h : wdev.Fits notified disturbed) : wdev.markUp.Fits true disturbed := by
  unfold markUp
  split
  case isTrue hstate =>
    refine fits_only ?_
    unfold Fits at h ⊢
    cases hs : wdev.state with
    | down => rw [hs] at h; exact h
    | setup => exact absurd hs hstate
    | up => rw [hs] at h; exact h
    | teardown => trivial
  case isFalse hstate =>
    have hs : wdev.state = .setup := not_not.mp hstate
    split
    case isTrue => exact fits_teardown (by simp [hs])
    case isFalse hstays =>
      unfold Fits at h
      rw [hs] at h
      exact ⟨_, rfl, Bool.eq_false_iff.mpr fun htrue => hstays (.inl (h.2 htrue))⟩

theorem fits_setData (target : Target) (ifname : Option String)
    (h : wdev.Fits notified disturbed) : (wdev.setData target ifname).Fits notified disturbed := by
  rcases @setData_cases wdev target ifname with heq | ⟨key, data, heq⟩
  · rw [heq]
    exact h
  · rw [heq]
    exact h.congr rfl rfl

theorem fits_processAdd (proc : Proc) (h : wdev.Fits notified disturbed) :
    (wdev.processAdd proc).Fits notified disturbed := by
  unfold processAdd
  split
  · exact h
  · split
    · exact h
    · exact h.congr rfl rfl

theorem fits_procCheck (active : Proc → Bool) (h : wdev.Fits notified disturbed) :
    (wdev.procCheck active).Fits notified (disturbed || !wdev.procs.all active) := by
  unfold procCheck
  split
  case isTrue hall =>
    rw [hall, Bool.not_true, Bool.or_false]
    exact fits_only h
  case isFalse => exact fits_teardown h.not_down

end Wdev

/-- The exit finds a device that its script has brought up, and leaves it in peace. -/
theorem Wdev.unharmed_setupCb (env : NetEnv) (hs : wdev.state ≠ .setup) :
    ∃ wdev', (wdev.setupCb env).wdev = some wdev' ∧ Watch.Unharmed wdev wdev' := by
  unfold setupCb
  rw [if_pos hs]
  split
  case isFalse => exact ⟨wdev, rfl, rfl, rfl, id⟩
  case isTrue hup =>
    unfold setup
    split
    case isTrue => exact ⟨_, rfl, rfl, rfl, id⟩
    case isFalse =>
      split
      · exact ⟨_, rfl, rfl, rfl, id⟩
      · exact ⟨_, rfl, rfl, rfl, nofun⟩

theorem Wdev.configChange_updateDisabledVifs (env : NetEnv) (h : wdev.configChange = true) :
    (wdev.updateDisabledVifs env).configChange = true := by
  unfold updateDisabledVifs
  dsimp only
  rw [h, Bool.true_or, Bool.true_or]

/-- A changed configuration is applied to a device that is up. -/
theorem Wdev.state_check (env : NetEnv) (hs : wdev.state = .up) (hauto : wdev.autostart = true)
    (hfailed : wdev.retrySetupFailed = false)
    (hchange : (wdev.updateDisabledVifs env).configChange = true) :
    ∃ wdev', (wdev.check env).wdev = some wdev' ∧ wdev'.state = .setup := by
  unfold check
  dsimp only
  rw [if_neg (not_not.mpr hchange), if_neg (fun h => h.1 hs)]
  unfold setup
  rw [if_neg (fun h => h.1 hs), if_neg]
  · exact ⟨_, rfl, rfl⟩
  · rintro (hstopped | hfailed')
    · exact hstopped hauto
    · exact nomatch hfailed.symm.trans hfailed'

theorem Wdev.state_update (env : NetEnv) (data : DeviceData) (hs : wdev.state = .up)
    (hauto : wdev.autostart = true) (hdata : wdev.data ≠ data) :
    ∃ wdev', (wdev.update env (some data)).wdev = some wdev' ∧ wdev'.state = .setup := by
  simp only [update]
  rw [if_neg hdata]
  refine state_check env ?_ ?_ rfl (configChange_updateDisabledVifs env rfl)
  · exact hs
  · exact hauto

theorem Wdev.not_unharmed_setupCb (env : NetEnv) (hs : wdev.state = .setup) {wdev' : Wdev}
    (heq : (wdev.setupCb env).wdev = some wdev') : ¬ Watch.Unharmed wdev wdev' := by
  intro h
  exact nomatch hs.symm.trans (h.teardown (state_setupCb env hs heq))

end Device

/-! ## The system -/

namespace Watch

variable {name : String} {w : Watch} {event : Event}

/-- What holds of a device that is watched between the steps. -/
structure Sound (name : String) (w : Watch) : Prop where
  system : w.system.Sound
  fits : w.isSetup name = true → ∀ wdev, (w.system.slots name).device = some wdev →
    wdev.Fits w.notified w.disturbed

variable {s : System} (env : NetEnv)

/-- The events under a name change the device of this name only. -/
theorem fits_on {other : String} {f : Slot → Slot} {notified disturbed : Bool}
    (hsame : other = name → ∀ wdev, (f (s.slots name)).device = some wdev →
      wdev.Fits notified disturbed)
    (hother : other ≠ name → ∀ wdev, (s.slots name).device = some wdev →
      wdev.Fits notified disturbed) (wdev : Wdev)
    (hdevice : ((s.on other f).slots name).device = some wdev) : wdev.Fits notified disturbed := by
  by_cases heq : other = name
  · rw [heq] at hdevice
    change (Function.update s.slots name _ name).device = some wdev at hdevice
    rw [Function.update_self] at hdevice
    exact hsame heq wdev hdevice
  · rw [System.slots_on_of_ne f (Ne.symm heq)] at hdevice
    exact hother heq wdev hdevice

theorem fits_call {slot : Slot} {f : Wdev → Outcome} {notified disturbed : Bool}
    (hf : ∀ wdev, slot.device = some wdev → (f wdev).Fits notified disturbed) (wdev : Wdev)
    (hdevice : (slot.call f).device = some wdev) : wdev.Fits notified disturbed := by
  unfold Slot.call at hdevice
  cases hbefore : slot.device with
  | none =>
    rw [hbefore] at hdevice
    exact nomatch hbefore.symm.trans hdevice
  | some before =>
    rw [hbefore] at hdevice
    obtain ⟨after, hafter, hfits⟩ := hf before hbefore
    rw [← Option.some.inj (hafter.symm.trans hdevice)]
    exact hfits

theorem cur_complete {s : System} (env : NetEnv) {task : String × Op} (hcur : s.cur = some task) :
    (s.complete env task).cur = none := by
  unfold System.complete
  rw [hcur]
  dsimp only
  rw [if_neg (not_not.mpr rfl)]
  rfl

/-- While something runs, no script has ended. -/
theorem exit_eq_of_running {task : String × Op} {op : Op} (h : s.Sound)
    (hafter : (s.exit env task).running name = some op) : s.exit env task = s := by
  unfold System.exit at hafter ⊢
  split at hafter
  case isFalse hmem => exact if_neg hmem
  case isTrue hmem =>
    rw [h.tasks, Option.mem_toList] at hmem
    have hnone := @cur_complete { s with tasks := s.tasks.erase task } env task hmem
    unfold System.running at hafter
    rw [hnone] at hafter
    cases hafter

theorem timeout_eq_of_running {op : Op} (h : s.Sound)
    (hafter : (s.timeout env).running name = some op) : s.timeout env = s := by
  unfold System.timeout at hafter ⊢
  cases hcur : s.cur with
  | none => rfl
  | some cur =>
    rw [hcur] at hafter
    exact exit_eq_of_running env h hafter

theorem runNext_eq_of_running {op : Op} (starts : Bool) (hbefore : s.running name = some op)
    (other : String) : s.runNext env other starts = s := by
  unfold System.runNext
  split
  case h_2 => rfl
  case h_1 hcur _ =>
    unfold System.running at hbefore
    rw [hcur] at hbefore
    cases hbefore

theorem fits_runNext {other : String} (starts : Bool) (h : s.Sound)
    (hbefore : s.running name ≠ some .setup)
    (hafter : (s.runNext env other starts).running name = some .setup) (wdev : Wdev)
    (hdevice : ((s.runNext env other starts).slots name).device = some wdev) :
    wdev.Fits false false := by
  unfold System.runNext at hafter hdevice
  split at hafter
  case h_2 => exact absurd hafter hbefore
  case h_1 op hcur hhandler =>
    have hslot := System.sound_dequeue h hcur hhandler name
    cases starts with
    | false =>
      have hnone := @cur_complete ({ s with cur := some (other, op) }.on other (Slot.dequeue op))
        env (other, op) rfl
      rw [if_neg Bool.false_ne_true] at hafter
      unfold System.running at hafter
      rw [hnone] at hafter
      cases hafter
    | true =>
      rw [hcur, hhandler] at hdevice
      change (({ s with cur := some (other, op) }.on other (Slot.dequeue op)).slots name).device =
        some wdev at hdevice
      change ({ s with cur := some (other, op) }.on other (Slot.dequeue op)).running name =
        some .setup at hafter
      unfold Slot.Sound at hslot
      rw [hdevice, hafter] at hslot
      have hphase := hslot.phase
      unfold Wdev.Phase at hphase
      unfold Wdev.Fits
      cases hs : wdev.state with
      | down =>
        rw [hs] at hphase
        exact nomatch hphase.2
      | setup => exact ⟨rfl, nofun⟩
      | up => rfl
      | teardown => trivial

theorem Defers.notified_eq_false (hdefers : w.Defers name event) (hsetup : w.isSetup name = true)
    {wdev : Wdev} (hdevice : (w.system.slots name).device = some wdev) (hs : wdev.state = .up)
    (happlies : event.applies name wdev = true) : w.notified = false := by
  by_contra hnotified
  rw [Bool.not_eq_false] at hnotified
  exact nomatch happlies.symm.trans (hdefers hsetup hnotified wdev hdevice hs)

/-- A reload is a change of the data, or a removal. -/
theorem fits_reload {env : NetEnv} {new : String → Option DeviceData} (h : w.Sound name)
    (hsetup : w.isSetup name = true) (hdefers : w.Defers name (.reload env new)) (wdev : Wdev)
    (hdevice : ((w.system.slots name).reload env (new name)).device = some wdev) :
    wdev.Fits w.notified (w.disturbed || decide (new name = none)) := by
  have hslot := h.system.slots name
  unfold Slot.Sound at hslot
  cases hbefore : (w.system.slots name).device with
  | none =>
    rw [hbefore, of_decide_eq_true hsetup] at hslot
    cases hslot.2
  | some before =>
    have hfits := h.fits hsetup before hbefore
    unfold Slot.reload Slot.updateConfig at hdevice
    rw [hbefore] at hdevice
    cases hnew : new name with
    | none =>
      rw [hnew] at hdevice
      obtain ⟨after, hafter, hdestroy⟩ := Wdev.fits_destroy hfits
      rw [← Option.some.inj (hafter.symm.trans hdevice), decide_eq_true rfl, Bool.or_true]
      exact hdestroy
    | some data =>
      rw [hnew] at hdevice
      have hup : before.state = .up → before.data ≠ data → w.notified = false := by
        intro hs hdata
        refine hdefers.notified_eq_false hsetup hbefore hs ?_
        change (new name).any (fun data => before.data ≠ data) = true
        rw [hnew]
        exact decide_eq_true hdata
      obtain ⟨after, hafter, hupdate⟩ := Wdev.fits_update env data hfits hup
      rw [← Option.some.inj (hafter.symm.trans hdevice), decide_eq_false (by simp),
        Bool.or_false]
      exact hupdate

theorem fits_onCall {other : String} {f : Wdev → Outcome} (h : w.Sound name)
    (hsetup : w.isSetup name = true)
    (hf : other = name → ∀ wdev, (w.system.slots name).device = some wdev →
      wdev.Fits w.notified w.disturbed → (f wdev).Fits w.notified w.disturbed) (wdev : Wdev)
    (hdevice : ((w.system.on other (Slot.call f)).slots name).device = some wdev) :
    wdev.Fits (w.notified || false) (w.disturbed || false) := by
  rw [Bool.or_false, Bool.or_false]
  refine fits_on (fun heq => fits_call fun before hbefore => ?_) (fun _ => h.fits hsetup) wdev
    hdevice
  exact hf heq before hbefore (h.fits hsetup before hbefore)

/-- A step while the setup script runs. -/
theorem fits_step (h : w.Sound name) (hsetup : w.isSetup name = true)
    (hafter : (w.step name event).isSetup name = true) (hdefers : w.Defers name event)
    (wdev : Wdev) (hdevice : ((w.system.step event).slots name).device = some wdev) :
    wdev.Fits (w.notified || event.marksUp name)
      (w.disturbed || event.disturbs name (w.system.slots name)) := by
  have hfits := h.fits hsetup
  have hquiet : ∀ wdev, (w.system.slots name).device = some wdev →
      wdev.Fits (w.notified || false) (w.disturbed || false) := by
    rw [Bool.or_false, Bool.or_false]
    exact hfits
  cases event with
  | reload env new =>
    change wdev.Fits (w.notified || false) _
    rw [Bool.or_false]
    exact fits_reload h hsetup hdefers wdev hdevice
  | up env other =>
    exact fits_onCall h hsetup (fun _ _ _ hw => Wdev.fits_start env hw) wdev hdevice
  | down other =>
    change wdev.Fits (w.notified || false) (w.disturbed || decide (other = name))
    rw [Bool.or_false]
    refine fits_on (fun heq after hafter => ?_) (fun hne => ?_) wdev hdevice
    · rw [decide_eq_true heq, Bool.or_true]
      exact fits_call (fun before hbefore => Wdev.fits_stop (hfits before hbefore)) after hafter
    · rw [decide_eq_false hne, Bool.or_false]
      exact hfits
  | retry env other =>
    exact fits_onCall h hsetup (fun _ _ _ hw => Wdev.fits_retrySetup env hw) wdev hdevice
  | reconf env other =>
    refine fits_onCall h hsetup (fun heq before hbefore hw => ?_) wdev hdevice
    exact Wdev.fits_reconf env hw fun hs =>
      hdefers.notified_eq_false hsetup hbefore hs (decide_eq_true heq)
  | checkInterfaces env other =>
    refine fits_onCall h hsetup (fun heq before hbefore hw => ?_) wdev hdevice
    split
    case isFalse => exact Wdev.fits_only hw
    case isTrue hauto =>
      refine Wdev.fits_check env hw fun hs hchange => ?_
      refine hdefers.notified_eq_false hsetup hbefore hs ?_
      change (decide (other = name) && before.autostart &&
        (before.updateDisabledVifs env).configChange) = true
      rw [hauto, hchange, decide_eq_true heq]
      rfl
  | next env other starts =>
    have hsame := runNext_eq_of_running env starts (of_decide_eq_true hsetup)
    change ((w.system.runNext env other starts).slots name).device = some wdev at hdevice
    rw [hsame other] at hdevice
    exact hquiet wdev hdevice
  | exit env task =>
    have hsame := exit_eq_of_running env h.system (of_decide_eq_true hafter)
    change ((w.system.exit env task).slots name).device = some wdev at hdevice
    rw [hsame] at hdevice
    exact hquiet wdev hdevice
  | timeout env =>
    have hsame := timeout_eq_of_running env h.system (of_decide_eq_true hafter)
    change ((w.system.timeout env).slots name).device = some wdev at hdevice
    rw [hsame] at hdevice
    exact hquiet wdev hdevice
  | markUp other =>
    change wdev.Fits (w.notified || decide (other = name)) (w.disturbed || false)
    rw [Bool.or_false]
    refine fits_on (fun heq after hafter => ?_) (fun hne => ?_) wdev hdevice
    · rw [decide_eq_true heq, Bool.or_true]
      exact fits_call (fun before hbefore => Wdev.fits_markUp (hfits before hbefore)) after hafter
    · rw [decide_eq_false hne, Bool.or_false]
      exact hfits
  | setData other target ifname =>
    refine fits_onCall h hsetup (fun _ _ _ hw => ?_) wdev hdevice
    exact Wdev.fits_only (Wdev.fits_setData target ifname hw)
  | processAdd other proc =>
    refine fits_onCall h hsetup (fun _ _ _ hw => ?_) wdev hdevice
    exact Wdev.fits_only (Wdev.fits_processAdd proc hw)
  | setRetry other retry =>
    refine fits_onCall h hsetup (fun _ before _ hw => ?_) wdev hdevice
    have hretry : (before.setRetry retry).Fits w.notified w.disturbed := hw.congr rfl rfl
    exact Wdev.fits_only hretry
  | procCheck other active =>
    change wdev.Fits (w.notified || false) (w.disturbed ||
      (decide (other = name) && (w.system.slots name).device.any fun wdev => !wdev.procs.all active))
    rw [Bool.or_false]
    refine fits_on (fun heq => fits_call fun before hbefore => ?_) (fun hne => ?_) wdev hdevice
    · rw [decide_eq_true heq, Bool.true_and, hbefore]
      exact Wdev.fits_procCheck active (hfits before hbefore)
    · rw [decide_eq_false hne, Bool.false_and, Bool.or_false]
      exact hfits

/-- Every step under the condition keeps the device fitting. -/
theorem sound_step (h : w.Sound name) (hdefers : w.Defers name event) :
    (w.step name event).Sound name := by
  refine ⟨System.sound_step event h.system, fun hafter wdev hdevice => ?_⟩
  change wdev.Fits (w.isSetup name && (w.notified || event.marksUp name))
    (w.isSetup name && (w.disturbed || event.disturbs name (w.system.slots name)))
  cases hsetup : w.isSetup name with
  | true =>
    rw [Bool.true_and, Bool.true_and]
    exact fits_step h hsetup hafter hdefers wdev hdevice
  | false =>
    rw [Bool.false_and, Bool.false_and]
    have hbefore := of_decide_eq_false hsetup
    have hrunning : (w.system.step event).running name = some .setup := of_decide_eq_true hafter
    cases event with
    | next env other starts => exact fits_runNext env starts h.system hbefore hrunning wdev hdevice
    | exit env task =>
      change (w.system.exit env task).running name = some .setup at hrunning
      rw [exit_eq_of_running env h.system hrunning] at hrunning
      exact absurd hrunning hbefore
    | timeout env =>
      change (w.system.timeout env).running name = some .setup at hrunning
      rw [timeout_eq_of_running env h.system hrunning] at hrunning
      exact absurd hrunning hbefore
    | _ => exact absurd hrunning hbefore

/-- The exit of a script that runs is that of its callback. -/
theorem device_exit (h : s.Sound) (hsetup : s.running name = some .setup) {wdev : Wdev}
    (hdevice : (s.slots name).device = some wdev) :
    ((s.exit env (name, .setup)).slots name).device = (wdev.setupCb env).wdev := by
  have hcur : s.cur = some (name, .setup) := by
    unfold System.running at hsetup
    cases hcur : s.cur with
    | none =>
      rw [hcur] at hsetup
      cases hsetup
    | some cur =>
      rw [hcur, Option.bind_some] at hsetup
      split at hsetup
      case isFalse => cases hsetup
      case isTrue heq => rw [← heq, ← Option.some.inj hsetup]
  have hmem : (name, Op.setup) ∈ s.tasks := by
    rw [h.tasks, hcur]
    exact List.mem_singleton_self _
  unfold System.exit System.complete
  rw [if_pos hmem]
  dsimp only
  rw [hcur]
  dsimp only
  rw [if_neg (not_not.mpr rfl)]
  change (Function.update s.slots name _ name).device = _
  rw [Function.update_self]
  unfold Slot.call
  rw [hdevice]
  rfl

theorem Sound.exitsWell (h : w.Sound name) : w.ExitsWell name := by
  intro hsetup hnotified _ env wdev hdevice
  rw [device_exit env h.system (of_decide_eq_true hsetup) hdevice]
  refine Wdev.unharmed_setupCb env fun hs => ?_
  have hfits := h.fits hsetup wdev hdevice
  unfold Wdev.Fits at hfits
  rw [hs] at hfits
  exact nomatch hfits.1.symm.trans hnotified

/-- A configuration that is applied to a device that is up takes it back to its setup. -/
theorem exists_device_of_applies (h : w.Sound name) {wdev : Wdev}
    (hdevice : (w.system.slots name).device = some wdev) (hs : wdev.state = .up)
    (happlies : event.applies name wdev = true) :
    ∃ wdev', ((w.system.step event).slots name).device = some wdev' ∧ wdev'.state = .setup := by
  have hslot := h.system.slots name
  unfold Slot.Sound at hslot
  rw [hdevice] at hslot
  obtain ⟨hauto, hfailed, -⟩ := hslot.up hs
  have hcall : ∀ {f : Wdev → Outcome}, (w.system.on name (Slot.call f)).slots name =
      (w.system.slots name).take (f wdev) := by
    intro f
    change Function.update w.system.slots name _ name = _
    rw [Function.update_self]
    unfold Slot.call
    rw [hdevice]
  cases event with
  | reload env new =>
    obtain ⟨data, hnew, hdata⟩ := (Option.any_eq_true _ _).mp happlies
    obtain ⟨wdev', heq, hs'⟩ := Wdev.state_update env data hs hauto (of_decide_eq_true hdata)
    refine ⟨wdev', ?_, hs'⟩
    change ((w.system.slots name).reload env (new name)).device = some wdev'
    unfold Slot.reload Slot.updateConfig
    rw [hdevice, hnew]
    exact heq
  | reconf env other =>
    obtain rfl : other = name := of_decide_eq_true happlies
    obtain ⟨wdev', heq, hs'⟩ := @Wdev.state_check { wdev.reset with configChange := true } env hs
      hauto rfl (Wdev.configChange_updateDisabledVifs env rfl)
    refine ⟨wdev', ?_, hs'⟩
    change ((w.system.on other (Slot.call (Wdev.update env none))).slots other).device = _
    rw [hcall]
    exact heq
  | checkInterfaces env other =>
    simp only [Event.applies, Bool.and_eq_true, decide_eq_true_eq] at happlies
    obtain ⟨⟨rfl, -⟩, hchange⟩ := happlies
    obtain ⟨wdev', heq, hs'⟩ := Wdev.state_check env hs hauto hfailed hchange
    refine ⟨wdev', ?_, hs'⟩
    change ((w.system.on other (Slot.call fun wdev =>
      if wdev.autostart then wdev.check env else .only wdev)).slots other).device = _
    rw [hcall, if_pos hauto]
    exact heq
  | _ => cases happlies

/-- It is no stop, and the script runs on. -/
theorem quiet_of_applies {wdev : Wdev} (happlies : event.applies name wdev = true) :
    (w.system.step event).running name = w.system.running name ∧ event.marksUp name = false ∧
      event.disturbs name (w.system.slots name) = false := by
  cases event with
  | reload env new =>
    obtain ⟨data, hnew, -⟩ := (Option.any_eq_true _ _).mp happlies
    refine ⟨rfl, rfl, ?_⟩
    change decide (new name = none) = false
    rw [hnew]
    exact decide_eq_false (Option.some_ne_none data)
  | reconf env other => exact ⟨rfl, rfl, rfl⟩
  | checkInterfaces env other => exact ⟨rfl, rfl, rfl⟩
  | _ => cases happlies

/-- After a step that does not meet the condition, the exit does harm. -/
theorem Sound.defers (h : w.Sound name) (hwell : (w.step name event).ExitsWell name) :
    w.Defers name event := by
  intro hsetup hnotified wdev hdevice hs
  by_contra happlies
  rw [Bool.not_eq_false] at happlies
  obtain ⟨hrunning, hmarks, hdisturbs⟩ := @quiet_of_applies name w event wdev happlies
  obtain ⟨wdev', hdevice', hs'⟩ := exists_device_of_applies h hdevice hs happlies
  have hsetup' : (w.system.step event).running name = some .setup :=
    hrunning.trans (of_decide_eq_true hsetup)
  have hundisturbed : w.disturbed = false := by
    have hfits := h.fits hsetup wdev hdevice
    unfold Wdev.Fits at hfits
    rw [hs] at hfits
    exact hfits
  obtain ⟨after, hafter, hunharmed⟩ := hwell (decide_eq_true hsetup')
    (by simp [step, hsetup, hnotified]) (by simp [step, hundisturbed, hdisturbs])
    System.noNets wdev' hdevice'
  have hsystem := System.sound_step event h.system
  change ((((w.system.step event).exit _ (name, .setup)).slots name).device = some after) at hafter
  rw [device_exit _ hsystem hsetup' hdevice'] at hafter
  exact Wdev.not_unharmed_setupCb _ hs' hafter hunharmed

/-! ## Runs -/

/-- Over every run the exit of a setup script that has notified does no harm, unless the device was
disturbed, exactly as long as no configuration is applied while such a script runs. -/
theorem exitsWell_iff_defers (name : String) (events : List Event) :
    (∀ n, ((events.take n).foldl (step name) start).ExitsWell name) ↔
      Along (step name) (fun w event => w.Defers name event) events start := by
  have hstart : start.Sound name := ⟨System.sound_run [], fun h => nomatch of_decide_eq_true h⟩
  exact (along_iff_forall_take_of_invariant (fun _ h => h.exitsWell)
    (fun _ _ _ h hdefers => sound_step h hdefers) (fun _ _ _ h hwell => h.defers hwell)
    hstart).symm

open OpenWrt.Netifd.System (noNets onlyRadio)

def changedRadio (name : String) : Option DeviceData :=
  if name = "radio0" then some ⟨"radio0", [("type", "mac80211"), ("channel", "36")], []⟩ else none

/-- The radio is set up, and gets another channel before its setup script has ended. -/
def changeWhileSetup : List Event :=
  [.reload noNets onlyRadio, .up noNets "radio0", .next noNets "radio0" true, .markUp "radio0",
    .reload noNets changedRadio]

/-- The exit of the script takes the radio down. -/
theorem not_exitsWell_of_change :
    ¬ ∀ n, ((changeWhileSetup.take n).foldl (step "radio0") start).ExitsWell "radio0" := by
  intro hall
  have hwell : (changeWhileSetup.foldl (step "radio0") start).ExitsWell "radio0" :=
    hall changeWhileSetup.length
  have hbefore : ((changeWhileSetup.foldl (step "radio0") start).system.slots
      "radio0").device.map Wdev.state = some .setup := by decide +kernel
  have hafter : (((changeWhileSetup.foldl (step "radio0") start).system.exit noNets
      ("radio0", .setup)).slots "radio0").device.map Wdev.state = some .teardown := by
    decide +kernel
  obtain ⟨wdev, hdevice, hs⟩ := Option.map_eq_some_iff.mp hbefore
  obtain ⟨wdev', hdevice', hunharmed⟩ := hwell (by decide +kernel) (by decide +kernel)
    (by decide +kernel) noNets wdev hdevice
  rw [hdevice', Option.map_some, Option.some.injEq] at hafter
  exact nomatch hs.symm.trans (hunharmed.teardown hafter)

end Watch

end OpenWrt.Netifd
