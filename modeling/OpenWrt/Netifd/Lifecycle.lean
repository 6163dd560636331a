/-
# The devices follow the configuration

A device that leaves the configuration is torn down before it is deleted. The devices are
those of the configuration once nothing runs or is queued, and they start by themselves,
exactly as long as no reload brings back a device that is still being deleted: its new data
does not start it again, and unchanged data does not even keep it.
-/

import OpenWrt.Netifd.HandlerSound

namespace OpenWrt.Netifd

open Lib

/-! ## The flags of a device -/

namespace Wdev

variable {wdev wdev' : Wdev}

/-- The flags are the same, and a device that is not down does not get down. -/
structure Stays (wdev wdev' : Wdev) : Prop where
  autostart : wdev'.autostart = wdev.autostart
  delete : wdev'.delete = wdev.delete
  state : wdev.state ≠ .down → wdev'.state ≠ .down

variable (wdev : Wdev) (env : NetEnv)

theorem stays_setup : ∃ wdev', wdev.setup.wdev = some wdev' ∧ wdev.Stays wdev' := by
  unfold setup
  split
  · exact ⟨_, rfl, rfl, rfl, id⟩
  · split
    · exact ⟨_, rfl, rfl, rfl, id⟩
    · exact ⟨_, rfl, rfl, rfl, fun _ => nofun⟩

theorem stays_teardown : ∃ wdev', wdev.teardown.wdev = some wdev' ∧ wdev.Stays wdev' := by
  unfold teardown
  split
  · exact ⟨_, rfl, rfl, rfl, id⟩
  · exact ⟨_, rfl, rfl, rfl, fun _ => nofun⟩

theorem stays_check (wdev : Wdev) :
    ∃ wdev', (wdev.check env).wdev = some wdev' ∧ wdev.Stays wdev' := by
  unfold check
  dsimp only
  split
  · exact ⟨_, rfl, rfl, rfl, id⟩
  · split
    · exact ⟨_, rfl, rfl, rfl, id⟩
    · obtain ⟨wdev', heq, hstays⟩ := stays_setup ((wdev.updateDisabledVifs env).configInit env)
      exact ⟨wdev', heq, hstays.autostart, hstays.delete, hstays.state⟩

theorem stays_reconf (wdev : Wdev) :
    ∃ wdev', (wdev.update env none).wdev = some wdev' ∧ wdev.Stays wdev' := by
  obtain ⟨wdev', heq, hstays⟩ := stays_check env { wdev.reset with configChange := true }
  exact ⟨wdev', heq, hstays.autostart, hstays.delete, hstays.state⟩

theorem stays_setupCb (wdev : Wdev) :
    ∃ wdev', (wdev.setupCb env).wdev = some wdev' ∧ wdev.Stays wdev' := by
  unfold setupCb
  split
  · split
    · obtain ⟨wdev', heq, hstays⟩ := stays_setup (wdev.configInit env)
      exact ⟨wdev', heq, hstays.autostart, hstays.delete, hstays.state⟩
    · exact ⟨_, rfl, rfl, rfl, id⟩
  · split
    · obtain ⟨wdev', heq, hstays⟩ := stays_teardown { wdev with retry := wdev.retry - 1 }
      exact ⟨wdev', heq, hstays.autostart, hstays.delete, hstays.state⟩
    · obtain ⟨wdev', heq, hstays⟩ := stays_teardown { wdev with retrySetupFailed := true }
      exact ⟨wdev', heq, hstays.autostart, hstays.delete, hstays.state⟩

theorem stays_markUp : ∃ wdev', wdev.markUp.wdev = some wdev' ∧ wdev.Stays wdev' := by
  unfold markUp
  split
  · exact ⟨_, rfl, rfl, rfl, id⟩
  · split
    · obtain ⟨wdev', heq, hstays⟩ := stays_teardown { wdev with cancelSetup := false }
      exact ⟨wdev', heq, hstays.autostart, hstays.delete, hstays.state⟩
    · exact ⟨_, rfl, rfl, rfl, fun _ => nofun⟩

theorem stays_setData (target : Target) (ifname : Option String) (wdev : Wdev) :
    wdev.Stays (wdev.setData target ifname) := by
  rcases @setData_cases wdev target ifname with heq | ⟨key, data, heq⟩
  · rw [heq]
    exact ⟨rfl, rfl, id⟩
  · rw [heq]
    exact ⟨rfl, rfl, id⟩

theorem stays_processAdd (proc : Proc) (wdev : Wdev) : wdev.Stays (wdev.processAdd proc) := by
  unfold processAdd
  split
  · exact ⟨rfl, rfl, id⟩
  · split
    · exact ⟨rfl, rfl, id⟩
    · exact ⟨rfl, rfl, id⟩

theorem stays_procCheck (active : Proc → Bool) (wdev : Wdev) :
    ∃ wdev', (wdev.procCheck active).wdev = some wdev' ∧ wdev.Stays wdev' := by
  unfold procCheck
  split
  · exact ⟨_, rfl, rfl, rfl, id⟩
  · exact stays_teardown wdev

/-- Stopping a device clears its autostart. -/
theorem exists_stop : ∃ wdev', wdev.stop.wdev = some wdev' ∧
    wdev'.autostart = false ∧ wdev'.delete = wdev.delete ∧
      (wdev.state ≠ .down → wdev'.state ≠ .down) := by
  unfold stop
  dsimp only
  split
  · exact ⟨_, rfl, rfl, rfl, id⟩
  · obtain ⟨wdev', heq, hstays⟩ := stays_teardown { wdev with autostart := false }
    exact ⟨wdev', heq, hstays.autostart, hstays.delete, hstays.state⟩
  · exact ⟨_, rfl, rfl, rfl, id⟩
  · exact ⟨_, rfl, rfl, rfl, id⟩

/-- A device that is destroyed is gone, or marked and not down yet. -/
theorem destroy_cases : wdev.destroy.wdev = none ∨
    ∃ wdev', wdev.destroy.wdev = some wdev' ∧ wdev'.delete = true ∧ wdev'.autostart = false ∧
      wdev'.state ≠ .down := by
  unfold destroy
  dsimp only
  split
  case isFalse => exact .inl rfl
  case isTrue hstate =>
    obtain ⟨wdev', heq, hauto, hdelete, hdown⟩ :=
      exists_stop { wdev with autostart := false, delete := true }
    exact .inr ⟨wdev', heq, hdelete, hauto, hdown hstate⟩

/-- A device that is marked does not start, any other one gets its autostart. -/
theorem start_cases (wdev : Wdev) :
    (wdev.delete = true ∧ wdev.start env = .only wdev) ∨
      (wdev.delete = false ∧ ∃ wdev', (wdev.start env).wdev = some wdev' ∧
        wdev'.autostart = true ∧ wdev'.delete = false) := by
  unfold start
  split
  case isTrue hdelete => exact .inl ⟨hdelete, rfl⟩
  case isFalse hdelete =>
    have hfalse := Bool.eq_false_iff.mpr hdelete
    refine .inr ⟨hfalse, ?_⟩
    dsimp only
    split
    · exact ⟨_, rfl, rfl, hfalse⟩
    · split
      · obtain ⟨wdev', heq, hstays⟩ :=
          stays_setup (({ wdev.reset with autostart := true }.updateDisabledVifs env).configInit env)
        exact ⟨wdev', heq, hstays.autostart, hstays.delete.trans hfalse⟩
      · obtain ⟨wdev', heq, hstays⟩ :=
          stays_setup ({ wdev.reset with autostart := true }.updateDisabledVifs env)
        exact ⟨wdev', heq, hstays.autostart, hstays.delete.trans hfalse⟩

theorem retrySetup_cases (wdev : Wdev) :
    wdev.retrySetup env = .only wdev ∨ wdev.retrySetup env = wdev.start env := by
  unfold retrySetup
  split
  · exact .inl rfl
  · split
    · exact .inl rfl
    · exact .inr rfl

/-- The teardown ends with the deletion of a device that is marked. -/
theorem teardownCb_cases (wdev : Wdev) :
    (wdev.delete = true ∧ (wdev.teardownCb env).wdev = none) ∨
      (wdev.delete = false ∧ ∃ wdev', (wdev.teardownCb env).wdev = some wdev' ∧
        wdev'.autostart = wdev.autostart ∧ wdev'.delete = false) := by
  unfold teardownCb
  dsimp only
  split
  case isTrue hdelete => exact .inl ⟨hdelete, rfl⟩
  case isFalse hdelete =>
    obtain ⟨wdev', heq, hstays⟩ := stays_setup (wdev.tornDown env)
    have hsame : (wdev.tornDown env).autostart = wdev.autostart ∧
        (wdev.tornDown env).delete = wdev.delete := by
      unfold tornDown
      dsimp only
      split <;> exact ⟨rfl, rfl⟩
    exact .inr ⟨Bool.eq_false_iff.mpr hdelete, wdev', heq, hstays.autostart.trans hsame.1,
      (hstays.delete.trans hsame.2).trans (Bool.eq_false_iff.mpr hdelete)⟩

/-- The data of the configuration replaces the mark, but not the autostart. -/
theorem update_cases (data : DeviceData) (wdev : Wdev) :
    wdev.update env (some data) = .only wdev ∨
      ∃ wdev', (wdev.update env (some data)).wdev = some wdev' ∧
        wdev'.autostart = wdev.autostart ∧ wdev'.delete = false := by
  simp only [update]
  split
  case isTrue => exact .inl rfl
  case isFalse =>
    obtain ⟨wdev', heq, hstays⟩ := stays_check env
      { wdev.reset with
        data
        ifindexCache := fun _ => none
        delete := false
        configChange := true }
    exact .inr ⟨wdev', heq, hstays.autostart, hstays.delete⟩

end Wdev

/-! ## The invariant -/

variable {config : Option DeviceData} {stopped : Bool}

/-- A device outside of the configuration is marked and on its way down, one in the
configuration is not marked and starts by itself unless the user has stopped it. -/
structure Wdev.Life (wdev : Wdev) (config : Option DeviceData) (stopped : Bool) : Prop where
  marked : wdev.delete = true → wdev.autostart = false ∧ wdev.state ≠ .down
  outside : config = none ↔ wdev.delete = true
  autostart : config ≠ none → stopped = false → wdev.autostart = true

def Outcome.Life (outcome : Outcome) (config : Option DeviceData) (stopped : Bool) : Prop :=
  match outcome.wdev with
  | none => config = none
  | some wdev => wdev.Life config stopped

def Slot.Life (slot : Slot) : Prop :=
  match slot.device with
  | none => slot.config = none
  | some wdev => wdev.Life slot.config slot.stopped

namespace Wdev

variable {wdev wdev' : Wdev}

theorem Life.of_stays (h : wdev.Life config stopped) (hstays : wdev.Stays wdev') :
    wdev'.Life config stopped := by
  refine ⟨fun hdelete => ?_, ?_, fun hin hnot => ?_⟩
  · obtain ⟨hauto, hstate⟩ := h.marked (hstays.delete.symm.trans hdelete)
    exact ⟨hstays.autostart.trans hauto, hstays.state hstate⟩
  · rw [hstays.delete]
    exact h.outside
  · exact hstays.autostart.trans (h.autostart hin hnot)

theorem Life.of_exists {outcome : Outcome} (h : wdev.Life config stopped)
    (hexists : ∃ wdev', outcome.wdev = some wdev' ∧ wdev.Stays wdev') :
    outcome.Life config stopped := by
  obtain ⟨wdev', heq, hstays⟩ := hexists
  unfold Outcome.Life
  rw [heq]
  exact h.of_stays hstays

theorem life_start (env : NetEnv) (h : wdev.Life config stopped) :
    (wdev.start env).Life config stopped := by
  unfold Outcome.Life
  rcases wdev.start_cases env with ⟨-, heq⟩ | ⟨hfalse, wdev', heq, hauto, hdelete⟩
  · rw [heq]
    exact h
  · rw [heq]
    refine ⟨(fun htrue => nomatch hdelete.symm.trans htrue), ?_, fun _ _ => hauto⟩
    rw [hdelete, ← hfalse]
    exact h.outside

theorem life_retrySetup (env : NetEnv) (h : wdev.Life config stopped) :
    (wdev.retrySetup env).Life config stopped := by
  rcases wdev.retrySetup_cases env with heq | heq
  · rw [heq]
    exact h
  · rw [heq]
    exact life_start env h

theorem life_stop (h : wdev.Life config stopped) : wdev.stop.Life config true := by
  obtain ⟨wdev', heq, hauto, hdelete, hstate⟩ := wdev.exists_stop
  unfold Outcome.Life
  rw [heq]
  refine ⟨fun htrue => ⟨hauto, hstate (h.marked (hdelete.symm.trans htrue)).2⟩, ?_,
    fun _ hfalse => nomatch hfalse⟩
  rw [hdelete]
  exact h.outside

theorem life_callback (env : NetEnv) (op : Op) (h : wdev.Life config stopped) :
    (wdev.callback env op).Life config stopped := by
  cases op with
  | setup => exact h.of_exists (wdev.stays_setupCb env)
  | teardown =>
    change (wdev.teardownCb env).Life config stopped
    unfold Outcome.Life
    rcases wdev.teardownCb_cases env with ⟨hdelete, heq⟩ | ⟨hfalse, wdev', heq, hauto, hdelete⟩
    · rw [heq]
      exact h.outside.mpr hdelete
    · rw [heq]
      refine ⟨(fun htrue => nomatch hdelete.symm.trans htrue), ?_, fun hin hnot => ?_⟩
      · rw [hdelete, ← hfalse]
        exact h.outside
      · exact hauto.trans (h.autostart hin hnot)

end Wdev

namespace Slot

variable {slot : Slot}

theorem life_call {f : Wdev → Outcome} (h : slot.Life)
    (hf : ∀ wdev : Wdev, wdev.Life slot.config slot.stopped →
      (f wdev).Life slot.config slot.stopped) : (slot.call f).Life := by
  unfold Life at h
  unfold call
  cases hdevice : slot.device with
  | none =>
    rw [hdevice] at h
    unfold Life
    rw [hdevice]
    exact h
  | some wdev =>
    rw [hdevice] at h
    exact hf wdev h

theorem life_userStop (h : slot.Life) : slot.userStop.Life := by
  unfold Life at h
  unfold userStop call
  cases hdevice : slot.device with
  | none =>
    rw [hdevice] at h
    unfold Life
    dsimp only
    rw [hdevice]
    exact h
  | some wdev =>
    rw [hdevice] at h
    exact Wdev.life_stop h

/-- A reload that does not bring back a device that is being deleted. -/
theorem life_reload (env : NetEnv) {new : Option DeviceData} (h : slot.Life)
    (hnew : ∀ wdev, slot.device = some wdev → wdev.delete = true → new = none) :
    (slot.reload env new).Life := by
  unfold Life at h
  unfold reload updateConfig
  cases hdevice : slot.device with
  | none =>
    cases new with
    | none =>
      unfold Life
      dsimp only
      rw [hdevice]
    | some data =>
      exact ⟨(fun htrue => nomatch htrue),
        ⟨(fun hnone => nomatch hnone), fun htrue => nomatch htrue⟩, fun _ _ => rfl⟩
  | some wdev =>
    rw [hdevice] at h
    cases new with
    | none =>
      unfold Life take
      dsimp only
      rcases wdev.destroy_cases with heq | ⟨wdev', heq, hdelete, hauto, hstate⟩
      · rw [heq]
      · rw [heq]
        exact ⟨fun _ => ⟨hauto, hstate⟩, ⟨fun _ => hdelete, fun _ => rfl⟩,
          fun hin => absurd rfl hin⟩
    | some data =>
      have hfalse : wdev.delete = false :=
        Bool.eq_false_iff.mpr fun htrue => nomatch hnew wdev hdevice htrue
      have hin : slot.config ≠ none := fun hnone => nomatch hfalse.symm.trans (h.outside.mp hnone)
      obtain ⟨wdev', heq, hauto, hdelete⟩ : ∃ wdev', (wdev.update env (some data)).wdev = some wdev' ∧
          wdev'.autostart = wdev.autostart ∧ wdev'.delete = false := by
        rcases wdev.update_cases env data with heq | hupdated
        · exact ⟨wdev, by rw [heq]; rfl, rfl, hfalse⟩
        · exact hupdated
      unfold Life take
      dsimp only
      rw [heq]
      refine ⟨(fun htrue => nomatch hdelete.symm.trans htrue),
        ⟨(fun hnone => nomatch hnone), fun htrue => nomatch hdelete.symm.trans htrue⟩,
        fun _ hnot => ?_⟩
      rw [Bool.and_eq_false_iff] at hnot
      refine hauto.trans (h.autostart hin (hnot.resolve_left ?_))
      rw [Option.isSome_iff_ne_none.mpr hin]
      exact nofun

/-- A device that is brought back while it is deleted keeps its mark, or does not start. -/
theorem not_starts_of_revived (env : NetEnv) {data : DeviceData} {wdev : Wdev} (h : slot.Life)
    (hdevice : slot.device = some wdev) (hmarked : wdev.delete = true) :
    (slot.reload env (some data)).stopped = false ∧
      ∃ wdev', (slot.reload env (some data)).device = some wdev' ∧
        (wdev'.delete = true ∨ wdev'.autostart = false) := by
  unfold Life at h
  rw [hdevice] at h
  unfold reload updateConfig
  rw [hdevice]
  refine ⟨?_, ?_⟩
  · rw [h.outside.mpr hmarked]
    rfl
  · rcases wdev.update_cases env data with heq | ⟨wdev', heq, hauto, -⟩
    · exact ⟨wdev, by dsimp only [take]; rw [heq]; rfl, .inl hmarked⟩
    · exact ⟨wdev', heq, .inr (hauto.trans (h.marked hmarked).1)⟩

end Slot

namespace System

variable {s : System}

/-- What holds of every device as long as none is brought back. -/
structure Life (s : System) : Prop where
  sound : s.Sound
  slots : ∀ name, (s.slots name).Life

theorem life_on {name : String} {f : Slot → Slot} (h : ∀ name, (s.slots name).Life)
    (hf : (f (s.slots name)).Life) (other : String) : ((s.on name f).slots other).Life := by
  change (Function.update s.slots name (f (s.slots name)) other).Life
  by_cases heq : other = name
  · subst heq
    rw [Function.update_self]
    exact hf
  · rw [Function.update_of_ne heq]
    exact h other

theorem life_onCall {name : String} {f : Wdev → Outcome} (h : ∀ name, (s.slots name).Life)
    (hf : ∀ {wdev : Wdev} {config stopped}, wdev.Life config stopped →
      (f wdev).Life config stopped) (other : String) :
    ((s.on name (Slot.call f)).slots other).Life :=
  life_on h (Slot.life_call (h name) fun _ hw => hf hw) other

variable (env : NetEnv)

theorem life_complete (task : String × Op) (h : ∀ name, (s.slots name).Life) (other : String) :
    ((s.complete env task).slots other).Life := by
  unfold complete
  split
  · exact h other
  · split
    · exact h other
    · exact life_onCall (s := { s with cur := none }) h (Wdev.life_callback env task.2) other

theorem life_runNext (name : String) (starts : Bool) (h : ∀ name, (s.slots name).Life)
    (other : String) : ((s.runNext env name starts).slots other).Life := by
  unfold runNext
  split
  case h_2 => exact h other
  case h_1 op hcur hhandler =>
    have hslots : ∀ other,
        (({ s with cur := some (name, op) }.on name (Slot.dequeue op)).slots other).Life :=
      life_on (s := { s with cur := some (name, op) }) h (h name)
    split
    · exact hslots other
    · exact life_complete env (name, op) hslots other

theorem life_exit (task : String × Op) (h : ∀ name, (s.slots name).Life) (other : String) :
    ((s.exit env task).slots other).Life := by
  unfold exit
  split
  · exact life_complete (s := { s with tasks := s.tasks.erase task }) env task h other
  · exact h other

/-- No reload brings back a device that is being deleted. -/
def NoRevival (s : System) : Event → Prop
  | .reload _ new => ∀ name wdev, (s.slots name).device = some wdev → wdev.delete = true →
      new name = none
  | _ => True

/-- A step that brings back no device keeps the invariant. -/
theorem life_step {event : Event} (h : s.Life) (hnew : s.NoRevival event) : (s.step event).Life := by
  refine ⟨sound_step event h.sound, ?_⟩
  cases event with
  | reload env new => exact fun name => Slot.life_reload env (h.slots name) (hnew name)
  | up env name => exact life_onCall h.slots (Wdev.life_start env)
  | down name => exact life_on h.slots (Slot.life_userStop (h.slots name))
  | retry env name => exact life_onCall h.slots (Wdev.life_retrySetup env)
  | reconf env name => exact life_onCall h.slots fun hw => hw.of_exists (Wdev.stays_reconf env _)
  | checkInterfaces env name =>
    refine life_onCall h.slots fun hw => ?_
    split
    · exact hw.of_exists (Wdev.stays_check env _)
    · exact hw
  | next env name starts => exact life_runNext env name starts h.slots
  | exit env task => exact life_exit env task h.slots
  | timeout env =>
    change ∀ name, ((s.timeout env).slots name).Life
    unfold timeout
    split
    · exact h.slots
    · exact life_exit env _ h.slots
  | markUp name => exact life_onCall h.slots fun hw => hw.of_exists (Wdev.stays_markUp _)
  | setData name target ifname =>
    exact life_onCall h.slots fun hw => hw.of_stays (Wdev.stays_setData target ifname _)
  | processAdd name proc =>
    exact life_onCall h.slots fun hw => hw.of_stays (Wdev.stays_processAdd proc _)
  | setRetry name retry => exact life_onCall h.slots fun hw => hw.of_stays ⟨rfl, rfl, id⟩
  | procCheck name active =>
    exact life_onCall h.slots fun hw => hw.of_exists (Wdev.stays_procCheck active _)

/-! ## The devices follow the configuration -/

/-- No script is queued or running. -/
structure Quiet (s : System) : Prop where
  cur : s.cur = none
  handlers : ∀ name, (s.slots name).handler = none

/-- The devices are those of the configuration, and they start by themselves. -/
structure Follows (s : System) : Prop where
  devices : s.Quiet → ∀ name, (s.slots name).device.isSome = (s.slots name).config.isSome
  flags : ∀ name wdev, (s.slots name).device = some wdev → (s.slots name).config ≠ none →
    (s.slots name).stopped = false → wdev.autostart = true ∧ wdev.delete = false

theorem Life.follows (h : s.Life) : s.Follows := by
  refine ⟨fun hquiet name => ?_, fun name wdev hdevice hin hnot => ?_⟩
  · have hlife := h.slots name
    have hsound := h.sound.slots name
    unfold Slot.Life at hlife
    unfold Slot.Sound at hsound
    cases hdevice : (s.slots name).device with
    | none =>
      rw [hdevice] at hlife
      rw [hlife]
      rfl
    | some wdev =>
      rw [hdevice] at hlife hsound
      have hidle : s.running name = none := by
        unfold running
        rw [hquiet.cur]
        rfl
      rw [hquiet.handlers name, hidle] at hsound
      -- a device on its way down has a handler
      have hfalse : wdev.delete = false := by
        refine Bool.eq_false_iff.mpr fun htrue => ?_
        have hphase := hsound.phase
        unfold Wdev.Phase at hphase
        cases hs : wdev.state with
        | down => exact (hlife.marked htrue).2 hs
        | setup =>
          rw [hs] at hphase
          obtain ⟨-, hop | ⟨-, hop, -⟩⟩ := hphase <;> cases hop
        | up =>
          rw [hs] at hphase
          exact nomatch htrue.symm.trans hphase.1.2.2
        | teardown =>
          rw [hs] at hphase
          rcases hphase with ⟨hop, -⟩ | ⟨-, hop⟩ <;> cases hop
      have hin : (s.slots name).config ≠ none := fun hnone =>
        nomatch hfalse.symm.trans (hlife.outside.mp hnone)
      rw [Option.isSome_iff_ne_none.mpr hin]
      rfl
  · have hlife := h.slots name
    unfold Slot.Life at hlife
    rw [hdevice] at hlife
    exact ⟨hlife.autostart hin hnot, Bool.eq_false_iff.mpr fun htrue => hin (hlife.outside.mpr htrue)⟩

/-- After a step that brings back a device, that device does not follow the configuration. -/
theorem Life.noRevival {event : Event} (h : s.Life) (hfollows : (s.step event).Follows) :
    s.NoRevival event := by
  cases event with
  | reload env new =>
    intro name wdev hdevice hmarked
    cases hnew : new name with
    | none => rfl
    | some data =>
      obtain ⟨hnot, wdev', hdevice', hbad⟩ :=
        @Slot.not_starts_of_revived _ env data _ (h.slots name) hdevice hmarked
      have hslot : (s.step (.reload env new)).slots name = (s.slots name).reload env (some data) := by
        change (s.slots name).reload env (new name) = _
        rw [hnew]
      obtain ⟨hauto, hdelete⟩ := hfollows.flags name wdev' (by rw [hslot, hdevice'])
        (by rw [hslot]; exact Option.some_ne_none data) (by rw [hslot, hnot])
      rcases hbad with htrue | hfalse
      · exact nomatch hdelete.symm.trans htrue
      · exact nomatch hfalse.symm.trans hauto
  | _ => trivial

/-- Over every run the devices follow the configuration exactly as long as no reload brings
back a device that is being deleted. -/
theorem follows_iff_noRevival (events : List Event) :
    (∀ n, ((events.take n).foldl step start).Follows) ↔ Along step NoRevival events start := by
  have hstart : start.Life := ⟨sound_run [], fun _ => rfl⟩
  exact (along_iff_forall_take_of_invariant (fun _ h => h.follows)
    (fun _ _ _ h hmeets => life_step h hmeets) (fun _ _ _ h hfollows => h.noRevival hfollows)
    hstart).symm

/-! ## Removing and adding a device while its script runs -/

/-- No network is known. -/
def noNets : NetEnv := ⟨fun _ => none, fun _ => none⟩

/-- The configuration of one radio without interfaces. -/
def radioData : DeviceData := ⟨"radio0", [("type", "mac80211")], []⟩

def onlyRadio (name : String) : Option DeviceData :=
  if name = "radio0" then some radioData else none

/-- The radio is set up, removed and added again before its teardown has run, and then the
teardown ends. -/
def revival : List Event :=
  [.reload noNets onlyRadio, .up noNets "radio0", .next noNets "radio0" true, .markUp "radio0",
    .exit noNets ("radio0", .setup), .reload noNets fun _ => none, .reload noNets onlyRadio,
    .next noNets "radio0" true, .exit noNets ("radio0", .teardown)]

theorem slots_on_of_ne {name other : String} (f : Slot → Slot) (h : other ≠ name) :
    (s.on name f).slots other = s.slots other :=
  Function.update_of_ne h ..

theorem slots_complete_of_ne {task : String × Op} {other : String} (h : other ≠ task.1) :
    (s.complete env task).slots other = s.slots other := by
  unfold complete
  split
  · rfl
  · split
    · rfl
    · exact slots_on_of_ne (s := { s with cur := none }) _ h

theorem slots_runNext_of_ne {name other : String} (starts : Bool) (h : other ≠ name) :
    (s.runNext env name starts).slots other = s.slots other := by
  unfold runNext
  split
  case h_2 => rfl
  case h_1 op _ _ =>
    have hother := slots_on_of_ne (s := { s with cur := some (name, op) }) (Slot.dequeue op) h
    split
    · exact hother
    · exact (slots_complete_of_ne env h).trans hother

theorem slots_exit_of_ne {task : String × Op} {other : String} (h : other ≠ task.1) :
    (s.exit env task).slots other = s.slots other := by
  unfold exit
  split
  · exact slots_complete_of_ne (s := { s with tasks := s.tasks.erase task }) env h
  · rfl

/-- The radio is in the configuration, nothing runs, and there is no device. -/
theorem not_follows_of_revival : ¬ ∀ n, ((revival.take n).foldl step start).Follows := by
  intro hall
  have hfollows : (revival.foldl step start).Follows := hall revival.length
  have hother : ∀ name, name ≠ "radio0" → ((revival.foldl step start).slots name).handler = none := by
    intro name hname
    have hnone : onlyRadio name = none := if_neg hname
    have hexit : ∀ (s : System) op, (s.exit noNets ("radio0", op)).slots name = s.slots name :=
      fun s op => slots_exit_of_ne noNets hname
    simp only [revival, List.foldl_cons, List.foldl_nil, step, hexit, slots_runNext_of_ne _ _ hname,
      slots_on_of_ne _ hname, hnone]
    rfl
  have hquiet : (revival.foldl step start).Quiet := by
    refine ⟨by decide +kernel, fun name => ?_⟩
    by_cases hname : name = "radio0"
    · rw [hname]
      decide +kernel
    · exact hother name hname
  exact absurd (hfollows.devices hquiet "radio0") (by decide +kernel)

end System

end OpenWrt.Netifd
