/-
# The configuration of a pending bring-up

A machine uses the configuration it was started with. That is the stored one as long as the
requests that leave a waiting machine alone store nothing else: a reset must not find one, and a
new configuration that is not brought up must be the same.
-/

import OpenWrt.Hostapd.PendingSteps
import OpenWrt.Lib.Run

namespace OpenWrt.Hostapd

open Lib PhyState

/-! ## One event -/

def PhyState.Settled (phy : PhyState) : Prop :=
  ∀ machine, phy.Waits machine → phy.config = some machine.config

def PhyState.UsesStored (phy : PhyState) (event : PhyEvent) : Prop :=
  ∀ use ∈ (phy.step event).2, (phy.step event).1.config = some use.config

def PhyState.Calm (phy : PhyState) : PhyEvent → Prop
  | .configSet _ config env | .reload config env => ∀ machine, phy.Waits machine →
      phy.OnlyStores config env → storedBy config env = machine.config
  | .configReset => ∀ machine, ¬ phy.Waits machine
  | _ => True

section Event

variable {phy : PhyState} {config : Config}

theorem settled_of_not_pending (h : phy.pending = none) : phy.Settled :=
  fun _ hwaits => absurd (h.symm.trans hwaits.1) (Option.some_ne_none _).symm

theorem progress_settled {progress : Progress} (hstored : phy.config = some config)
    (h : progress.IsOf config) :
    (phy.progress progress).1.Settled ∧
      ∀ use ∈ (phy.progress progress).2, (phy.progress progress).1.config = some use.config := by
  refine ⟨fun machine hwaits => ?_, fun use hmem => ?_⟩
  · rw [h.machine machine hwaits.1]
    exact hstored
  · rw [h.uses use hmem]
    exact hstored

theorem restart_settled (phy : PhyState) (config : Config) (env : RestartAnswers) :
    (phy.restart config env).1.Settled ∧
      ∀ use ∈ (phy.restart config env).2, (phy.restart config env).1.config = some use.config := by
  unfold PhyState.restart
  by_cases hempty : config.bss = []
  · rw [if_pos hempty]
    exact ⟨settled_of_not_pending rfl, fun _ hmem => absurd hmem List.not_mem_nil⟩
  · rw [if_neg hempty]
    exact progress_settled rfl (ifacePendingLoop_isOf ..)

variable (hsettled : phy.Settled)

include hsettled

theorem leaves_settled {after : PhyState × List Use} (hconfig : after.1.config = phy.config)
    (h : phy.Leaves after) :
    after.1.Settled ∧ ∀ use ∈ after.2, after.1.config = some use.config := by
  refine ⟨fun machine hwaits => ?_, fun use hmem => ?_⟩
  · exact hconfig.trans (hsettled machine ⟨h.pending ▸ hwaits.1, hwaits.2⟩)
  · rw [h.uses] at hmem
    exact absurd hmem List.not_mem_nil

theorem reply_settled (completed : Bool) (answers : Answers) :
    (phy.reply completed answers).1.Settled ∧ ∀ use ∈ (phy.reply completed answers).2,
      (phy.reply completed answers).1.config = some use.config := by
  unfold PhyState.reply
  cases hpending : phy.pending with
  | none => exact leaves_settled hsettled rfl ⟨rfl, rfl, rfl⟩
  | some machine =>
    dsimp only
    split
    case isTrue hwaiting =>
      exact progress_settled (hsettled machine ⟨hpending, hwaiting⟩)
        (ifacePendingLoop_isOf ..)
    case isFalse => exact leaves_settled hsettled rfl ⟨rfl, rfl, rfl⟩

theorem withPrev_of_waits {machine : Machine} (hwaits : phy.Waits machine) (prev : Option Config) :
    phy.withPrev prev = phy := by
  unfold PhyState.withPrev
  have hconfig := hsettled machine hwaits
  cases phy
  cases hconfig
  rfl

omit hsettled in
/-- A new configuration keeps a radio settled when it is brought up or is the machine's. -/
theorem setConfig_settled {env : SetAnswers}
    (hcalm : ∀ machine, phy.Waits machine → phy.OnlyStores config env →
      storedBy config env = machine.config) :
    (phy.setConfig config env).1.Settled ∧ ∀ use ∈ (phy.setConfig config env).2,
      (phy.setConfig config env).1.config = some use.config := by
  by_cases h : phy.OnlyStores config env
  · obtain ⟨hconfig, hleaves⟩ := setConfig_of_onlyStores h
    refine ⟨fun machine hwaits => ?_, fun use hmem => ?_⟩
    · rw [hconfig, hcalm machine ⟨hleaves.pending ▸ hwaits.1, hwaits.2⟩ h]
    · rw [hleaves.uses] at hmem
      exact absurd hmem List.not_mem_nil
  · rcases setConfig_of_not_onlyStores h with ⟨hnone, hleaves⟩ | ⟨-, stopping, -, hrestart⟩
    · refine ⟨settled_of_not_pending (hleaves.pending.trans hnone), fun use hmem => ?_⟩
      rw [hleaves.uses] at hmem
      exact absurd hmem List.not_mem_nil
    · rw [hrestart]
      exact restart_settled ..

/-- A calm event uses the stored configuration and keeps the radio settled. -/
theorem settled_step {event : PhyEvent} (hcalm : phy.Calm event) :
    (phy.step event).1.Settled ∧ phy.UsesStored event := by
  cases event with
  | configSet prev config env =>
    by_cases hwaits : ∃ machine, phy.Waits machine
    · obtain ⟨machine, hwaits⟩ := hwaits
      unfold PhyState.UsesStored PhyState.step
      dsimp only
      rw [withPrev_of_waits hsettled hwaits]
      exact setConfig_settled hcalm
    · have hnone : ∀ machine, ¬ (phy.withPrev prev).Waits machine := fun machine h =>
      hwaits ⟨machine, h⟩
      exact setConfig_settled fun machine h => absurd h (hnone machine)
  | reload config env =>
    unfold PhyState.UsesStored PhyState.step
    cases hconfig : phy.config with
    | none => exact leaves_settled hsettled rfl ⟨rfl, rfl, rfl⟩
    | some old => exact setConfig_settled hcalm
  | configReset =>
    exact ⟨fun machine h => absurd h (hcalm machine),
      fun _ hmem => absurd hmem List.not_mem_nil⟩
  | apstaState up frequency noLink env =>
    unfold PhyState.UsesStored PhyState.step
    by_cases h : ∃ config, phy.RestartsForApsta up frequency noLink env config
    · obtain ⟨config, h⟩ := h
      dsimp only
      rw [apstaState_of_restarts h]
      exact restart_settled ..
    · obtain ⟨hconfig, hleaves⟩ := apstaState_leaves (not_exists.mp h)
      exact leaves_settled hsettled hconfig hleaves
  | csaCheck env =>
    unfold PhyState.UsesStored PhyState.step
    by_cases h : ∃ config, phy.RestartsForCsa env config
    · obtain ⟨config, h⟩ := h
      dsimp only
      rw [csaCheck_of_restarts h]
      exact restart_settled ..
    · obtain ⟨hconfig, hleaves⟩ := csaCheck_leaves (not_exists.mp h)
      exact leaves_settled hsettled hconfig hleaves
  | reply completed answers => exact reply_settled hsettled completed answers

end Event

/-- Whatever reply comes next, it makes the machine use the stored configuration only. -/
def PhyState.RepliesUseStored (phy : PhyState) : Prop :=
  ∀ completed answers, phy.UsesStored (.reply completed answers)

theorem PhyState.Settled.repliesUseStored {phy : PhyState} (h : phy.Settled) :
    phy.RepliesUseStored :=
  fun completed answers => (reply_settled h completed answers).2

theorem config_of_repliesUseStored {phy : PhyState} {machine : Machine}
    (h : phy.RepliesUseStored) (hwaits : phy.Waits machine)
    (hstate : machine.nextState = .checkPhy ∨ machine.nextState = .wpasStopped) :
    phy.config = some machine.config := by
  have huses := h true ⟨false, .ok, .ok, .ok, true, true⟩ ⟨.addIface, machine.config⟩
  unfold PhyState.step PhyState.reply at huses
  simp only [hwaits.1, hwaits.2, if_true] at huses
  exact huses (by
    rcases hstate with hstate | hstate <;> rw [hstate] <;> exact List.mem_singleton_self _)

theorem calm_of_repliesUseStored {phy : PhyState} {event : PhyEvent} (hsettled : phy.Settled)
    (hplace : phy.WaitsInPlace) (h : (phy.step event).1.RepliesUseStored) : phy.Calm event := by
  cases event with
  | configSet prev config env =>
    intro machine hwaits honly
    unfold PhyState.step at h
    dsimp only at h
    rw [withPrev_of_waits hsettled hwaits] at h
    obtain ⟨hconfig, hleaves⟩ := setConfig_of_onlyStores honly
    exact Option.some.inj (hconfig.symm.trans (config_of_repliesUseStored h
      ⟨hleaves.pending.trans hwaits.1, hwaits.2⟩ (hplace machine hwaits)))
  | reload config env =>
    intro machine hwaits honly
    unfold PhyState.step at h
    rw [hsettled machine hwaits] at h
    obtain ⟨hconfig, hleaves⟩ := setConfig_of_onlyStores honly
    exact Option.some.inj (hconfig.symm.trans (config_of_repliesUseStored h
      ⟨hleaves.pending.trans hwaits.1, hwaits.2⟩ (hplace machine hwaits)))
  | configReset =>
    intro machine hwaits
    have hconfig := config_of_repliesUseStored h hwaits (hplace machine hwaits)
    cases hconfig
  | apstaState up frequency noLink env => trivial
  | csaCheck env => trivial
  | reply completed answers => trivial

/-! ## Runs -/

/-- Every event of a run, and every reply that could come next, uses the stored configurations
exactly when all the events are calm. -/
theorem pending_uses_stored_iff (events : List (String × PhyEvent)) :
    Along HostapdData.apply (fun (data : HostapdData) event => (data event.1).Calm event.2) events
        HostapdData.start ↔
      ∀ n, (∀ name, ((events.take n).foldl HostapdData.apply HostapdData.start name).RepliesUseStored)
        ∧ ∀ event, events[n]? = some event →
          ((events.take n).foldl HostapdData.apply HostapdData.start event.1).UsesStored event.2 := by
  have hgood : ∀ data : HostapdData, (∀ name, (data name).Settled ∧ (data name).WaitsInPlace) →
      ∀ name, (data name).RepliesUseStored := fun data h name => (h name).1.repliesUseStored
  have hkeeps : ∀ data : HostapdData, ∀ event ∈ events,
      (∀ name, (data name).Settled ∧ (data name).WaitsInPlace) → (data event.1).Calm event.2 →
      ∀ name, (data.apply event name).Settled ∧ (data.apply event name).WaitsInPlace := by
    intro data event _ h hcalm name
    unfold HostapdData.apply
    by_cases hname : name = event.1
    · subst hname
      rw [Function.update_self]
      exact ⟨(settled_step (h event.1).1 hcalm).1, step_waitsInPlace (h event.1).2 event.2⟩
    · rw [Function.update_of_ne hname]
      exact h name
  have hfair : ∀ data : HostapdData, ∀ event ∈ events,
      (∀ name, (data name).Settled ∧ (data name).WaitsInPlace) → (data event.1).Calm event.2 →
      (data event.1).UsesStored event.2 :=
    fun data event _ h hcalm => (settled_step (h event.1).1 hcalm).2
  refine along_iff_forall_take_and_getElem? hgood hkeeps hfair ?_
    fun name => ⟨settled_of_not_pending rfl, ?_⟩
  · intro data event _ h hafter _
    have hreplies := hafter event.1
    rw [HostapdData.apply, Function.update_self] at hreplies
    exact calm_of_repliesUseStored (h event.1).1 (h event.1).2 hreplies
  · rintro machine ⟨hnone, -⟩
    cases hnone

/-- The radio is brought up, reset while the machine waits, and brought up by the reply. -/
theorem uses_removed_config : ¬ ∀ (events : List (String × PhyEvent)) (n : ℕ) event,
    events[n]? = some event →
      ((events.take n).foldl HostapdData.apply HostapdData.start event.1).UsesStored event.2 := by
  intro h
  have huses := h [("phy0", .configSet none oneBssConfig
      ⟨true, fun _ => none, true, true, true, fun _ => none, readyAnswers⟩),
    ("phy0", .configReset), ("phy0", .reply true readyAnswers)] 2 _ rfl
    ⟨.addIface, oneBssConfig⟩ (List.mem_singleton_self _)
  cases huses

end OpenWrt.Hostapd
