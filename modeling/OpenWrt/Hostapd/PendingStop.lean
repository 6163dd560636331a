/-
# Stop and start of the station side

The bring-up stops the station side of a radio before it adds the interface, and starts it again
afterwards. A machine that is aborted in between leaves this to the one that replaces it, and that
one may end without it: when there is no BSS left, when its network device cannot be created, or
when the station side answers that it is connected.
-/

import OpenWrt.Hostapd.PendingSteps
import OpenWrt.Lib.Run

namespace OpenWrt.Hostapd

open Lib PhyState

/-! ## The machine -/

/-- The machine ends with the station side stopped, where it was `stopped` before. -/
def Progress.Quits (stopped : Bool) (progress : Progress) : Prop :=
  progress.pending = none ∧ progress.sent.getLast?.getD stopped = true

section Machine

variable {config : Config} {answers : Answers} {completed stopped : Bool}
  {state following : PendingState}

theorem quits_of_next
    (h : (ifacePendingTurn config answers completed state).after = .next following) :
    (ifacePendingNext config answers completed state).Quits stopped ↔
      (ifacePendingNext config answers completed following).Quits
        ((ifacePendingTurn config answers completed state).sent.getLast?.getD stopped) := by
  rw [← ifacePendingLoop_eq (Nat.le_succ state.turns), ifacePendingLoop, h]
  dsimp only
  rw [ifacePendingLoop_eq (Nat.le_of_lt (turns_lt_of_after_next h))]
  unfold Progress.Quits
  dsimp only
  rw [List.getLast?_append, Option.getD_or]

theorem not_quits_of_wait
    (h : (ifacePendingTurn config answers completed state).after = .wait following) :
    ¬ (ifacePendingNext config answers completed state).Quits stopped := by
  rw [← ifacePendingLoop_eq (Nat.le_succ state.turns), ifacePendingLoop, h]
  exact fun hquits => Option.some_ne_none _ hquits.1

theorem not_quits_of_raised
    (h : (ifacePendingTurn config answers completed state).after = .raised) :
    ¬ (ifacePendingNext config answers completed state).Quits stopped := by
  rw [← ifacePendingLoop_eq (Nat.le_succ state.turns), ifacePendingLoop, h]
  exact fun hquits => Option.some_ne_none _ hquits.1

theorem quits_of_done
    (h : (ifacePendingTurn config answers completed state).after = .done) :
    (ifacePendingNext config answers completed state).Quits stopped ↔
      (ifacePendingTurn config answers completed state).sent.getLast?.getD stopped = true := by
  rw [← ifacePendingLoop_eq (Nat.le_succ state.turns), ifacePendingLoop, h]
  exact and_iff_right rfl

theorem not_quits_wpasStopped :
    ¬ (ifacePendingNext config answers completed .wpasStopped).Quits stopped := by
  cases hadd : answers.addStopped with
  | raised called => exact not_quits_of_raised (by simp [ifacePendingTurn, hadd])
  | ok =>
    rw [quits_of_done (by simp [ifacePendingTurn, hadd])]
    simp [ifacePendingTurn, hadd]
  | failed =>
    rw [quits_of_done (by simp [ifacePendingTurn, hadd])]
    simp [ifacePendingTurn, hadd]

theorem not_quits_of_stops
    (h : (ifacePendingTurn config answers completed state).after =
      if answers.stopDeferred then .wait .wpasStopped else .next .wpasStopped) :
    ¬ (ifacePendingNext config answers completed state).Quits stopped := by
  cases hdeferred : answers.stopDeferred with
  | true => exact not_quits_of_wait (h.trans (if_pos hdeferred))
  | false =>
    rw [quits_of_next (h.trans (if_neg (by simp [hdeferred])))]
    exact not_quits_wpasStopped

theorem quits_checkPhy_iff :
    (ifacePendingNext config answers completed .checkPhy).Quits stopped ↔
      stopped = true ∧ completed = true ∧ answers.addChecked = .ok := by
  cases completed with
  | false => exact iff_of_false (not_quits_of_stops rfl) (by simp)
  | true =>
    cases hadd : answers.addChecked with
    | ok =>
      rw [quits_of_done (by simp [ifacePendingTurn, hadd])]
      simp [ifacePendingTurn, hadd]
    | failed =>
      exact iff_of_false (not_quits_of_stops (by simp [ifacePendingTurn, hadd])) (by simp)
    | raised called =>
      exact iff_of_false (not_quits_of_raised (by simp [ifacePendingTurn, hadd])) (by simp)

/-- A machine that starts makes the station side start again, or it waits, unless its network
device cannot be created. -/
theorem quits_init_iff {bss : Bss} {rest : List Bss} (hbss : config.bss = bss :: rest) :
    (ifacePendingNext config answers false .init).Quits stopped ↔
      stopped = true ∧ answers.initRaises = false ∧ bss.mldAp = false ∧
        answers.wdevAdd = .failed := by
  have hasked : ∀ state stopped, (ifacePendingTurn config answers false state).after =
      (if answers.statusDeferred then .wait .checkPhy else .next .checkPhy) →
      ¬ (ifacePendingNext config answers false state).Quits stopped := by
    intro state stopped h
    cases hdeferred : answers.statusDeferred with
    | true => exact not_quits_of_wait (h.trans (if_pos hdeferred))
    | false =>
      rw [quits_of_next (h.trans (if_neg (by simp [hdeferred]))), quits_checkPhy_iff]
      simp
  cases hraises : answers.initRaises with
  | true =>
    exact iff_of_false (not_quits_of_raised (by simp [ifacePendingTurn, hraises])) (by simp)
  | false =>
    rw [quits_of_next (by simp [ifacePendingTurn, hraises]; rfl)]
    cases hmld : bss.mldAp with
    | true =>
      exact iff_of_false (hasked _ _ (by simp [ifacePendingTurn, hbss, hmld])) (by simp)
    | false =>
      cases hadd : answers.wdevAdd with
      | ok =>
        exact iff_of_false (hasked _ _ (by simp [ifacePendingTurn, hbss, hmld, hadd]))
          (by simp)
      | failed =>
        rw [quits_of_done (by simp [ifacePendingTurn, hbss, hmld, hadd])]
        simp [ifacePendingTurn, hbss, hmld, hadd]
      | raised called =>
        exact iff_of_false
          (not_quits_of_raised (by simp [ifacePendingTurn, hbss, hmld, hadd])) (by simp)

end Machine

/-! ## One event -/

/-- Where no machine is pending, the station side was started again. -/
def PhyState.Resumed (phy : PhyState) : Prop :=
  phy.pending = none → phy.stopped = false

/-- There is a BSS, and a machine for it comes so far that it waits or starts the station side:
its network device is created, unless a multi-link device has it or an exception comes before. -/
def RestartAnswers.Resumes (env : RestartAnswers) (config : Config) : Prop :=
  ∃ bss rest, config.bss = bss :: rest ∧
    (env.answers.initRaises = true ∨ bss.mldAp = true ∨ env.answers.wdevAdd ≠ .failed)

/-- Where the station side is stopped, the event does not end the machine without a start. -/
def PhyState.Resumes (phy : PhyState) : PhyEvent → Prop
  | .configSet prev config env => phy.stopped = true →
      ¬ (phy.withPrev prev).OnlyStores config env → env.restart.Resumes (storedBy config env)
  | .reload config env => phy.stopped = true → phy.config ≠ none →
      ¬ phy.OnlyStores config env → env.restart.Resumes (storedBy config env)
  | .configReset => True
  | .apstaState up frequency noLink env => phy.stopped = true →
      ∀ config, phy.RestartsForApsta up frequency noLink env config → env.restart.Resumes config
  | .csaCheck env => phy.stopped = true →
      ∀ config, phy.RestartsForCsa env config → env.restart.Resumes config
  | .reply completed answers => phy.stopped = true → ∀ machine, phy.Waits machine →
      machine.nextState = .checkPhy → ¬ (completed = true ∧ answers.addChecked = .ok)

section Event

variable {phy : PhyState} {config : Config}

theorem progress_resumed_iff (progress : Progress) :
    (phy.progress progress).1.Resumed ↔ ¬ progress.Quits phy.stopped := by
  unfold PhyState.progress PhyState.Resumed Progress.Quits
  rw [not_and, Bool.not_eq_true]

theorem restart_resumed_iff (env : RestartAnswers) :
    (phy.restart config env).1.Resumed ↔ (phy.stopped = true → env.Resumes config) := by
  unfold PhyState.restart RestartAnswers.Resumes
  cases hbss : config.bss with
  | nil =>
    rw [if_pos rfl]
    simp [PhyState.Resumed]
  | cons bss rest =>
    rw [if_neg (by simp), progress_resumed_iff, quits_init_iff List.mapIdx_cons]
    grind

theorem leaves_resumed_iff {after : PhyState × List Use} (h : phy.Leaves after) :
    after.1.Resumed ↔ phy.Resumed := by
  unfold PhyState.Resumed
  rw [h.pending, h.stopped]

variable (hresumed : phy.Resumed)

include hresumed

theorem setConfig_resumed_iff (env : SetAnswers) :
    (phy.setConfig config env).1.Resumed ↔ (phy.stopped = true →
      ¬ phy.OnlyStores config env → env.restart.Resumes (storedBy config env)) := by
  by_cases h : phy.OnlyStores config env
  · exact iff_of_true ((leaves_resumed_iff (setConfig_of_onlyStores h).2).mpr hresumed)
      fun _ hnot => absurd h hnot
  · rcases setConfig_of_not_onlyStores h with ⟨hnone, hleaves⟩ | ⟨-, stopping, hstopped, hrestart⟩
    · refine iff_of_true ((leaves_resumed_iff hleaves).mpr hresumed) fun hstopped => ?_
      rw [hresumed hnone] at hstopped
      cases hstopped
    · rw [hrestart, restart_resumed_iff, hstopped]
      exact imp_congr_right fun _ => ⟨fun hresumes _ => hresumes, fun hresumes => hresumes h⟩

/-- After an event the station side is started, or a machine is pending, exactly when the event
does not end the machine without a start. -/
theorem step_resumed_iff (hwaits : phy.WaitsInPlace) (event : PhyEvent) :
    (phy.step event).1.Resumed ↔ phy.Resumes event := by
  cases event with
  | configSet prev config env =>
    have hprev : (phy.withPrev prev).Resumed := hresumed
    exact setConfig_resumed_iff hprev env
  | reload config env =>
    unfold PhyState.step PhyState.Resumes
    cases hconfig : phy.config with
    | none => exact iff_of_true hresumed fun _ hnone => absurd rfl hnone
    | some old =>
      dsimp only
      rw [setConfig_resumed_iff hresumed]
      exact imp_congr_right fun _ => ⟨fun h _ => h, fun h => h (Option.some_ne_none _)⟩
  | configReset => exact iff_of_true hresumed trivial
  | apstaState up frequency noLink env =>
    unfold PhyState.step PhyState.Resumes
    dsimp only
    by_cases h : ∃ config, phy.RestartsForApsta up frequency noLink env config
    · obtain ⟨config, h⟩ := h
      rw [apstaState_of_restarts h, restart_resumed_iff]
      refine imp_congr_right fun _ => ⟨fun hresumes other hother => ?_, fun hall => hall config h⟩
      rwa [← Option.some.inj (h.stored.symm.trans hother.stored)]
    · exact iff_of_true ((leaves_resumed_iff (apstaState_leaves (not_exists.mp h)).2).mpr hresumed)
        fun _ config hconfig => absurd ⟨config, hconfig⟩ h
  | csaCheck env =>
    unfold PhyState.step PhyState.Resumes
    dsimp only
    by_cases h : ∃ config, phy.RestartsForCsa env config
    · obtain ⟨config, h⟩ := h
      rw [csaCheck_of_restarts h, restart_resumed_iff]
      refine imp_congr_right fun _ => ⟨fun hresumes other hother => ?_, fun hall => hall config h⟩
      rwa [← Option.some.inj (h.stored.symm.trans hother.stored)]
    · exact iff_of_true ((leaves_resumed_iff (csaCheck_leaves (not_exists.mp h)).2).mpr hresumed)
        fun _ config hconfig => absurd ⟨config, hconfig⟩ h
  | reply completed answers =>
    unfold PhyState.step PhyState.reply PhyState.Resumes
    cases hpending : phy.pending with
    | none =>
      exact iff_of_true hresumed fun _ _ hmachine _ =>
        absurd (hpending.symm.trans hmachine.1) (Option.some_ne_none _).symm
    | some machine =>
      dsimp only
      split
      case isTrue hwaiting =>
        rw [progress_resumed_iff]
        have hmachine : ∀ other, phy.Waits other ↔ other = machine := fun other =>
          ⟨fun hother => Option.some.inj (hother.1.symm.trans hpending),
            fun hother => hother ▸ ⟨hpending, hwaiting⟩⟩
        rcases hwaits machine ⟨hpending, hwaiting⟩ with hstate | hstate
        · rw [hstate, quits_checkPhy_iff, not_and]
          refine imp_congr_right fun _ => ⟨fun h other hother _ => h, fun h => ?_⟩
          exact h machine ((hmachine machine).mpr rfl) hstate
        · rw [hstate]
          refine iff_of_true not_quits_wpasStopped fun _ other hother hcheck => ?_
          rw [(hmachine other).mp hother, hstate] at hcheck
          cases hcheck
      case isFalse hwaiting =>
        refine iff_of_true hresumed fun _ other hother _ => absurd ?_ hwaiting
        rw [← Option.some.inj (hother.1.symm.trans hpending)]
        exact hother.2

end Event

/-! ## Runs -/

/-- In a run, the station side of a radio is never left stopped without a machine that is pending,
exactly when no event ends the machine without a start. -/
theorem pending_resumes_iff (events : List (String × PhyEvent)) :
    Along HostapdData.apply (fun (data : HostapdData) event => (data event.1).Resumes event.2)
        events HostapdData.start ↔
      ∀ n name, ((events.take n).foldl HostapdData.apply HostapdData.start name).Resumed := by
  have hgood : ∀ data : HostapdData, (∀ name, (data name).Resumed ∧ (data name).WaitsInPlace) →
      ∀ name, (data name).Resumed := fun data h name => (h name).1
  have hkeeps : ∀ data : HostapdData, ∀ event ∈ events,
      (∀ name, (data name).Resumed ∧ (data name).WaitsInPlace) →
      (data event.1).Resumes event.2 →
      ∀ name, (data.apply event name).Resumed ∧ (data.apply event name).WaitsInPlace := by
    intro data event _ h hresumes name
    unfold HostapdData.apply
    by_cases hname : name = event.1
    · subst hname
      rw [Function.update_self]
      obtain ⟨hresumed, hwaits⟩ := h event.1
      exact ⟨(step_resumed_iff hresumed hwaits event.2).mpr hresumes,
        step_waitsInPlace hwaits event.2⟩
    · rw [Function.update_of_ne hname]
      exact h name
  refine along_iff_forall_take_of_invariant hgood hkeeps (fun data event _ h hafter => ?_)
    fun name => ⟨fun _ => rfl, ?_⟩
  · obtain ⟨hresumed, hwaits⟩ := h event.1
    have hevent := hafter event.1
    rw [HostapdData.apply, Function.update_self] at hevent
    exact (step_resumed_iff hresumed hwaits event.2).mp hevent
  · rintro machine ⟨hnone, -⟩
    cases hnone

/-- A restart aborts the machine that has stopped the station side, and the next one cannot create
its network device. -/
theorem left_stopped : ¬ ∀ (events : List (String × PhyEvent)) (n : ℕ) (name : String),
    ((events.take n).foldl HostapdData.apply HostapdData.start name).Resumed := by
  intro h
  have hresumed := h [("phy0", .configSet none oneBssConfig
      ⟨true, fun _ => none, true, true, true, fun _ => none, readyAnswers⟩),
    ("phy0", .reply false readyAnswers),
    ("phy0", .configSet none
      { oneBssConfig with
        bss := [⟨"phy0-ap1", [], [], none, false, false, none, false, none, false⟩] }
      ⟨true, fun _ => none, true, true, true, fun _ => none,
        { readyAnswers with wdevAdd := .failed }⟩)] 3 "phy0" rfl
  cases hresumed

end OpenWrt.Hostapd
