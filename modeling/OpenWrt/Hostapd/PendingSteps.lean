/-
# The steps of a pending bring-up

A machine goes through its states in their order, so that it waits or ends within a few turns. A
request leaves the machine as it is or aborts it with a restart; when it does which is said here.
-/

import OpenWrt.Hostapd.Pending

namespace OpenWrt.Hostapd

/-! ## The machine -/

section Machine

variable {config : Config} {answers : Answers} {completed : Bool} {state next : PendingState}

theorem config_of_mem_turn {use : Use}
    (h : use ∈ (ifacePendingTurn config answers completed state).uses) : use.config = config := by
  cases state <;> grind [ifacePendingTurn, useOf]

theorem of_after_wait
    (h : (ifacePendingTurn config answers completed state).after = .wait next) :
    next = .checkPhy ∨ next = .wpasStopped := by
  cases state <;> grind [ifacePendingTurn]

theorem turns_lt_of_after_next
    (h : (ifacePendingTurn config answers completed state).after = .next next) :
    next.turns < state.turns := by
  cases state <;> grind [ifacePendingTurn, PendingState.turns]

/-- The loop comes to its end within the turns that are left. -/
theorem ifacePendingLoop_eq {turns : ℕ} (h : state.turns ≤ turns) :
    ifacePendingLoop config answers completed turns state =
      ifacePendingNext config answers completed state := by
  induction turns using Nat.strongRecOn generalizing state with
  | _ turns ih =>
    obtain ⟨more, hmore⟩ : ∃ more, state.turns = more + 1 := by
      cases state <;> exact ⟨_, rfl⟩
    obtain ⟨fewer, rfl⟩ : ∃ fewer, turns = fewer + 1 := ⟨turns - 1, by omega⟩
    rw [ifacePendingNext, hmore, ifacePendingLoop, ifacePendingLoop]
    cases hafter : (ifacePendingTurn config answers completed state).after with
    | next following =>
      have hlt := turns_lt_of_after_next hafter
      dsimp only
      rw [ih fewer (by omega) (by omega), ih more (by omega) (by omega)]
    | wait following => rfl
    | raised => rfl
    | done => rfl

/-- What a machine with the configuration does and leaves. -/
structure Progress.IsOf (config : Config) (progress : Progress) : Prop where
  uses : ∀ use ∈ progress.uses, use.config = config
  machine : ∀ machine ∈ progress.pending, machine.config = config
  waits : ∀ machine ∈ progress.pending, machine.waiting = true →
    machine.nextState = .checkPhy ∨ machine.nextState = .wpasStopped

theorem ifacePendingLoop_isOf (config : Config) (answers : Answers) (completed : Bool)
    (turns : ℕ) (state : PendingState) :
    (ifacePendingLoop config answers completed turns state).IsOf config := by
  induction turns generalizing state with
  | zero => exact ⟨by simp [ifacePendingLoop], by simp [ifacePendingLoop], by simp [ifacePendingLoop]⟩
  | succ turns ih =>
    have huses : ∀ use ∈ (ifacePendingTurn config answers completed state).uses,
        use.config = config := fun use => config_of_mem_turn
    rw [ifacePendingLoop]
    cases hafter : (ifacePendingTurn config answers completed state).after with
    | next following =>
      refine ⟨fun use hmem => ?_, (ih following).machine, (ih following).waits⟩
      rcases List.mem_append.mp hmem with hmem | hmem
      · exact huses use hmem
      · exact (ih following).uses use hmem
    | wait following =>
      dsimp only
      refine ⟨huses, fun machine hmem => ?_, fun machine hmem _ => ?_⟩
      · rw [← Option.mem_some_iff.mp hmem]
      · rw [← Option.mem_some_iff.mp hmem]
        exact of_after_wait hafter
    | raised =>
      refine ⟨huses, fun machine hmem => ?_, fun machine hmem hwaiting => ?_⟩
      · rw [← Option.mem_some_iff.mp hmem]
      · rw [← Option.mem_some_iff.mp hmem] at hwaiting
        cases hwaiting
    | done =>
      dsimp only
      exact ⟨huses, fun _ hmem => absurd hmem (Option.not_mem_none _),
        fun _ hmem => absurd hmem (Option.not_mem_none _)⟩

end Machine

/-! ## The requests -/

def PhyState.Waits (phy : PhyState) (machine : Machine) : Prop :=
  phy.pending = some machine ∧ machine.waiting = true

def PhyState.WaitsInPlace (phy : PhyState) : Prop :=
  ∀ machine, phy.Waits machine → machine.nextState = .checkPhy ∨ machine.nextState = .wpasStopped

/-- What `iface_set_config` stores. -/
def storedBy (config : Config) (env : SetAnswers) : Config :=
  if env.opens then { config with bss := checkMldBss env.mldMacaddr config.bss } else config

/-- The new configuration is stored, and nothing is brought up or reloaded: the radio cannot be
opened, no BSS is left, or the radio is in order and the BSSs are the same. -/
def PhyState.OnlyStores (phy : PhyState) (config : Config) (env : SetAnswers) : Prop :=
  env.opens = false ∨ (storedBy config env).bss = [] ∨
    ∃ old, phy.config = some old ∧
      radioReady (phy.channelEnv env.enabled env.switched) (storedBy config env) old = true ∧
      old.bss = (storedBy config env).bss

namespace PhyState

/-- An event leaves the machine and what was sent, and uses nothing. -/
structure Leaves (phy : PhyState) (after : PhyState × List Use) : Prop where
  pending : after.1.pending = phy.pending
  stopped : after.1.stopped = phy.stopped
  uses : after.2 = []

/-- The request `apsta_state` restarts the interface: the station gave up the channel. -/
structure RestartsForApsta (phy : PhyState) (up frequency noLink : Bool) (env : ApstaAnswers)
    (config : Config) : Prop where
  stored : phy.config = some config
  iface : (config.bss.head?.all (·.ifname = "") || !env.iface) = false
  up : up = true
  frequency : frequency = false
  noLink : (noLink && phy.apstaFreq) = true
  noSwitch : ifaceChannelSwitch ⟨false, env.enabled, env.switched⟩ config = false
  opens : env.opens = true

/-- The timer of a channel switch restarts the interface. -/
structure RestartsForCsa (phy : PhyState) (env : CsaAnswers) (config : Config) : Prop where
  armed : phy.csaTimer = true
  stored : phy.config = some config
  inProgress : env.inProgress = true
  opens : env.opens = true

variable {phy : PhyState} {config : Config}

theorem setConfig_of_onlyStores {env : SetAnswers} (h : phy.OnlyStores config env) :
    (phy.setConfig config env).1.config = some (storedBy config env) ∧
      phy.Leaves (phy.setConfig config env) := by
  unfold OnlyStores storedBy at h
  unfold setConfig storedBy
  by_cases hopens : env.opens = true
  · rw [if_pos hopens] at h ⊢
    rw [if_pos hopens]
    dsimp only at h ⊢
    by_cases hempty : checkMldBss env.mldMacaddr config.bss = []
    · rw [if_pos hempty]
      exact ⟨rfl, rfl, rfl, rfl⟩
    · obtain ⟨old, hold, hready, hbss⟩ :=
        (h.resolve_left (by simp [hopens])).resolve_left hempty
      rw [if_neg hempty, hold]
      dsimp only
      rw [if_pos hready, if_pos hbss]
      exact ⟨rfl, rfl, rfl, rfl⟩
  · rw [if_neg hopens, if_neg hopens]
    exact ⟨rfl, rfl, rfl, rfl⟩

/-- What `iface_set_config` does otherwise is a reload without a machine, or a restart. -/
theorem setConfig_of_not_onlyStores {env : SetAnswers} (h : ¬ phy.OnlyStores config env) :
    (phy.pending = none ∧ phy.Leaves (phy.setConfig config env)) ∨
      (storedBy config env).bss ≠ [] ∧ ∃ stopping : PhyState, stopping.stopped = phy.stopped ∧
        phy.setConfig config env = stopping.restart (storedBy config env) env.restart := by
  unfold OnlyStores storedBy at h
  unfold setConfig storedBy
  obtain ⟨hclosed, hbss, hsame⟩ := not_or.mp h |>.imp_right not_or.mp
  have hopens : env.opens = true := by simpa using hclosed
  rw [if_pos hopens] at hbss hsame ⊢
  rw [if_pos hopens]
  dsimp only at hbss hsame ⊢
  rw [if_neg hbss]
  cases hold : phy.config with
  | none =>
    refine .inr ⟨hbss, _, ?_, rfl⟩
    rfl
  | some old =>
    dsimp only
    split
    case isFalse =>
      refine .inr ⟨hbss, _, ?_, rfl⟩
      rfl
    case isTrue hready =>
      split
      case isTrue heq => exact absurd ⟨old, hold, hready, heq⟩ hsame
      case isFalse =>
        split
        case isFalse =>
          refine .inr ⟨hbss, _, ?_, rfl⟩
          rfl
        case isTrue hreload =>
          exact .inl ⟨by simpa using (Bool.and_eq_true_iff.mp hreload).1, rfl, rfl, rfl⟩

theorem apstaState_of_restarts {up frequency noLink : Bool} {env : ApstaAnswers}
    (h : phy.RestartsForApsta up frequency noLink env config) :
    phy.apstaState up frequency noLink env =
      { phy with apstaFreq := false }.restart config env.restart := by
  have hiface := h.iface
  unfold apstaState
  rw [h.stored]
  simp [h.iface, h.up, h.frequency, h.noLink, channelEnv, h.noSwitch, h.opens]

theorem apstaState_leaves {up frequency noLink : Bool} {env : ApstaAnswers}
    (h : ∀ config, ¬ phy.RestartsForApsta up frequency noLink env config) :
    (phy.apstaState up frequency noLink env).1.config = phy.config ∧
      phy.Leaves (phy.apstaState up frequency noLink env) := by
  unfold apstaState
  cases hconfig : phy.config with
  | none => exact ⟨hconfig, rfl, rfl, rfl⟩
  | some config =>
    dsimp only
    split
    case isTrue => exact ⟨hconfig, rfl, rfl, rfl⟩
    case isFalse hiface =>
      split
      case isTrue => exact ⟨rfl, rfl, rfl, rfl⟩
      case isFalse hup =>
        split
        case isTrue => exact ⟨rfl, rfl, rfl, rfl⟩
        case isFalse hfrequency =>
          split
          case isFalse => exact ⟨hconfig, rfl, rfl, rfl⟩
          case isTrue hnoLink =>
            split
            case isTrue => exact ⟨rfl, rfl, rfl, rfl⟩
            case isFalse hswitch =>
              split
              case isFalse => exact ⟨rfl, rfl, rfl, rfl⟩
              case isTrue hopens =>
                exact absurd ⟨hconfig, by simpa using hiface, by simpa using hup,
                  by simpa using hfrequency, hnoLink, by simpa [channelEnv] using hswitch,
                  hopens⟩ (h config)

theorem csaCheck_of_restarts {env : CsaAnswers} (h : phy.RestartsForCsa env config) :
    phy.csaCheck env = { phy with csaTimer := false }.restart config env.restart := by
  unfold csaCheck
  simp [h.armed, h.stored, h.inProgress, h.opens]

theorem csaCheck_leaves {env : CsaAnswers} (h : ∀ config, ¬ phy.RestartsForCsa env config) :
    (phy.csaCheck env).1.config = phy.config ∧ phy.Leaves (phy.csaCheck env) := by
  unfold csaCheck
  split
  case isFalse => exact ⟨rfl, rfl, rfl, rfl⟩
  case isTrue harmed =>
    dsimp only
    cases hconfig : phy.config with
    | none => exact ⟨rfl, rfl, rfl, rfl⟩
    | some config =>
      dsimp only
      split
      case isFalse => exact ⟨rfl, rfl, rfl, rfl⟩
      case isTrue hruns =>
        obtain ⟨hprogress, hopens⟩ := Bool.and_eq_true_iff.mp hruns
        exact absurd ⟨harmed, hconfig, hprogress, hopens⟩ (h config)

/-! ## Where a machine waits -/

theorem waitsInPlace_of_isOf {progress : Progress} (h : progress.IsOf config) :
    (phy.progress progress).1.WaitsInPlace :=
  fun machine hwaits => h.waits machine hwaits.1 hwaits.2

theorem restart_waitsInPlace (phy : PhyState) (config : Config) (env : RestartAnswers) :
    (phy.restart config env).1.WaitsInPlace := by
  unfold restart
  by_cases hempty : config.bss = []
  · rw [if_pos hempty]
    rintro machine ⟨hnone, -⟩
    cases hnone
  · rw [if_neg hempty]
    exact waitsInPlace_of_isOf (ifacePendingLoop_isOf _ _ _ _ _)

theorem Leaves.waitsInPlace {after : PhyState × List Use} (h : phy.Leaves after)
    (hwaits : phy.WaitsInPlace) : after.1.WaitsInPlace :=
  fun machine hmachine => hwaits machine ⟨h.pending ▸ hmachine.1, hmachine.2⟩

theorem setConfig_waitsInPlace (hwaits : phy.WaitsInPlace) (env : SetAnswers) :
    (phy.setConfig config env).1.WaitsInPlace := by
  by_cases h : phy.OnlyStores config env
  · exact (setConfig_of_onlyStores h).2.waitsInPlace hwaits
  · rcases setConfig_of_not_onlyStores h with ⟨-, hleaves⟩ | ⟨-, stopping, -, hrestart⟩
    · exact hleaves.waitsInPlace hwaits
    · rw [hrestart]
      exact restart_waitsInPlace _ _ _

/-- Every event leaves a machine that waits for one of the two. -/
theorem step_waitsInPlace (hwaits : phy.WaitsInPlace) (event : PhyEvent) :
    (phy.step event).1.WaitsInPlace := by
  cases event with
  | configSet prev config env =>
    have hprev : (phy.withPrev prev).WaitsInPlace := hwaits
    exact setConfig_waitsInPlace hprev env
  | reload config env =>
    unfold step
    cases phy.config with
    | none => exact hwaits
    | some old => exact setConfig_waitsInPlace hwaits env
  | configReset => exact hwaits
  | apstaState up frequency noLink env =>
    unfold step
    by_cases h : ∃ config, phy.RestartsForApsta up frequency noLink env config
    · obtain ⟨config, h⟩ := h
      dsimp only
      rw [apstaState_of_restarts h]
      exact restart_waitsInPlace _ _ _
    · exact (apstaState_leaves (not_exists.mp h)).2.waitsInPlace hwaits
  | csaCheck env =>
    unfold step
    by_cases h : ∃ config, phy.RestartsForCsa env config
    · obtain ⟨config, h⟩ := h
      dsimp only
      rw [csaCheck_of_restarts h]
      exact restart_waitsInPlace _ _ _
    · exact (csaCheck_leaves (not_exists.mp h)).2.waitsInPlace hwaits
  | reply completed answers =>
    unfold step reply
    cases phy.pending with
    | none => exact hwaits
    | some machine =>
      dsimp only
      split
      case isTrue => exact waitsInPlace_of_isOf (ifacePendingLoop_isOf _ _ _ _ _)
      case isFalse => exact hwaits

end PhyState

/-! ## A radio -/

/-- A radio with one access point. -/
def oneBssConfig : Config where
  phy := "phy0"
  radioIdx := none
  radio := ⟨[], some "36".toList, some 5180, none⟩
  bss := [⟨"phy0-ap0", [], [], none, false, false, none, false, none, false⟩]
  mbssid := none
  numGlobalMacaddr := none
  macaddrBase := none

/-- Every call succeeds. -/
def readyAnswers : Answers := ⟨false, .ok, .ok, .ok, true, true⟩

end OpenWrt.Hostapd
