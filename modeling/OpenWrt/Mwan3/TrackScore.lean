/-
# The score agrees with the last event

Routing follows the `connected` and `disconnected` events only; the other two
are notifications. The result of this module is that in every run whose reloads
and ifup events meet the conditions below, at every point of a round and after
every scored round, `connected` was the last of the two events exactly when the
score is above `up`, and that the events come after exactly `down` failed and
`up` successful rounds in a row.

The conditions are needed: a reload that moves `up` across the score makes the
loop miss the equality that fires the event.
-/

import OpenWrt.Mwan3.Track

namespace OpenWrt.Mwan3.Track

open OpenWrt.Lib

/-! ## Reading the log -/

/-- Whether `connected` was the last of the `connected` and `disconnected`
events. -/
def lastConnected : List Entry → Bool
  | [] => false
  | .hotplug (.connected _) :: _ => true
  | .hotplug .disconnected :: _ => false
  | _ :: log => lastConnected log

/-- The failed rounds in a row at the end of the log. A success, a connection
and a handled ifup or ifdown start the count again; a reload does not. -/
def failedInARow : List Entry → Int
  | [] => 0
  | .round false :: log => failedInARow log + 1
  | .round true :: _ | .hotplug (.connected _) :: _ | .ifdown :: _ | .ifup :: _ => 0
  | _ :: log => failedInARow log

/-- The successful rounds in a row at the end of the log. -/
def succeededInARow : List Entry → Int
  | [] => 0
  | .round true :: log => succeededInARow log + 1
  | .round false :: _ | .ifdown :: _ | .ifup :: _ => 0
  | _ :: log => succeededInARow log

theorem succeededInARow_nonneg (log : List Entry) : 0 ≤ succeededInARow log := by
  induction log using succeededInARow.induct <;> simp_all [succeededInARow]
  omega

/-! ## The invariant -/

namespace Tracker

/-- The score and the status of a started tracker, told from its log. While the
last event is `connected` the score is the maximum less the failed rounds so
far, otherwise it counts the successful ones. -/
structure Phase (s : Tracker) : Prop where
  online : lastConnected s.log = true →
    (s.status = .online ∨ s.status = .disconnecting) ∧
      s.score = s.config.down + s.config.up - failedInARow s.log ∧
      failedInARow s.log < s.config.down
  offline : lastConnected s.log = false →
    (s.status ≠ .online ∧ s.status ≠ .disconnecting) ∧
      s.score = succeededInARow s.log ∧ succeededInARow s.log < s.config.up

/-- The invariant of the loop. A started tracker without a pending ifup is in
phase, and so is every round; a tracker that is not started looks at the events
only when woken by one. -/
structure Inv (s : Tracker) : Prop where
  up_pos : 0 < s.config.up
  down_pos : 0 < s.config.down
  statusFile : s.statusFile = some s.status
  live : s.started = true → s.ifupEvent = false → s.Phase
  round : (∃ hosts, s.pc = .probing hosts) ∨ s.pc = .roundEnd → s.started = true ∧ s.Phase
  awake : s.pc = .check → s.started = true ∨ s.anyEvent = true

/-! ## The conditions on reloads and ifup events -/

/-- A reload keeps the phase: with the new thresholds, both positive, the
clamped score of an online interface is still above `up` and the maximum less
the failed rounds so far, and the score of an offline one still below `up`. A
tracker that is not started, or about to handle an ifup, starts again anyway. -/
def ReloadKeepsPhase (s : Tracker) (env : Env) : Prop :=
  0 < env.config.up ∧ 0 < env.config.down ∧
    (s.started = true → s.ifupEvent = false →
      if lastConnected s.log then
        reloadedScore s.score env.config =
            env.config.down + env.config.up - failedInARow s.log ∧
          env.config.up < reloadedScore s.score env.config
      else s.score < env.config.up)

/-- An ifup of a usable network does not silently put a connected interface
offline: either its status is online, so that it is connected again, or its
initial state is not offline, or `connected` was not the last event. -/
def IfupKeepsPhase (s : Tracker) (env : Env) : Prop :=
  env.networkIsUp = true → env.config.initialState = .offline →
    s.status = .online ∨ lastConnected s.log = false

instance (s : Tracker) (env : Env) : Decidable (s.ReloadKeepsPhase env) := by
  unfold ReloadKeepsPhase
  infer_instance

instance (s : Tracker) (env : Env) : Decidable (s.IfupKeepsPhase env) := by
  unfold IfupKeepsPhase
  infer_instance

end Tracker

/-- The condition on a step: the ifup or the reload it handles, if any, keeps the
phase. -/
def KeepsPhase (s : Tracker) : Action → Prop
  | .checkEvents env =>
    if s.ifdownEvent then True
    else if s.ifupEvent then s.IfupKeepsPhase env
    else s.reloadEvent = true → s.ReloadKeepsPhase env
  | .afterSleepIfup env => s.ifupEvent = true → s.IfupKeepsPhase env
  | .afterSleepReload env => s.reloadEvent = true → s.ReloadKeepsPhase env
  | _ => True

instance (s : Tracker) (action : Action) : Decidable (KeepsPhase s action) := by
  cases action <;> unfold KeepsPhase <;> infer_instance

/-- A start with positive thresholds. -/
def IsGuardedStart (s : Tracker) : Prop :=
  IsStart s ∧ 0 < s.config.up ∧ 0 < s.config.down

/-- The runs in which every ifup and every reload keeps the phase. -/
def guardedTracker : System Tracker Action :=
  (System.ofFn IsGuardedStart next).restrict KeepsPhase

/-! ## The handlers keep the invariant -/

namespace Tracker

variable {s : Tracker} {env : Env}

theorem phase_connected (first : Bool) (hdown : 0 < s.config.down) :
    (s.connected first).Phase where
  online := by
    intro _
    refine ⟨.inl rfl, ?_, ?_⟩ <;> simp [connected, record, failedInARow, hdown]
  offline := by
    intro hlast
    simp [connected, record, lastConnected] at hlast

/-- The three outcomes of `firstconnect`. -/
theorem firstconnect_cases (s : Tracker) (env : Env) :
    (env.networkIsUp = false ∧
        s.firstconnect env = { s with status := s.firstconnectStatus env }.disabled) ∨
      (env.networkIsUp = true ∧ s.firstconnectStatus env = .offline ∧
        s.firstconnect env =
          { s with status := .offline, started := true }.disconnected true) ∨
      (env.networkIsUp = true ∧
        s.firstconnect env =
          { s with status := s.firstconnectStatus env, started := true }.connected true) := by
  cases hnet : env.networkIsUp with
  | false => exact .inl ⟨rfl, by simp [firstconnect, hnet]⟩
  | true =>
    by_cases hoffline : s.firstconnectStatus env = .offline
    · exact .inr (.inl ⟨rfl, hoffline, by simp [firstconnect, hnet, hoffline]⟩)
    · exact .inr (.inr ⟨rfl, by simp [firstconnect, hnet, hoffline]⟩)

/-- `firstconnect` on a tracker that was not left connected, or whose status is
online, puts it in phase unless the network is down, and then it is stopped. -/
theorem live_firstconnect (hup : 0 < s.config.up) (hdown : 0 < s.config.down)
    (hsucceeded : succeededInARow s.log = 0) (hkeeps : s.IfupKeepsPhase env)
    (hstarted : (s.firstconnect env).started = true) : (s.firstconnect env).Phase := by
  obtain ⟨-, heq⟩ | ⟨hnet, hoffline, heq⟩ | ⟨-, heq⟩ := firstconnect_cases s env
  · simp [heq, disabled] at hstarted
  · have hlast : lastConnected s.log = false := by
      by_cases honline : s.status = .online
      · simp [firstconnectStatus, honline] at hoffline
      · have hinitial : env.config.initialState = .offline := by
          simpa [firstconnectStatus, honline] using hoffline
        exact (hkeeps hnet hinitial).resolve_left honline
    rw [heq]
    exact {
      online := fun h => by simp [disconnected, hlast] at h
      offline := fun _ => by simp [disconnected, hsucceeded, hup] }
  · rw [heq]
    exact phase_connected true hdown

@[simp]
theorem firstconnect_config : (s.firstconnect env).config = s.config := by
  obtain ⟨-, heq⟩ | ⟨-, -, heq⟩ | ⟨-, heq⟩ := firstconnect_cases s env <;> rw [heq] <;> rfl

@[simp]
theorem firstconnect_pc : (s.firstconnect env).pc = s.pc := by
  obtain ⟨-, heq⟩ | ⟨-, -, heq⟩ | ⟨-, heq⟩ := firstconnect_cases s env <;> rw [heq] <;> rfl

theorem firstconnect_statusFile :
    (s.firstconnect env).statusFile = some (s.firstconnect env).status := by
  obtain ⟨-, heq⟩ | ⟨-, -, heq⟩ | ⟨-, heq⟩ := firstconnect_cases s env <;> rw [heq] <;> rfl

@[simp]
theorem disconnected_config (quiet : Bool) : (s.disconnected quiet).config = s.config := by
  unfold disconnected
  split
  · rfl
  · split <;> rfl

@[simp]
theorem disconnected_started (quiet : Bool) :
    (s.disconnected quiet).started = s.started := by
  unfold disconnected
  split
  · rfl
  · split <;> rfl

theorem handleIfdown_fields :
    s.handleIfdown.config = s.config ∧ s.handleIfdown.started = false ∧
      s.handleIfdown.statusFile = some s.handleIfdown.status := by
  refine ⟨?_, rfl, rfl⟩
  simp [handleIfdown, disabled, record]

theorem handleIfup_fields (s : Tracker) (env : Env) :
    (s.handleIfup env).config = s.config ∧
      (s.handleIfup env).statusFile = some (s.handleIfup env).status := by
  refine ⟨?_, ?_⟩
  · simp [handleIfup, record]
  · exact firstconnect_statusFile

/-- Forgetting the pending flags and moving the program counter keeps the
phase, which reads neither. -/
theorem Phase.congr {t : Tracker} (h : s.Phase) (hlog : t.log = s.log)
    (hstatus : t.status = s.status) (hscore : t.score = s.score)
    (hconfig : t.config = s.config) : t.Phase where
  online := by simpa only [hlog, hstatus, hscore, hconfig] using h.online
  offline := by simpa only [hlog, hstatus, hscore, hconfig] using h.offline

theorem phase_handleIfup (hup : 0 < s.config.up) (hdown : 0 < s.config.down)
    (hkeeps : s.IfupKeepsPhase env) (hstarted : (s.handleIfup env).started = true) :
    (s.handleIfup env).Phase := by
  have hlive : (({ s.record .ifup with trackIps := env.config.trackIps } : Tracker).firstconnect
      env).Phase := live_firstconnect hup hdown rfl hkeeps hstarted
  exact hlive.congr rfl rfl rfl rfl

/-- A handled reload keeps a tracker in phase under its condition. -/
theorem phase_handleReload (hphase : s.Phase) (hstarted : s.started = true)
    (hifup : s.ifupEvent = false) (hkeeps : s.ReloadKeepsPhase env) :
    (s.handleReload env).Phase := by
  obtain ⟨hup, hdown, hscore⟩ := hkeeps
  have hscore := hscore hstarted hifup
  have hpos := succeededInARow_nonneg s.log
  cases hlast : lastConnected s.log with
  | true =>
    rw [hlast, if_pos rfl] at hscore
    refine ⟨fun _ => ⟨(hphase.online hlast).1, hscore.1, ?_⟩, fun h => ?_⟩
    · have hfailed : failedInARow (s.handleReload env).log = failedInARow s.log := rfl
      have hnew : (s.handleReload env).config = env.config := rfl
      rw [hfailed, hnew]
      omega
    · exact absurd (hlast.symm.trans h) (by decide)
  | false =>
    rw [hlast, if_neg (by decide)] at hscore
    obtain ⟨hstatus, heq, -⟩ := hphase.offline hlast
    refine ⟨fun h => absurd (hlast.symm.trans h) (by decide), fun _ => ⟨hstatus, ?_, ?_⟩⟩
    · have hclamp : reloadedScore s.score env.config = s.score := by
        unfold reloadedScore
        split <;> omega
      exact hclamp.trans heq
    · have hsucceeded : succeededInARow (s.handleReload env).log =
          succeededInARow s.log := rfl
      have hnew : (s.handleReload env).config = env.config := rfl
      rw [hsucceeded, hnew, ← heq]
      exact hscore

/-! ## The two notifications

They move the status and are logged, but are none of the entries the log is
read for. -/

@[simp]
theorem disconnecting_status : s.disconnecting.status = .disconnecting := by
  unfold disconnecting
  split
  · rfl
  · simp_all

theorem disconnecting_statusFile (hfile : s.statusFile = some s.status) :
    s.disconnecting.statusFile = some .disconnecting := by
  unfold disconnecting
  split
  · rfl
  · simp_all

@[simp]
theorem disconnecting_score : s.disconnecting.score = s.score := by
  unfold disconnecting
  split <;> rfl

@[simp]
theorem disconnecting_config : s.disconnecting.config = s.config := by
  unfold disconnecting
  split <;> rfl

@[simp]
theorem disconnecting_started : s.disconnecting.started = s.started := by
  unfold disconnecting
  split <;> rfl

@[simp]
theorem lastConnected_disconnecting :
    lastConnected s.disconnecting.log = lastConnected s.log := by
  unfold disconnecting
  split <;> rfl

@[simp]
theorem failedInARow_disconnecting :
    failedInARow s.disconnecting.log = failedInARow s.log := by
  unfold disconnecting
  split <;> rfl

@[simp]
theorem succeededInARow_disconnecting :
    succeededInARow s.disconnecting.log = succeededInARow s.log := by
  unfold disconnecting
  split <;> rfl

@[simp]
theorem connecting_status : s.connecting.status = .connecting := by
  unfold connecting
  split
  · rfl
  · simp_all

theorem connecting_statusFile (hfile : s.statusFile = some s.status) :
    s.connecting.statusFile = some .connecting := by
  unfold connecting
  split
  · rfl
  · simp_all

@[simp]
theorem connecting_score : s.connecting.score = s.score := by
  unfold connecting
  split <;> rfl

@[simp]
theorem connecting_config : s.connecting.config = s.config := by
  unfold connecting
  split <;> rfl

@[simp]
theorem connecting_started : s.connecting.started = s.started := by
  unfold connecting
  split <;> rfl

@[simp]
theorem lastConnected_connecting :
    lastConnected s.connecting.log = lastConnected s.log := by
  unfold connecting
  split <;> rfl

@[simp]
theorem succeededInARow_connecting :
    succeededInARow s.connecting.log = succeededInARow s.log := by
  unfold connecting
  split <;> rfl

/-! ## The rounds -/

/-- The outcomes of a failed round by where the lowered score lies. -/
theorem roundFailed_cases (s : Tracker) :
    (s.score - 1 < s.config.up ∧ s.roundFailed = s.lowerScore.dropScore) ∨
      (s.score - 1 = s.config.up ∧
        s.roundFailed =
          (s.lowerScore.disconnecting.sleepFor s.config.failureInterval).disconnected false) ∨
      (s.config.up < s.score - 1 ∧
        (s.roundFailed = s.lowerScore.sleepFor s.config.failureInterval ∨
          s.roundFailed = s.lowerScore.disconnecting.sleepFor s.config.failureInterval)) := by
  have hscore : s.lowerScore.score = s.score - 1 := rfl
  have hconfig : s.lowerScore.config = s.config := rfl
  rcases Int.lt_trichotomy (s.score - 1) s.config.up with hlt | heq | hgt
  · refine .inl ⟨hlt, ?_⟩
    simp only [roundFailed, hscore, hconfig, if_pos hlt]
  · refine .inr (.inl ⟨heq, ?_⟩)
    simp only [roundFailed, hscore, hconfig, heq, Int.lt_irrefl, if_false, if_true]
  · refine .inr (.inr ⟨hgt, ?_⟩)
    simp only [roundFailed, hscore, hconfig, if_neg (Int.lt_asymm hgt),
      if_neg (Int.ne_of_gt hgt)]
    split
    · exact .inr rfl
    · exact .inl rfl

theorem disconnected_of_disconnecting (hfile : s.statusFile = some .disconnecting) :
    s.disconnected false =
      { s with
        status := .offline, statusFile := some .offline, score := 0 }.record
        (.hotplug .disconnected) := by
  simp [disconnected, hfile]

/-- A failed round of an online interface puts it offline exactly when it is the
`down`-th failed round in a row. -/
theorem roundFailed_online (hup : 0 < s.config.up) (hfile : s.statusFile = some s.status)
    (hphase : s.Phase) (hlast : lastConnected s.log = true) :
    (lastConnected s.roundFailed.log = false ↔
        failedInARow s.roundFailed.log = s.config.down) ∧ s.roundFailed.Phase := by
  obtain ⟨hstatus, hscore, hfailed⟩ := hphase.online hlast
  obtain ⟨hlt, -⟩ | ⟨heq, hround⟩ | ⟨hgt, hround⟩ := roundFailed_cases s
  · omega
  · -- the equality that fires the event
    have hdisc : (s.lowerScore.disconnecting.sleepFor s.config.failureInterval).statusFile =
        some .disconnecting := disconnecting_statusFile (s := s.lowerScore) hfile
    rw [disconnected_of_disconnecting hdisc] at hround
    have hcount : failedInARow s.roundFailed.log = failedInARow s.log + 1 := by
      simp [hround, record, sleepFor, lowerScore, failedInARow]
    have hgone : lastConnected s.roundFailed.log = false := by
      rw [hround]
      rfl
    refine ⟨⟨fun _ => by omega, fun _ => hgone⟩, fun h => ?_, fun _ => ⟨?_, ?_⟩⟩
    · exact absurd (hgone.symm.trans h) (by decide)
    · simp [hround, record]
    · simp [hround, record, sleepFor, lowerScore, succeededInARow, hup]
  · have hcount : failedInARow s.roundFailed.log = failedInARow s.log + 1 := by
      rcases hround with h | h <;> simp [h, record, sleepFor, lowerScore, failedInARow]
    have hstay : lastConnected s.roundFailed.log = true := by
      rcases hround with h | h <;> simp [h, record, sleepFor, lowerScore, lastConnected, hlast]
    have hconfig : s.roundFailed.config = s.config := by
      rcases hround with h | h <;> simp [h, record, sleepFor, lowerScore]
    have hlowered : s.roundFailed.score = s.score - 1 := by
      rcases hround with h | h <;> simp [h, sleepFor, lowerScore]
    refine ⟨⟨fun h => absurd (hstay.symm.trans h) (by decide), fun h => by omega⟩,
      fun _ => ⟨?_, ?_, ?_⟩, fun h => absurd (hstay.symm.trans h) (by decide)⟩
    · rcases hround with h | h
      · simpa [h, sleepFor, lowerScore, record] using hstatus
      · simp [h, sleepFor]
    · rw [hlowered, hconfig, hcount]
      omega
    · rw [hconfig, hcount]
      omega

/-- A failed round of an offline interface leaves it offline with score 0. -/
theorem roundFailed_offline (hup : 0 < s.config.up) (hphase : s.Phase)
    (hlast : lastConnected s.log = false) :
    lastConnected s.roundFailed.log = false ∧ s.roundFailed.Phase := by
  obtain ⟨hstatus, hscore, hsucceeded⟩ := hphase.offline hlast
  obtain ⟨-, hround⟩ | ⟨heq, -⟩ | ⟨hgt, -⟩ := roundFailed_cases s
  · have hstay : lastConnected s.roundFailed.log = false := by
      rw [hround]
      exact hlast
    refine ⟨hstay, fun h => absurd (hstay.symm.trans h) (by decide), fun _ => ?_⟩
    rw [hround]
    exact ⟨hstatus, rfl, hup⟩
  · omega
  · omega

/-- The outcomes of a successful round by where the raised score lies. -/
theorem roundSucceeded_cases (s : Tracker) :
    (s.score + 1 < s.config.up ∧
        s.roundSucceeded = s.raiseScore.connecting.sleepFor s.config.recoveryInterval) ∨
      (s.score + 1 = s.config.up ∧
        s.roundSucceeded =
          (s.raiseScore.connecting.sleepFor s.config.recoveryInterval).connected false) ∨
      (s.config.up < s.score + 1 ∧ s.roundSucceeded = s.raiseScore.restoreScore) := by
  have hscore : s.raiseScore.score = s.score + 1 := rfl
  have hconfig : s.raiseScore.config = s.config := rfl
  rcases Int.lt_trichotomy (s.score + 1) s.config.up with hlt | heq | hgt
  · refine .inl ⟨hlt, ?_⟩
    simp only [roundSucceeded, hscore, hconfig, if_pos hlt]
  · refine .inr (.inl ⟨heq, ?_⟩)
    simp only [roundSucceeded, hscore, hconfig, heq, Int.lt_irrefl, if_false, if_true]
  · refine .inr (.inr ⟨hgt, ?_⟩)
    simp only [roundSucceeded, hscore, hconfig, if_neg (Int.lt_asymm hgt),
      if_neg (Int.ne_of_gt hgt)]

/-- A successful round of an online interface restores the whole score. -/
theorem roundSucceeded_online (hdown : 0 < s.config.down) (hphase : s.Phase)
    (hlast : lastConnected s.log = true) :
    lastConnected s.roundSucceeded.log = true ∧ s.roundSucceeded.Phase := by
  obtain ⟨hstatus, hscore, hfailed⟩ := hphase.online hlast
  obtain ⟨hlt, -⟩ | ⟨heq, -⟩ | ⟨-, hround⟩ := roundSucceeded_cases s
  · omega
  · omega
  · have hstay : lastConnected s.roundSucceeded.log = true := by
      rw [hround]
      exact hlast
    have hcount : failedInARow s.roundSucceeded.log = 0 := by
      rw [hround]
      rfl
    refine ⟨hstay, fun _ => ⟨.inl ?_, ?_, ?_⟩, fun h => absurd (hstay.symm.trans h) (by decide)⟩
    · rcases hstatus with h | h <;> simp [hround, restoreScore, raiseScore, record, h]
    · rw [hcount, hround]
      simp [restoreScore]
    · rw [hcount, hround]
      exact hdown

/-- A successful round of an offline interface connects it exactly when it is
the `up`-th successful round in a row. -/
theorem roundSucceeded_offline (hdown : 0 < s.config.down) (hphase : s.Phase)
    (hlast : lastConnected s.log = false) :
    (lastConnected s.roundSucceeded.log = true ↔
        succeededInARow s.roundSucceeded.log = s.config.up) ∧ s.roundSucceeded.Phase := by
  obtain ⟨hstatus, hscore, hsucceeded⟩ := hphase.offline hlast
  obtain ⟨hlt, hround⟩ | ⟨heq, hround⟩ | ⟨hgt, -⟩ := roundSucceeded_cases s
  · have hcount : succeededInARow s.roundSucceeded.log = succeededInARow s.log + 1 := by
      simp [hround, sleepFor, raiseScore, record, succeededInARow]
    have hstay : lastConnected s.roundSucceeded.log = false := by
      simp [hround, sleepFor, raiseScore, record, lastConnected, hlast]
    refine ⟨⟨fun h => absurd (hstay.symm.trans h) (by decide), fun h => by omega⟩,
      fun h => absurd (hstay.symm.trans h) (by decide), fun _ => ⟨?_, ?_, ?_⟩⟩
    · simp [hround, sleepFor]
    · rw [hcount, ← hscore]
      simp [hround, sleepFor, raiseScore]
    · rw [hcount, ← hscore]
      simpa [hround, sleepFor, raiseScore, record] using hlt
  · have hcount : succeededInARow s.roundSucceeded.log = succeededInARow s.log + 1 := by
      simp [hround, connected, sleepFor, raiseScore, record, succeededInARow]
    have hconnected : lastConnected s.roundSucceeded.log = true := by
      rw [hround]
      rfl
    refine ⟨⟨fun _ => by omega, fun _ => hconnected⟩, ?_⟩
    rw [hround]
    exact phase_connected false (by simpa [sleepFor, raiseScore, record] using hdown)
  · omega

@[simp]
theorem roundFailed_config : s.roundFailed.config = s.config := by
  obtain ⟨-, heq⟩ | ⟨-, heq⟩ | ⟨-, heq | heq⟩ := roundFailed_cases s <;>
    simp [heq, dropScore, sleepFor, lowerScore, record]

@[simp]
theorem roundSucceeded_config : s.roundSucceeded.config = s.config := by
  obtain ⟨-, heq⟩ | ⟨-, heq⟩ | ⟨-, heq⟩ := roundSucceeded_cases s <;>
    simp [heq, connected, restoreScore, sleepFor, raiseScore, record]

@[simp]
theorem roundFailed_started : s.roundFailed.started = s.started := by
  obtain ⟨-, heq⟩ | ⟨-, heq⟩ | ⟨-, heq | heq⟩ := roundFailed_cases s <;>
    simp [heq, dropScore, sleepFor, lowerScore, record]

@[simp]
theorem roundSucceeded_started : s.roundSucceeded.started = s.started := by
  obtain ⟨-, heq⟩ | ⟨-, heq⟩ | ⟨-, heq⟩ := roundSucceeded_cases s <;>
    simp [heq, connected, restoreScore, sleepFor, raiseScore, record]

theorem roundFailed_statusFile (hfile : s.statusFile = some s.status) :
    s.roundFailed.statusFile = some s.roundFailed.status := by
  have hfile' : s.lowerScore.statusFile = some s.lowerScore.status := hfile
  obtain ⟨-, heq⟩ | ⟨-, heq⟩ | ⟨-, heq | heq⟩ := roundFailed_cases s <;> rw [heq]
  · exact hfile
  · rw [disconnected_of_disconnecting (by exact disconnecting_statusFile hfile')]
    rfl
  · exact hfile
  · have hnew := disconnecting_statusFile hfile'
    simpa [sleepFor] using hnew

/-- The status file follows the status through a successful round of an
interface in phase. -/
theorem roundSucceeded_statusFile (hfile : s.statusFile = some s.status)
    (hphase : s.Phase) : s.roundSucceeded.statusFile = some s.roundSucceeded.status := by
  have hfile' : s.raiseScore.statusFile = some s.raiseScore.status := hfile
  obtain ⟨-, heq⟩ | ⟨-, heq⟩ | ⟨hgt, heq⟩ := roundSucceeded_cases s <;> rw [heq]
  · have hnew := connecting_statusFile hfile'
    simpa [sleepFor] using hnew
  · rfl
  · cases hlast : lastConnected s.log with
    | true =>
      rcases (hphase.online hlast).1 with h | h <;>
        simp [restoreScore, raiseScore, record, h]
    | false =>
      obtain ⟨-, hscore, hsucceeded⟩ := hphase.offline hlast
      omega

/-! ## Every step keeps the invariant -/

/-- A step that changes neither the phase nor the status file keeps the
invariant, as long as it does not start the tracker or forget an ifup, and goes
to a round or to the events only where it may. -/
theorem Inv.frame {t : Tracker} (h : s.Inv) (hlog : t.log = s.log)
    (hstatus : t.status = s.status) (hscore : t.score = s.score)
    (hconfig : t.config = s.config) (hfile : t.statusFile = s.statusFile)
    (hlive : t.started = true → t.ifupEvent = false → s.started = true ∧ s.ifupEvent = false)
    (hround : (∃ hosts, t.pc = .probing hosts) ∨ t.pc = .roundEnd →
      t.started = true ∧ s.Phase)
    (hawake : t.pc = .check → t.started = true ∨ t.anyEvent = true) : t.Inv where
  up_pos := by simpa only [hconfig] using h.up_pos
  down_pos := by simpa only [hconfig] using h.down_pos
  statusFile := by simpa only [hfile, hstatus] using h.statusFile
  live hstarted hifup :=
    have hsource := hlive hstarted hifup
    (h.live hsource.1 hsource.2).congr hlog hstatus hscore hconfig
  round hpc :=
    ⟨(hround hpc).1, (hround hpc).2.congr hlog hstatus hscore hconfig⟩
  awake := hawake

theorem inv_wake (h : s.Inv) (hevent : s.anyEvent = true) : s.wake.Inv := by
  refine h.frame rfl rfl rfl rfl rfl (fun h₁ h₂ => ⟨h₁, h₂⟩) (fun hpc => ?_)
    (fun _ => .inr hevent)
  by_cases hasleep : s.pc = .asleep
  · simp [wake, hasleep] at hpc
  · have hsame : s.wake.pc = s.pc := if_neg hasleep
    rw [hsame] at hpc
    exact h.round hpc

theorem inv_ifDown (h : s.Inv) : s.ifDown.Inv :=
  inv_wake (s := { s with ifdownEvent := true })
    (h.frame rfl rfl rfl rfl rfl (fun h₁ h₂ => ⟨h₁, h₂⟩) h.round (fun _ => .inr rfl)) rfl

theorem inv_ifUp (h : s.Inv) : s.ifUp.Inv := by
  refine inv_wake (s := { s with ifdownEvent := false, ifupEvent := true, started := true })
    (h.frame rfl rfl rfl rfl rfl ?_ (fun hpc => ⟨rfl, (h.round hpc).2⟩) (fun _ => .inl rfl)) rfl
  intro _ hifup
  cases hifup

theorem inv_configReload (h : s.Inv) : s.configReload.Inv :=
  inv_wake (s := { s with reloadEvent := true })
    (h.frame rfl rfl rfl rfl rfl (fun h₁ h₂ => ⟨h₁, h₂⟩) h.round
      (fun _ => .inr (by simp [anyEvent])))
    (by simp [anyEvent])

/-- A loop position at which neither a round nor the event tests begin. -/
def Pc.Neutral (pc : Pc) : Prop :=
  pc = .top ∨ pc = .afterIfdown ∨ pc = .afterIfup

theorem inv_handleIfdown (h : s.Inv) {pc : Pc} (hpc : Pc.Neutral pc) :
    ({ s.handleIfdown with pc := pc } : Tracker).Inv := by
  obtain ⟨hconfig, hstarted, hfile⟩ := handleIfdown_fields (s := s)
  refine ⟨?_, ?_, hfile, fun hs => ?_, fun hs => ?_, fun hs => ?_⟩
  · simpa only [hconfig] using h.up_pos
  · simpa only [hconfig] using h.down_pos
  · exact absurd (hs.symm.trans hstarted) (by decide)
  · rcases hpc with rfl | rfl | rfl <;> simp at hs
  · rcases hpc with rfl | rfl | rfl <;> simp at hs

theorem inv_handleIfup (h : s.Inv) (hkeeps : s.IfupKeepsPhase env) {pc : Pc}
    (hpc : Pc.Neutral pc) : ({ s.handleIfup env with pc := pc } : Tracker).Inv := by
  obtain ⟨hconfig, hfile⟩ := handleIfup_fields s env
  refine ⟨?_, ?_, hfile, fun hs _ => ?_, fun hs => ?_, fun hs => ?_⟩
  · simpa only [hconfig] using h.up_pos
  · simpa only [hconfig] using h.down_pos
  · exact (phase_handleIfup h.up_pos h.down_pos hkeeps hs).congr rfl rfl rfl rfl
  · rcases hpc with rfl | rfl | rfl <;> simp at hs
  · rcases hpc with rfl | rfl | rfl <;> simp at hs

theorem inv_handleReload (h : s.Inv) (hkeeps : s.ReloadKeepsPhase env) :
    ({ s.handleReload env with pc := .top } : Tracker).Inv where
  up_pos := hkeeps.1
  down_pos := hkeeps.2.1
  statusFile := h.statusFile
  live hstarted hifup :=
    (phase_handleReload (h.live hstarted hifup) hstarted hifup hkeeps).congr rfl rfl rfl rfl
  round hs := by simp at hs
  awake hs := by simp at hs

theorem inv_loopTop (h : s.Inv) : s.loopTop.Inv := by
  refine h.frame rfl rfl rfl rfl rfl (fun h₁ h₂ => ⟨h₁, h₂⟩) (fun hpc => ?_) (fun hpc => ?_)
  · unfold loopTop at hpc
    split at hpc <;> simp at hpc
  · by_cases hstarted : s.started = true
    · exact .inl hstarted
    · simp [loopTop, hstarted] at hpc

/-- The event tests: one event is handled, or a round begins in phase. -/
theorem inv_checkEvents (h : s.Inv) (hpc : s.pc = .check)
    (hkeeps : KeepsPhase s (.checkEvents env)) : (s.checkEvents env).Inv := by
  unfold KeepsPhase at hkeeps
  unfold checkEvents
  cases hifdown : s.ifdownEvent with
  | true =>
    rw [if_pos rfl]
    exact inv_handleIfdown h (.inl rfl)
  | false =>
    cases hifup : s.ifupEvent with
    | true =>
      simp only [hifdown, hifup] at hkeeps
      exact inv_handleIfup h hkeeps (.inl rfl)
    | false =>
      cases hreload : s.reloadEvent with
      | true =>
        simp only [hifdown, hifup] at hkeeps
        exact inv_handleReload h (hkeeps hreload)
      | false =>
        have hnone : s.anyEvent = false := by simp [anyEvent, hifdown, hifup, hreload]
        have hstarted : s.started = true :=
          (h.awake hpc).resolve_right (by simp [hnone])
        refine h.frame rfl rfl rfl rfl rfl (fun _ _ => ⟨hstarted, hifup⟩)
          (fun _ => ⟨hstarted, h.live hstarted hifup⟩) (fun hs => ?_)
        simp at hs

theorem inv_probeHost (h : s.Inv) {hosts : ℕ} (hpc : s.pc = .probing (hosts + 1))
    (sample : ProbeSample) : (s.probeHost hosts sample).Inv := by
  have hround := h.round (.inl ⟨_, hpc⟩)
  unfold probeHost
  split
  · split
    all_goals
      exact h.frame rfl rfl rfl rfl rfl (fun h₁ h₂ => ⟨h₁, h₂⟩) (fun _ => hround)
        (fun hs => by simp at hs)
  · exact h.frame rfl rfl rfl rfl rfl (fun h₁ h₂ => ⟨h₁, h₂⟩) (fun _ => hround)
      (fun hs => by simp at hs)

theorem round_keeps (h : s.Inv) (hphase : s.Phase) (scored : Tracker)
    (hscored : scored = s.roundFailed ∨ scored = s.roundSucceeded) :
    scored.config = s.config ∧ scored.statusFile = some scored.status ∧
      scored.started = s.started ∧ scored.Phase := by
  rcases hscored with rfl | rfl
  · refine ⟨roundFailed_config, roundFailed_statusFile h.statusFile, roundFailed_started, ?_⟩
    cases hlast : lastConnected s.log with
    | true => exact (roundFailed_online h.up_pos h.statusFile hphase hlast).2
    | false => exact (roundFailed_offline h.up_pos hphase hlast).2
  · refine ⟨roundSucceeded_config, roundSucceeded_statusFile h.statusFile hphase,
      roundSucceeded_started, ?_⟩
    cases hlast : lastConnected s.log with
    | true => exact (roundSucceeded_online h.down_pos hphase hlast).2
    | false => exact (roundSucceeded_offline h.down_pos hphase hlast).2

/-- The end of a round, discarded or scored. -/
theorem inv_finishRound (h : s.Inv) (hpc : s.pc = .probing 0) : s.finishRound.Inv := by
  obtain ⟨hstarted, hphase⟩ := h.round (.inl ⟨0, hpc⟩)
  unfold finishRound
  split
  · exact h.frame rfl rfl rfl rfl rfl (fun h₁ h₂ => ⟨h₁, h₂⟩) (fun hs => by simp at hs)
      (fun hs => by simp at hs)
  · obtain ⟨hconfig, hfile, hlive, hafter⟩ := round_keeps h hphase
      (if s.hostUpCount < s.config.reliability then s.roundFailed else s.roundSucceeded)
      (by split <;> simp)
    refine ⟨?_, ?_, hfile, fun _ _ => hafter.congr rfl rfl rfl rfl,
      fun _ => ⟨hlive.trans hstarted, hafter.congr rfl rfl rfl rfl⟩, fun hs => by simp at hs⟩
    · simpa only [hconfig] using h.up_pos
    · simpa only [hconfig] using h.down_pos

theorem inv_move (h : s.Inv) {pc : Pc} (hpc : Pc.Neutral pc) :
    ({ s with pc := pc } : Tracker).Inv := by
  refine h.frame rfl rfl rfl rfl rfl (fun h₁ h₂ => ⟨h₁, h₂⟩) (fun hs => ?_) (fun hs => ?_)
  all_goals rcases hpc with rfl | rfl | rfl <;> simp at hs

theorem inv_afterSleep (h : s.Inv) : s.afterSleep.Inv := by
  unfold afterSleep
  split
  · exact inv_handleIfdown h (.inr (.inl rfl))
  · exact inv_move h (.inr (.inl rfl))

theorem inv_afterSleepIfup (h : s.Inv) (hkeeps : KeepsPhase s (.afterSleepIfup env)) :
    (s.afterSleepIfup env).Inv := by
  unfold afterSleepIfup
  split
  case isTrue hifup => exact inv_handleIfup h (hkeeps hifup) (.inr (.inr rfl))
  case isFalse => exact inv_move h (.inr (.inr rfl))

theorem inv_afterSleepReload (h : s.Inv) (hkeeps : KeepsPhase s (.afterSleepReload env)) :
    (s.afterSleepReload env).Inv := by
  unfold afterSleepReload
  split
  case isTrue hreload => exact inv_handleReload h (hkeeps hreload)
  case isFalse => exact inv_move h (.inl rfl)

theorem inv_start (env : Env) (old : Option Status) (hup : 0 < env.config.up)
    (hdown : 0 < env.config.down) : (start env old).Inv := by
  unfold start
  refine ⟨by simpa using hup, by simpa using hdown, firstconnect_statusFile,
    fun hstarted _ => live_firstconnect hup hdown rfl (fun _ _ => .inr rfl) hstarted, ?_, ?_⟩
  all_goals simp

end Tracker

/-- One guarded step keeps the invariant. -/
theorem inv_next {s t : Tracker} {action : Action} (h : s.Inv)
    (hkeeps : KeepsPhase s action) (hnext : next s action = some t) : t.Inv := by
  cases action with
  | ifDownSignal =>
    cases hnext
    exact Tracker.inv_ifDown h
  | ifUpSignal =>
    cases hnext
    exact Tracker.inv_ifUp h
  | reloadSignal =>
    cases hnext
    exact Tracker.inv_configReload h
  | loopTop =>
    simp only [next, Option.ite_none_right_eq_some, Option.some.injEq] at hnext
    rw [← hnext.2]
    exact Tracker.inv_loopTop h
  | checkEvents env =>
    simp only [next, Option.ite_none_right_eq_some, Option.some.injEq] at hnext
    rw [← hnext.2]
    exact Tracker.inv_checkEvents h hnext.1 hkeeps
  | probeHost sample =>
    simp only [next] at hnext
    split at hnext
    case h_1 hosts hpc =>
      cases hnext
      exact Tracker.inv_probeHost h hpc sample
    case h_2 => cases hnext
  | finishRound =>
    simp only [next, Option.ite_none_right_eq_some, Option.some.injEq] at hnext
    rw [← hnext.2]
    exact Tracker.inv_finishRound h hnext.1
  | afterSleep =>
    simp only [next, Option.ite_none_right_eq_some, Option.some.injEq] at hnext
    rw [← hnext.2]
    exact Tracker.inv_afterSleep h
  | afterSleepIfup env =>
    simp only [next, Option.ite_none_right_eq_some, Option.some.injEq] at hnext
    rw [← hnext.2]
    exact Tracker.inv_afterSleepIfup h hkeeps
  | afterSleepReload env =>
    simp only [next, Option.ite_none_right_eq_some, Option.some.injEq] at hnext
    rw [← hnext.2]
    exact Tracker.inv_afterSleepReload h hkeeps

theorem inv_of_reachable {s : Tracker} (hreach : guardedTracker.Reachable s) : s.Inv := by
  refine hreach.invariant (fun t hstart => ?_) (fun source action target h hstep => ?_)
  · obtain ⟨⟨env, old, rfl⟩, hup, hdown⟩ := hstart
    exact Tracker.inv_start env old (by simpa [Tracker.start] using hup)
      (by simpa [Tracker.start] using hdown)
  · exact inv_next h hstep.1 hstep.2

/-! ## The agreement -/

/-- The loop is inside a round or has just scored one. -/
def AtRound (s : Tracker) : Prop :=
  (∃ hosts, s.pc = .probing hosts) ∨ s.pc = .roundEnd

/-- What the last event and the status say about the score. -/
structure Agrees (s : Tracker) : Prop where
  event : lastConnected s.log = true ↔ s.config.up < s.score
  online : s.statusFile = some .online → s.score ≠ 0
  offline : s.statusFile = some .offline → ¬ s.config.up < s.score

/-- What the end of an undisturbed round does to the last event: the `down`-th
failure in a row ends a connection, the `up`-th success in a row makes one, and
nothing else does. -/
structure RoundExact (s : Tracker) : Prop where
  failed : s.hostUpCount < s.config.reliability →
    (lastConnected s.finishRound.log = true ↔
      lastConnected s.log = true ∧ failedInARow s.finishRound.log ≠ s.config.down)
  succeeded : s.config.reliability ≤ s.hostUpCount →
    (lastConnected s.finishRound.log = true ↔
      lastConnected s.log = true ∨ succeededInARow s.finishRound.log = s.config.up)

theorem agrees_of_phase {s : Tracker} (h : s.Inv) (hphase : s.Phase) : Agrees s := by
  have hup := h.up_pos
  have hfile := h.statusFile
  have hsucceeded := succeededInARow_nonneg s.log
  cases hlast : lastConnected s.log with
  | true =>
    obtain ⟨hstatus, hscore, hfailed⟩ := hphase.online hlast
    refine ⟨⟨fun _ => by omega, fun _ => hlast⟩, fun _ => by omega, fun hoffline => ?_⟩
    rw [hfile] at hoffline
    rcases hstatus with h | h <;> simp [h] at hoffline
  | false =>
    obtain ⟨hstatus, hscore, hbelow⟩ := hphase.offline hlast
    refine ⟨⟨fun h => absurd (hlast.symm.trans h) (by decide), fun _ => by omega⟩,
      fun honline => ?_, fun _ => by omega⟩
    rw [hfile] at honline
    exact absurd (by simpa using honline) hstatus.1

/-- A round that ends in phase and undisturbed fires its event at the right
count. -/
theorem roundExact_of_phase {s : Tracker} (h : s.Inv) (hphase : s.Phase)
    (hevent : s.anyEvent = false) : RoundExact s := by
  refine ⟨fun hfew => ?_, fun henough => ?_⟩
  · have hlog : s.finishRound.log = s.roundFailed.log := by
      simp [Tracker.finishRound, hevent, hfew]
    rw [hlog]
    cases hlast : lastConnected s.log with
    | true =>
      have hexact := (Tracker.roundFailed_online h.up_pos h.statusFile hphase hlast).1
      rw [← Bool.not_eq_false, hexact]
      simp
    | false => simp [(Tracker.roundFailed_offline h.up_pos hphase hlast).1]
  · have hlog : s.finishRound.log = s.roundSucceeded.log := by
      simp [Tracker.finishRound, hevent, Int.not_lt.mpr henough]
    rw [hlog]
    cases hlast : lastConnected s.log with
    | true => simp [(Tracker.roundSucceeded_online h.down_pos hphase hlast).1]
    | false => simpa using (Tracker.roundSucceeded_offline h.down_pos hphase hlast).1

/-- In every run whose ifup events and reloads keep the phase, at every point of
a round and after every scored round, the last event agrees with the score, and
the round that ends next fires an event exactly at its count. -/
theorem score_agrees_of_reachable {s : Tracker} (hreach : guardedTracker.Reachable s)
    (hround : AtRound s) :
    Agrees s ∧ (s.pc = .probing 0 → s.anyEvent = false → RoundExact s) := by
  have hinv := inv_of_reachable hreach
  have hphase := (hinv.round hround).2
  exact ⟨agrees_of_phase hinv hphase, fun _ hevent => roundExact_of_phase hinv hphase hevent⟩

/-- An interface section with the script's defaults, the given thresholds and one
tracking address. -/
def sampleConfig (up down : Int) : Config :=
  { reliability := 1, down := down, up := up, interval := 10, failureInterval := 10
    keepFailureInterval := false, recoveryInterval := 10, checkQuality := false
    failureLatency := 1000, recoveryLatency := 500, failureLoss := 40, recoveryLoss := 10
    initialState := .online, trackIps := 1 }

/-- A usable network with the given thresholds configured. -/
def sampleEnv (up down : Int) : Env :=
  { config := sampleConfig up down, networkIsUp := true, routeIsDown := false }

/-- A start followed by a reload to the given thresholds and one failed round. -/
def reloadThenFail (up down : Int) : List Action :=
  [.loopTop, .reloadSignal, .checkEvents (sampleEnv up down), .loopTop,
    .checkEvents (sampleEnv up down), .probeHost { result := 1, loss := 0, latency := 0 },
    .finishRound]

/-- The state that list of steps ends in, from thresholds 5 and 5. -/
def afterReloadAndFailure (up down : Int) : Tracker :=
  ((reloadThenFail up down).foldlM next (Tracker.start (sampleEnv 5 5) none)).getD
    (Tracker.start (sampleEnv 5 5) none)

/-- With a reload from 5 and 5 to 4 and 4, which clamps the score. -/
theorem score_agrees_after_reload : Agrees (afterReloadAndFailure 4 4) := by
  have hstart : guardedTracker.Reachable (Tracker.start (sampleEnv 5 5) none) :=
    .start ⟨⟨sampleEnv 5 5, none, rfl⟩, by decide, by decide⟩
  exact (score_agrees_of_reachable
    (System.reachable_restrict_of_foldlM hstart (reloadThenFail 4 4) (by decide))
    (.inr (by decide))).1

/-- A reload from 5 and 5 to 12 and 5 moves `up` above the score, and the next
failed round leaves the interface online with score 0 and without an event. -/
theorem not_score_agrees_of_reload :
    ¬ ∀ s : Tracker, tracker.Reachable s → AtRound s → Agrees s := by
  intro hall
  have hstart : tracker.Reachable (Tracker.start (sampleEnv 5 5) none) :=
    .start ⟨sampleEnv 5 5, none, rfl⟩
  have hagrees := hall (afterReloadAndFailure 12 5)
    (System.reachable_of_foldlM hstart (reloadThenFail 12 5) (by decide)) (.inr (by decide))
  exact hagrees.online (by decide) (by decide)

end OpenWrt.Mwan3.Track
