/-
# Runs of a labelled transition system

The components of the repository are verified over whole runs: a state is
reachable when some sequence of labelled steps leads to it from an initial
state. The one induction over runs is packaged here, so that a safety result is
always two small goals, the initial states and one step.

Restricting a system keeps its states and removes the steps whose label is
refused in the state where they are taken. A property of the runs that meet a
condition step by step is a property of the restricted system.
-/

import Mathlib.Data.List.Basic

namespace OpenWrt.Lib

universe us ul

/-- The states a component may start in and what one labelled step may do. -/
structure System (State : Type us) (Label : Type ul) where
  /-- The states a run may start in. -/
  init : State → Prop
  /-- One step from the first state to the second under the label. -/
  step : State → Label → State → Prop

namespace System

variable {State : Type us} {Label : Type ul}

/-- The states some run ends in. -/
inductive Reachable (S : System State Label) : State → Prop
  | /-- A run of no step. -/
    start {state : State} (isInit : S.init state) : Reachable S state
  | /-- One step after a run. -/
    step {source target : State} (prior : Reachable S source) (label : Label)
      (realized : S.step source label target) : Reachable S target

/-- A property of the initial states that every step keeps holds of every
reachable state. -/
theorem Reachable.invariant {S : System State Label} {I : State → Prop}
    (hinit : ∀ state, S.init state → I state)
    (hstep : ∀ source label target, I source → S.step source label target → I target)
    {state : State} (hreach : S.Reachable state) : I state := by
  induction hreach with
  | start isInit => exact hinit _ isInit
  | step prior label realized ih => exact hstep _ label _ ih realized

/-- Keep only the steps whose source and label satisfy `guard`. -/
def restrict (S : System State Label) (guard : State → Label → Prop) :
    System State Label where
  init := S.init
  step source label target := guard source label ∧ S.step source label target

/-- The system of a step function that refuses the labels it has no step for. -/
def ofFn (init : State → Prop) (next : State → Label → Option State) :
    System State Label where
  init := init
  step source label target := next source label = some target

/-- Running a step function over a list of labels reaches the state it returns. -/
theorem reachable_of_foldlM {init : State → Prop} {next : State → Label → Option State}
    {source target : State} (hsource : (ofFn init next).Reachable source)
    (labels : List Label) (hrun : labels.foldlM next source = some target) :
    (ofFn init next).Reachable target := by
  induction labels generalizing source with
  | nil =>
    cases hrun
    exact hsource
  | cons label labels ih =>
    rw [List.foldlM_cons, Option.bind_eq_bind, Option.bind_eq_some_iff] at hrun
    obtain ⟨middle, hstep, hrest⟩ := hrun
    exact ih (hsource.step label hstep) hrest

def ofTotal (init : State → Prop) (apply : State → Label → State) : System State Label where
  init := init
  step source label target := apply source label = target

theorem reachable_of_foldl {init : State → Prop} {apply : State → Label → State}
    {source : State} (hsource : (ofTotal init apply).Reachable source) (labels : List Label) :
    (ofTotal init apply).Reachable (labels.foldl apply source) := by
  induction labels generalizing source with
  | nil => exact hsource
  | cons label labels ih => exact ih (hsource.step label rfl)

/-- The same for a restricted system, the guard being decided along the way. -/
theorem reachable_restrict_of_foldlM {init : State → Prop}
    {next : State → Label → Option State} {guard : State → Label → Prop}
    [∀ state label, Decidable (guard state label)] {source target : State}
    (hsource : ((ofFn init next).restrict guard).Reachable source) (labels : List Label)
    (hrun : labels.foldlM
      (fun state label => if guard state label then next state label else none) source =
        some target) :
    ((ofFn init next).restrict guard).Reachable target := by
  induction labels generalizing source with
  | nil =>
    cases hrun
    exact hsource
  | cons label labels ih =>
    rw [List.foldlM_cons, Option.bind_eq_bind, Option.bind_eq_some_iff] at hrun
    obtain ⟨middle, hstep, hrest⟩ := hrun
    split at hstep
    case isTrue hguard => exact ih (hsource.step label ⟨hguard, hstep⟩) hrest
    case isFalse => cases hstep

end System

/-! ## Facts that a run keeps -/

section Facts

variable {State : Type us} {Label : Type ul} {Fact : Type*} {apply : State → Label → State}

/-- The condition holds at every step of the run over the labels. -/
def Along (apply : State → Label → State) (P : State → Label → Prop) :
    List Label → State → Prop
  | [], _ => True
  | label :: labels, state => P state label ∧ Along apply P labels (apply state label)

variable {P : State → Label → Prop} {labels : List Label} {state : State}

theorem System.reachable_of_along {S : System State Label}
    (hstep : ∀ state label, P state label → S.step state label (apply state label))
    (hstate : S.Reachable state) (halong : Along apply P labels state) :
    S.Reachable (labels.foldl apply state) := by
  induction labels generalizing state with
  | nil => exact hstate
  | cons label labels ih =>
    exact ih (hstate.step label (hstep state label halong.1)) halong.2

/-- An invariant that every step under a condition keeps holds after each prefix of a run whose
steps meet the condition. -/
theorem invariant_take_of_along {Inv : State → Prop}
    (hkeeps : ∀ state, ∀ label ∈ labels, Inv state → P state label → Inv (apply state label))
    (halong : Along apply P labels state) (hinv : Inv state) (n : ℕ) :
    Inv ((labels.take n).foldl apply state) := by
  induction labels generalizing state n with
  | nil =>
    rw [List.take_nil]
    exact hinv
  | cons label labels ih =>
    cases n with
    | zero => exact hinv
    | succ n =>
      exact ih (fun state label hmem => hkeeps state label (List.mem_cons_of_mem _ hmem))
        halong.2 (hkeeps state label List.mem_cons_self hinv halong.1) n

theorem Along.imp {P Q : State → Label → Prop} (halong : Along apply P labels state)
    (himp : ∀ state label, P state label → Q state label) : Along apply Q labels state := by
  induction labels generalizing state with
  | nil => trivial
  | cons label labels ih => exact ⟨himp _ _ halong.1, ih halong.2⟩

/-- A condition that holds along a run holds at each of its steps. -/
theorem Along.getElem? (halong : Along apply P labels state) {n : ℕ} {label : Label}
    (hlabel : labels[n]? = some label) : P ((labels.take n).foldl apply state) label := by
  induction labels generalizing state n with
  | nil => cases hlabel
  | cons head labels ih =>
    cases n with
    | zero =>
      cases hlabel
      exact halong.1
    | succ n => exact ih halong.2 hlabel

/-- Where an invariant makes the states good, steps that meet a condition keep it and are fair,
and steps that do not are unfair or leave a bad state, all the states of a run are good and
all its steps fair exactly when its steps meet the condition. -/
theorem along_iff_forall_take_and_getElem? {Inv Good : State → Prop} {P Q : State → Label → Prop}
    (hgood : ∀ state, Inv state → Good state)
    (hkeeps : ∀ state, ∀ label ∈ labels, Inv state → P state label → Inv (apply state label))
    (hfair : ∀ state, ∀ label ∈ labels, Inv state → P state label → Q state label)
    (hbad : ∀ state, ∀ label ∈ labels, Inv state → Good (apply state label) → Q state label →
      P state label) (hinv : Inv state) :
    Along apply P labels state ↔ ∀ n, Good ((labels.take n).foldl apply state) ∧
      ∀ label, labels[n]? = some label → Q ((labels.take n).foldl apply state) label := by
  constructor
  · intro halong n
    have hstate := invariant_take_of_along hkeeps halong hinv n
    exact ⟨hgood _ hstate, fun label hlabel =>
      hfair _ label (List.mem_of_getElem? hlabel) hstate (halong.getElem? hlabel)⟩
  · clear hgood hfair
    induction labels generalizing state with
    | nil => exact fun _ => trivial
    | cons label labels ih =>
      intro hall
      have hmem : label ∈ label :: labels := List.mem_cons_self
      have hmeets := hbad state label hmem hinv (hall 1).1 ((hall 0).2 label rfl)
      exact ⟨hmeets, ih
        (fun state label hmem => hkeeps state label (List.mem_cons_of_mem _ hmem))
        (fun state label hmem => hbad state label (List.mem_cons_of_mem _ hmem))
        (hkeeps state label hmem hinv hmeets) fun n => hall (n + 1)⟩

/-- Where an invariant makes the states good, steps that meet a condition keep it, and steps
that do not leave a bad state, all the states of a run are good exactly when its steps meet
the condition. -/
theorem along_iff_forall_take_of_invariant {Inv Good : State → Prop}
    (hgood : ∀ state, Inv state → Good state)
    (hkeeps : ∀ state, ∀ label ∈ labels, Inv state → P state label → Inv (apply state label))
    (hbad : ∀ state, ∀ label ∈ labels, Inv state → Good (apply state label) → P state label)
    (hinv : Inv state) :
    Along apply P labels state ↔ ∀ n, Good ((labels.take n).foldl apply state) := by
  rw [along_iff_forall_take_and_getElem? (Q := fun _ _ => True) hgood hkeeps
    (fun _ _ _ _ _ => trivial) (fun state label hmem hstate hafter _ =>
      hbad state label hmem hstate hafter) hinv]
  exact forall_congr' fun n => and_iff_left fun _ _ => trivial

/-- Where a step from a good state leads to a good state exactly under a condition, all the
states of a run are good exactly when its steps meet the condition. -/
theorem along_iff_forall_take {Good : State → Prop}
    (hstep : ∀ state, ∀ label ∈ labels, Good state → (Good (apply state label) ↔ P state label))
    (hgood : Good state) :
    Along apply P labels state ↔ ∀ n, Good ((labels.take n).foldl apply state) :=
  along_iff_forall_take_of_invariant (fun _ h => h)
    (fun state label hmem h => (hstep state label hmem h).mpr)
    (fun state label hmem h => (hstep state label hmem h).mp) hgood

variable {holds : State → Fact → Prop} {touches : State → Label → Fact → Prop}

theorem holds_of_foldl (hstep : ∀ state label fact,
      holds (apply state label) fact ↔ holds state fact ∧ ¬ touches state label fact) {fact : Fact}
    (hend : holds (labels.foldl apply state) fact) : holds state fact := by
  induction labels generalizing state with
  | nil => exact hend
  | cons label labels ih => exact ((hstep state label fact).mp (ih hend)).1

/-- Where a step removes exactly the facts it touches, a run keeps all facts exactly when
no step touches one that holds. -/
theorem foldl_keeps_iff
    (hstep : ∀ state label fact,
      holds (apply state label) fact ↔ holds state fact ∧ ¬ touches state label fact)
    (labels : List Label) (state : State) :
    (∀ fact, holds (labels.foldl apply state) fact ↔ holds state fact) ↔
      Along apply (fun state label => ∀ fact, touches state label fact → ¬ holds state fact)
        labels state := by
  induction labels generalizing state with
  | nil => simp [Along]
  | cons label labels ih =>
    simp only [List.foldl_cons, Along]
    constructor
    · intro hkeeps
      have hfirst : ∀ fact, holds (apply state label) fact ↔ holds state fact := fun fact =>
        ⟨fun h => ((hstep state label fact).mp h).1,
          fun h => holds_of_foldl hstep ((hkeeps fact).mpr h)⟩
      refine ⟨fun fact htouch hold => ?_, (ih _).mp fun fact => ?_⟩
      · exact ((hstep state label fact).mp ((hfirst fact).mpr hold)).2 htouch
      · exact (hkeeps fact).trans (hfirst fact).symm
    · rintro ⟨huntouched, hrest⟩ fact
      rw [(ih _).mpr hrest fact, hstep]
      exact ⟨And.left, fun hold => ⟨hold, fun htouch => huntouched fact htouch hold⟩⟩

end Facts

end OpenWrt.Lib
