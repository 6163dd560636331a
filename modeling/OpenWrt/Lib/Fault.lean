/-
# Computations that may fault

A program that checks each access is a computation that returns a value or stops with a
fault. `Avoids bad Q x` says that whatever `x` returns satisfies `Q`, and that where it
stops it is not with a fault of the kind `bad`: other faults are left open. The rules
follow the structure of the computation, and a run of such steps keeps what every step
keeps, as long as the steps meet the condition they need.
-/

import Mathlib.Data.List.Basic

namespace OpenWrt.Lib

universe u v

variable {ε : Type u} {α β : Type v} {bad : ε → Prop}

/-- The computation returns only values of `Q` and stops with no bad fault. -/
def Avoids (bad : ε → Prop) (Q : α → Prop) : Except ε α → Prop
  | .ok a => Q a
  | .error e => ¬ bad e

variable {Q : α → Prop} {x : Except ε α}

theorem avoids_pure {a : α} (h : Q a) :
    Avoids bad Q (pure a : Except ε α) := h

theorem avoids_bind {P : α → Prop} {Q : β → Prop} {f : α → Except ε β} (hx : Avoids bad P x)
    (hf : ∀ a, P a → Avoids bad Q (f a)) : Avoids bad Q (x >>= f) := by
  cases x with
  | ok a => exact hf a hx
  | error e => exact hx

theorem Avoids.mono {P Q : α → Prop} (hx : Avoids bad P x) (h : ∀ a, P a → Q a) :
    Avoids bad Q x := by
  cases x with
  | ok a => exact h a hx
  | error e => exact hx

theorem Avoids.of_ok {a : α} (hx : Avoids bad Q x) (h : x = .ok a) : Q a := by
  subst h
  exact hx

/-- Whatever is returned satisfies `Q`, and every fault is left open. -/
def Yields (Q : α → Prop) (x : Except ε α) : Prop := Avoids (fun _ => False) Q x

theorem yields_pure {a : α} (h : Q a) : Yields Q (pure a : Except ε α) := h

theorem yields_bind {P : α → Prop} {Q : β → Prop} {f : α → Except ε β} (hx : Yields P x)
    (hf : ∀ a, P a → Yields Q (f a)) : Yields Q (x >>= f) := avoids_bind hx hf

theorem Yields.mono {P Q : α → Prop} (hx : Yields P x) (h : ∀ a, P a → Q a) :
    Yields Q x := Avoids.mono hx h

theorem Yields.of_ok {a : α} (hx : Yields Q x) (h : x = .ok a) :
    Q a := Avoids.of_ok hx h

theorem yields_self (x : Except ε α) : Yields (fun a => x = .ok a) x := by
  cases x with
  | ok a => exact rfl
  | error e => exact id

theorem yields_map {Q : β → Prop} {f : α → β} (h : ∀ a, Q (f a)) : Yields Q (x.map f) := by
  cases x with
  | ok a => exact h a
  | error e => exact fun h => h

/-! ## The exact condition -/

section Exact

variable {c c' : Prop} {P Q : α → Prop} {R : β → Prop} {x : Except ε α}

/-- The computation returns exactly under a condition, and only values of `Q`. -/
def ReturnsIff (c : Prop) (Q : α → Prop) : Except ε α → Prop
  | .ok a => c ∧ Q a
  | .error _ => ¬ c

theorem returnsIff_pure {a : α} (hc : c) (h : Q a) : ReturnsIff c Q (pure a : Except ε α) := ⟨hc, h⟩

theorem returnsIff_of_avoids (hc : c) (hx : Avoids (fun _ => True) Q x) : ReturnsIff c Q x := by
  cases x with
  | ok a => exact ⟨hc, hx⟩
  | error e => exact absurd trivial hx

theorem ReturnsIff.avoids (hx : ReturnsIff c Q x) (hc : c) : Avoids (fun _ => True) Q x := by
  cases x with
  | ok a => exact hx.2
  | error e => exact absurd hc hx

theorem ReturnsIff.mono (hx : ReturnsIff c Q x) (hc : c ↔ c') (h : ∀ a, Q a → P a) :
    ReturnsIff c' P x := by
  cases x with
  | ok a => exact ⟨hc.mp hx.1, h a hx.2⟩
  | error e => exact fun h' => hx (hc.mpr h')

theorem ReturnsIff.of_ok {a : α} (hx : ReturnsIff c Q x) (h : x = .ok a) : c ∧ Q a := by
  subst h
  exact hx

theorem ReturnsIff.exists_ok_iff (hx : ReturnsIff c Q x) : (∃ a, x = .ok a) ↔ c := by
  cases x with
  | ok a => exact iff_of_true ⟨a, rfl⟩ hx.1
  | error e =>
    refine iff_of_false ?_ hx
    rintro ⟨a, h⟩
    cases h

theorem ReturnsIff.map (hx : ReturnsIff c Q x) {f : α → β} (h : ∀ a, Q a → R (f a)) :
    ReturnsIff c R (x.map f) := by
  cases x with
  | ok a => exact ⟨hx.1, h a hx.2⟩
  | error e => exact hx

variable {f : α → Except ε β}

theorem returnsIff_bind_and (hx : ReturnsIff c P x) (hf : ∀ a, P a → ReturnsIff c' R (f a)) :
    ReturnsIff (c ∧ c') R (x >>= f) := by
  cases x with
  | error e => exact fun h => hx h.1
  | ok a => exact (hf a hx.2).mono ⟨fun h => ⟨hx.1, h⟩, And.right⟩ fun _ h => h

theorem returnsIff_bind_avoids (hx : ReturnsIff c P x)
    (hf : ∀ a, P a → Avoids (fun _ => True) R (f a)) : ReturnsIff c R (x >>= f) := by
  cases x with
  | error e => exact hx
  | ok a => exact returnsIff_of_avoids hx.1 (hf a hx.2)

theorem returnsIff_bind_of_avoids (hx : Avoids (fun _ => True) P x)
    (hf : ∀ a, P a → ReturnsIff c R (f a)) : ReturnsIff c R (x >>= f) := by
  cases x with
  | ok a => exact hf a hx
  | error e => exact absurd trivial hx

end Exact

/-! ## Runs -/

section Runs

variable {State Event : Type*}

/-- The condition holds at every step that the run over the events takes. -/
def MeetsAlong (step : State → Event → Except ε State) (meets : State → Event → Prop) :
    State → List Event → Prop
  | _, [] => True
  | state, event :: events =>
    meets state event ∧ ∀ next ∈ (step state event).toOption, MeetsAlong step meets next events

instance decidableMeetsAlong {step : State → Event → Except ε State}
    {meets : State → Event → Prop} [∀ state event, Decidable (meets state event)] :
    ∀ state events, Decidable (MeetsAlong step meets state events)
  | _, [] => isTrue trivial
  | state, event :: events =>
    have (next : State) : Decidable (MeetsAlong step meets next events) :=
      decidableMeetsAlong next events
    inferInstanceAs (Decidable (meets state event ∧
      ∀ next ∈ (step state event).toOption, MeetsAlong step meets next events))

variable {step : State → Event → Except ε State} {I : State → Prop} {events : List Event}
  {state : State}

/-- A run keeps what every step that meets the condition keeps. -/
theorem avoids_run {meets : State → Event → Prop}
    (hstep : ∀ state event, I state → meets state event → Avoids bad I (step state event))
    (hstate : I state) (hmeets : MeetsAlong step meets state events) :
    Avoids bad I (events.foldlM step state) := by
  induction events generalizing state with
  | nil => exact hstate
  | cons event events ih =>
    obtain ⟨hfirst, hrest⟩ := hmeets
    have hone := hstep state event hstate hfirst
    rw [List.foldlM_cons]
    cases hnext : step state event with
    | ok next =>
      rw [hnext] at hone hrest
      exact ih hone (hrest next rfl)
    | error e =>
      rw [hnext] at hone
      exact hone

/-- A run whose steps return exactly under a condition returns exactly when they all meet it. -/
theorem returnsIff_run {meets : State → Event → Prop}
    (hstep : ∀ state event, I state → ReturnsIff (meets state event) I (step state event))
    (hstate : I state) :
    ReturnsIff (MeetsAlong step meets state events) I (events.foldlM step state) := by
  induction events generalizing state with
  | nil => exact ⟨trivial, hstate⟩
  | cons event events ih =>
    have hone := hstep state event hstate
    rw [List.foldlM_cons]
    unfold MeetsAlong
    cases hnext : step state event with
    | error e =>
      rw [hnext] at hone
      exact fun h => hone h.1
    | ok next =>
      rw [hnext] at hone
      refine (ih hone.2).mono ?_ fun _ h => h
      constructor
      · intro h
        refine ⟨hone.1, fun next' hnext' => ?_⟩
        cases hnext'
        exact h
      · exact fun h => h.2 next rfl

/-- A fold whose turns return exactly under a condition on the element returns exactly where it
holds for all of them. -/
theorem returnsIff_foldlM {meets : Event → Prop}
    (hstep : ∀ state event, ReturnsIff (meets event) (fun _ => True) (step state event)) :
    ReturnsIff (∀ event ∈ events, meets event) (fun _ => True) (events.foldlM step state) := by
  induction events generalizing state with
  | nil => exact ⟨fun event hevent => (by cases hevent), trivial⟩
  | cons event events ih =>
    rw [List.foldlM_cons]
    exact (returnsIff_bind_and (hstep state event) fun next _ => ih).mono
      List.forall_mem_cons.symm fun _ h => h

/-- A fold over different keys whose turns change nothing but what is kept under their own key. -/
theorem returnsIff_foldlM_nodup {Key Value : Type*} {step : State → Key → Except ε State}
    (read : State → Key → Value) (meets : Key → Value → Prop) (made : Key → Value → Value → Prop)
    (hstep : ∀ state key, ReturnsIff (meets key (read state key)) (fun next =>
      (∀ other, other ≠ key → read next other = read state other) ∧
        made key (read state key) (read next key)) (step state key)) {keys : List Key}
    (hkeys : keys.Nodup) :
    ReturnsIff (∀ key ∈ keys, meets key (read state key)) (fun result =>
      (∀ other, other ∉ keys → read result other = read state other) ∧
        ∀ key ∈ keys, made key (read state key) (read result key)) (keys.foldlM step state) := by
  induction keys generalizing state with
  | nil => exact ⟨by simp, by simp⟩
  | cons key keys ih =>
    obtain ⟨hnot, hkeys⟩ := List.nodup_cons.mp hkeys
    rw [List.foldlM_cons]
    refine ReturnsIff.mono (returnsIff_bind_and (hstep state key) ?_)
      (List.forall_mem_cons (p := fun k => meets k (read state k))).symm fun _ h => h
    rintro next ⟨hkept, hmade⟩
    have hsame : ∀ k ∈ keys, read next k = read state k :=
      fun k hk => hkept k (ne_of_mem_of_not_mem hk hnot)
    refine (ih hkeys).mono (forall₂_congr fun k hk => by rw [hsame k hk]) ?_
    intro result ⟨hothers, hall⟩
    constructor
    · intro other hother
      obtain ⟨hne, hout⟩ := not_or.mp (mt List.mem_cons.mpr hother)
      rw [hothers other hout, hkept other hne]
    · rw [List.forall_mem_cons, hothers key hnot]
      exact ⟨hmade, fun k hk => hsame k hk ▸ hall k hk⟩

theorem avoids_foldlM (hstep : ∀ state, ∀ event ∈ events, I state → Avoids bad I (step state event))
    (hstate : I state) : Avoids bad I (events.foldlM step state) := by
  induction events generalizing state with
  | nil => exact hstate
  | cons event events ih =>
    rw [List.foldlM_cons]
    exact avoids_bind (hstep state event List.mem_cons_self hstate) fun next hnext =>
      ih (fun state other hother => hstep state other (List.mem_cons_of_mem event hother)) hnext

end Runs

/-! ## Two computations -/

section Twin

variable {State State' Event : Type*} {R : State → State' → Prop}

/-- Both computations stop with the same fault, or return values that are related. -/
def Twin (R : State → State' → Prop) : Except ε State → Except ε State' → Prop
  | .ok a, .ok b => R a b
  | .error e, .error e' => e = e'
  | _, _ => False

theorem Twin.map {Next Next' : Type*} {R' : Next → Next' → Prop} {x : Except ε State}
    {y : Except ε State'} (h : Twin R x y) {f : State → Next} {g : State' → Next'}
    (hfg : ∀ a b, R a b → R' (f a) (g b)) : Twin R' (x.map f) (y.map g) := by
  cases x with
  | ok a =>
    cases y with
    | ok b => exact hfg a b h
    | error e => exact h.elim
  | error e =>
    cases y with
    | ok b => exact h.elim
    | error e' => exact h

theorem Twin.eq {x y : Except ε State} (h : Twin Eq x y) : x = y := by
  cases x with
  | ok a =>
    cases y with
    | ok b => exact congrArg Except.ok h
    | error e => exact h.elim
  | error e =>
    cases y with
    | ok b => exact h.elim
    | error e' => exact congrArg Except.error h

/-- Two folds are related where each of their turns is. -/
theorem twin_foldlM {step : State → Event → Except ε State}
    {step' : State' → Event → Except ε State'} {events : List Event} {state : State}
    {state' : State'}
    (hstep : ∀ a b, ∀ event ∈ events, R a b → Twin R (step a event) (step' b event))
    (hstate : R state state') :
    Twin R (events.foldlM step state) (events.foldlM step' state') := by
  induction events generalizing state state' with
  | nil => exact hstate
  | cons event events ih =>
    have hone := hstep state state' event List.mem_cons_self hstate
    rw [List.foldlM_cons, List.foldlM_cons]
    cases hnext : step state event with
    | ok next =>
      cases hnext' : step' state' event with
      | ok next' =>
        rw [hnext, hnext'] at hone
        exact ih (fun a b other hother =>
          hstep a b other (List.mem_cons_of_mem event hother)) hone
      | error e =>
        rw [hnext, hnext'] at hone
        exact hone.elim
    | error e =>
      cases hnext' : step' state' event with
      | ok next' =>
        rw [hnext, hnext'] at hone
        exact hone.elim
      | error e' =>
        rw [hnext, hnext'] at hone
        exact hone

end Twin

end OpenWrt.Lib
