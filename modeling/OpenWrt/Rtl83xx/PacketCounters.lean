/-
# Packet counters

Two packet counters share the cell of an octet counter. A bit that is set says that a packet counter
is free, and a cell whose octet counter is not in use has two more that no bit shows yet. A counter is
given to a rule when it is made, and only the removal of a route gives one back: the one the route
names, whether it got it or not. Flower rules keep theirs for good, and a route that is resolved again
before its rule found a place gets another.
-/

import Mathlib.Data.Int.Notation
import OpenWrt.Lib.Run

namespace OpenWrt.Rtl83xx.PacketCounters

open OpenWrt.Lib

/-- Flower rules are known by their cookies, and routes by their numbers. -/
inductive Key where
  | flower (cookie : ℕ)
  | route (id : ℕ)
deriving DecidableEq

/-- What a rule has in `packet_cntr`, and whether it has a place in the table. `held` is the counter
that was allocated for it last. -/
structure Rule where
  packetCntr : ℤ
  placed : Bool
  held : Option ℕ

structure State where
  packetCntrUseBm : ℤ → Bool
  octetCntrUseBm : ℕ → Bool
  rules : Key → Option Rule

/-- Events of the rules. Where a rule is placed it is for the table to say. An update of a neighbour
resolves each of its routes. -/
inductive Event where
  | configureFlower (cookie : ℕ) (placed : Bool)
  | deleteFlower (cookie : ℕ)
  | fibAdd (id : ℕ)
  | nexthopUpdate (id : ℕ) (placed : Bool)
  | fibDel (id : ℕ)

section Model

variable (nCounters : ℕ)

/-- `rtl83xx_packet_cntr_alloc`. A bit that is set above the counters counts as none. -/
def packetCntrAlloc (s : State) : Option ℕ × State :=
  match (List.range (nCounters * 2)).find? fun (idx : ℕ) => s.packetCntrUseBm idx with
  | some idx =>
      (some idx, { s with packetCntrUseBm := Function.update s.packetCntrUseBm idx false })
  | none =>
      match (List.range nCounters).find? fun j => !s.octetCntrUseBm j with
      | none => (none, s)
      | some j =>
          (some (j * 2),
            { s with
              octetCntrUseBm := Function.update s.octetCntrUseBm j true
              packetCntrUseBm := Function.update s.packetCntrUseBm ((j * 2 + 1 : ℕ) : ℤ) true })

/-- A rule gets a counter, or -1. -/
def giveCounter (s : State) (k : Key) (placed : Bool) : State :=
  let a := packetCntrAlloc nCounters s
  { a.2 with
    rules := Function.update s.rules k
      (some ⟨match a.1 with | some c => (c : ℤ) | none => -1, placed, a.1⟩) }

def apply (s : State) : Event → State
  -- `rtl83xx_configure_flower`
  | .configureFlower cookie placed =>
      if (s.rules (.flower cookie)).isSome then s
      else giveCounter nCounters s (.flower cookie) placed
  -- `rtl83xx_delete_flower`
  | .deleteFlower cookie => { s with rules := Function.update s.rules (.flower cookie) none }
  -- `otto_l3_route_alloc` clears the memory of the route
  | .fibAdd id =>
      if (s.rules (.route id)).isSome then s
      else { s with rules := Function.update s.rules (.route id) (some ⟨0, false, none⟩) }
  -- `otto_l3_nexthop_update`
  | .nexthopUpdate id placed =>
      match s.rules (.route id) with
      | none => s
      | some r => if r.placed then s else giveCounter nCounters s (.route id) placed
  -- `otto_l3_fib_del_v4`
  | .fibDel id =>
      match s.rules (.route id) with
      | none => s
      | some r =>
          { s with
            packetCntrUseBm := Function.update s.packetCntrUseBm r.packetCntr true
            rules := Function.update s.rules (.route id) none }

def State.start : State := ⟨fun _ => false, fun _ => false, fun _ => none⟩

end Model

/-- A rule that is there holds the counter. -/
def State.Holds (s : State) (k : Key) (c : ℕ) : Prop := ∃ r, s.rules k = some r ∧ r.held = some c

/-- A counter that can be allocated. -/
def State.Free (s : State) (c : ℕ) : Prop :=
  s.packetCntrUseBm c = true ∨ s.octetCntrUseBm (c / 2) = false

/-- No counter is held twice, and without rules all can be allocated. -/
def State.Good (nCounters : ℕ) (s : State) : Prop :=
  (∀ k k' c, s.Holds k c → s.Holds k' c → k = k') ∧
    ((∀ k, s.rules k = none) → ∀ c < nCounters * 2, s.Free c)

/-- A counter that is released is held by the rule that goes. -/
def StepRight (s : State) : Event → Prop
  | .fibDel id => ∀ r, s.rules (.route id) = some r →
      ∃ c : ℕ, r.packetCntr = c ∧ s.Holds (.route id) c
  | _ => True

/-- A flower rule that is deleted, or a route whose rule is made again, holds no counter, and a route
that is deleted holds one. -/
def Accounted (s : State) : Event → Prop
  | .deleteFlower cookie => ∀ c, ¬ s.Holds (.flower cookie) c
  | .nexthopUpdate id _ => ∀ r, s.rules (.route id) = some r → r.placed = false → r.held = none
  | .fibDel id => ∀ r, s.rules (.route id) = some r → r.held ≠ none
  | _ => True

/-- Each counter is free or held by one rule, which names it. -/
structure Inv (nCounters : ℕ) (s : State) : Prop where
  inj : ∀ k k' c, s.Holds k c → s.Holds k' c → k = k'
  free_iff : ∀ c < nCounters * 2, s.Free c ↔ ∀ k, ¬ s.Holds k c
  lt : ∀ k c, s.Holds k c → c < nCounters * 2
  octet : ∀ c : ℕ, s.packetCntrUseBm c = true → s.octetCntrUseBm (c / 2) = true
  names : ∀ k r c, s.rules k = some r → r.held = some c → r.packetCntr = c

theorem Inv.good {nCounters : ℕ} {s : State} (h : Inv nCounters s) : s.Good nCounters := by
  refine ⟨h.inj, fun hnone c hc => (h.free_iff c hc).mpr ?_⟩
  rintro k ⟨r, hr, -⟩
  rw [hnone] at hr
  cases hr

section Steps

variable {nCounters : ℕ} {s : State}

theorem holds_update {rules : Key → Option Rule} {bm : ℤ → Bool} {octet : ℕ → Bool} {k k' : Key}
    {r : Option Rule} {c : ℕ} :
    State.Holds ⟨bm, octet, Function.update rules k r⟩ k' c ↔
      if k' = k then ∃ r', r = some r' ∧ r'.held = some c else State.Holds ⟨bm, octet, rules⟩ k' c := by
  by_cases h : k' = k
  · subst h
    simp [State.Holds]
  · simp [State.Holds, h]

theorem packetCntrAlloc_spec (hoctet : ∀ c : ℕ, s.packetCntrUseBm c = true →
    s.octetCntrUseBm (c / 2) = true) {c : ℕ} (h : (packetCntrAlloc nCounters s).1 = some c) :
    c < nCounters * 2 ∧ s.Free c ∧
      (∀ c' : ℕ, (packetCntrAlloc nCounters s).2.Free c' ↔ s.Free c' ∧ c' ≠ c) ∧
      ∀ c' : ℕ, (packetCntrAlloc nCounters s).2.packetCntrUseBm c' = true →
        (packetCntrAlloc nCounters s).2.octetCntrUseBm (c' / 2) = true := by
  rw [packetCntrAlloc] at h ⊢
  cases hfind : (List.range (nCounters * 2)).find? fun (idx : ℕ) => s.packetCntrUseBm idx with
  | some idx =>
      rw [hfind] at h
      cases h
      have hset : s.packetCntrUseBm c = true := by simpa using List.find?_some hfind
      refine ⟨List.mem_range.mp (List.mem_of_find?_eq_some hfind), .inl hset, fun c' => ?_,
        fun c' hc' => hoctet c' ?_⟩
      · by_cases hc : c' = c
        · simp [State.Free, hc, hoctet c hset]
        · simp [State.Free, Int.natCast_inj, hc]
      · by_cases hc : c' = c
        · simp [hc] at hc'
        · simpa [Function.update_apply, Int.natCast_inj, hc] using hc'
  | none =>
      rw [hfind] at h
      simp only at h ⊢
      cases hj : (List.range nCounters).find? fun j => !s.octetCntrUseBm j with
      | none =>
          rw [hj] at h
          cases h
      | some j =>
          rw [hj] at h
          cases h
          have hlt : j < nCounters := List.mem_range.mp (List.mem_of_find?_eq_some hj)
          have hunused : s.octetCntrUseBm j = false := by simpa using List.find?_some hj
          -- No bit is set in a cell whose octet counter is not in use.
          have hclear : ∀ c : ℕ, c / 2 = j → s.packetCntrUseBm c = false := by
            intro c hc
            rw [← Bool.not_eq_true]
            intro hset
            rw [← hc, hoctet c hset] at hunused
            cases hunused
          refine ⟨by omega, .inr (by rw [Nat.mul_div_cancel _ Nat.two_pos, hunused]),
            fun c' => ?_, fun c' hc' => ?_⟩
          · simp only [State.Free, Function.update_apply, Int.natCast_inj]
            by_cases hcell : c' / 2 = j
            · have hwhich : c' = j * 2 ∨ c' = j * 2 + 1 := by omega
              cases hwhich with
              | inl heq =>
                  rw [if_neg (by omega), if_pos hcell, hclear c' hcell]
                  simp [heq]
              | inr heq =>
                  rw [if_pos heq, hcell, hunused]
                  exact iff_of_true (.inl rfl) ⟨.inr rfl, by omega⟩
            · have h1 : c' ≠ j * 2 + 1 := by omega
              have h0 : c' ≠ j * 2 := by omega
              simp [hcell, h1, h0]
          · simp only [Function.update_apply, Int.natCast_inj] at hc' ⊢
            by_cases hcell : c' / 2 = j
            · rw [if_pos hcell]
            · rw [if_neg hcell]
              rw [if_neg (by omega)] at hc'
              exact hoctet c' hc'

theorem packetCntrAlloc_eq_none (h : (packetCntrAlloc nCounters s).1 = none) :
    (packetCntrAlloc nCounters s).2 = s := by
  rw [packetCntrAlloc] at h ⊢
  split at h
  · cases h
  · split at h
    · simp only [*]
    · cases h

theorem holds_giveCounter {k k' : Key} {placed : Bool} {c : ℕ} :
    (giveCounter nCounters s k placed).Holds k' c ↔
      if k' = k then (packetCntrAlloc nCounters s).1 = some c else s.Holds k' c := by
  rw [giveCounter, holds_update]
  by_cases h : k' = k
  · simp [h]
  · rw [if_neg h, if_neg h, packetCntrAlloc]
    split
    · rfl
    · split <;> rfl

theorem Inv.giveCounter (hinv : Inv nCounters s) {k : Key} (hnone : ∀ c, ¬ s.Holds k c)
    (placed : Bool) : Inv nCounters (giveCounter nCounters s k placed) := by
  have hfree : ∀ c, (PacketCounters.giveCounter nCounters s k placed).Free c ↔
      (packetCntrAlloc nCounters s).2.Free c := fun c => Iff.rfl
  have hnames : ∀ k' r c, (PacketCounters.giveCounter nCounters s k placed).rules k' = some r →
      r.held = some c → r.packetCntr = c := by
    intro k' r c hr hheld
    simp only [PacketCounters.giveCounter] at hr
    by_cases hk : k' = k
    · rw [hk, Function.update_self] at hr
      cases hr
      simp only at hheld
      rw [hheld]
    · rw [Function.update_of_ne hk] at hr
      exact hinv.names k' r c hr hheld
  cases halloc : (packetCntrAlloc nCounters s).1 with
  | none =>
      have hsame := packetCntrAlloc_eq_none halloc
      have hholds : ∀ k' c, (PacketCounters.giveCounter nCounters s k placed).Holds k' c ↔
          s.Holds k' c := by
        intro k' c
        rw [holds_giveCounter, halloc]
        split_ifs with hk
        · subst hk
          exact iff_of_false (by simp) (hnone c)
        · rfl
      refine ⟨fun k' k'' c => ?_, fun c hc => ?_, fun k' c => ?_, ?_, hnames⟩
      · rw [hholds, hholds]
        exact hinv.inj k' k'' c
      · rw [hfree, hsame, hinv.free_iff c hc]
        simp only [hholds]
      · rw [hholds]
        exact hinv.lt k' c
      · change ∀ c : ℕ, (packetCntrAlloc nCounters s).2.packetCntrUseBm c = true →
          (packetCntrAlloc nCounters s).2.octetCntrUseBm (c / 2) = true
        rw [hsame]
        exact hinv.octet
  | some c₀ =>
      obtain ⟨hlt, hwas, hiff, hoctet⟩ := packetCntrAlloc_spec hinv.octet halloc
      have hnot : ∀ k', ¬ s.Holds k' c₀ := (hinv.free_iff c₀ hlt).mp hwas
      have hholds : ∀ k' c, (PacketCounters.giveCounter nCounters s k placed).Holds k' c ↔
          s.Holds k' c ∨ k' = k ∧ c = c₀ := by
        intro k' c
        rw [holds_giveCounter, halloc]
        split_ifs with hk
        · subst hk
          simp [hnone c, eq_comm]
        · simp [hk]
      refine ⟨fun k' k'' c => ?_, fun c hc => ?_, fun k' c => ?_, hoctet, hnames⟩
      · rw [hholds, hholds]
        rintro (h | ⟨rfl, rfl⟩) (h' | ⟨rfl, h'⟩)
        · exact hinv.inj k' k'' c h h'
        · exact absurd (h' ▸ h) (hnot k')
        · exact absurd h' (hnot k'')
        · rfl
      · rw [hfree, hiff, hinv.free_iff c hc]
        simp only [hholds, not_or, forall_and, not_and]
        exact and_congr_right fun _ => ⟨fun hne _ _ => hne, fun h => h k rfl⟩
      · rw [hholds]
        rintro (h | ⟨-, rfl⟩)
        · exact hinv.lt k' c h
        · exact hlt

/-- A rule without a counter can come and go. -/
theorem Inv.update (hinv : Inv nCounters s) {k : Key} (hnone : ∀ c, ¬ s.Holds k c)
    {r : Option Rule} (hr : ∀ r', r = some r' → r'.held = none) :
    Inv nCounters { s with rules := Function.update s.rules k r } := by
  have hholds : ∀ k' c, State.Holds { s with rules := Function.update s.rules k r } k' c ↔
      s.Holds k' c := by
    intro k' c
    rw [holds_update]
    split_ifs with hk
    · subst hk
      refine iff_of_false ?_ (hnone c)
      rintro ⟨r', hr', hheld⟩
      rw [hr r' hr'] at hheld
      cases hheld
    · rfl
  refine ⟨fun k' k'' c => ?_, fun c hc => ?_, fun k' c => ?_, hinv.octet, fun k' r' c hr' hheld => ?_⟩
  · rw [hholds, hholds]
    exact hinv.inj k' k'' c
  · simp only [hholds]
    exact hinv.free_iff c hc
  · rw [hholds]
    exact hinv.lt k' c
  · simp only at hr'
    by_cases hk : k' = k
    · rw [hk, Function.update_self] at hr'
      rw [hr r' hr'] at hheld
      cases hheld
    · rw [Function.update_of_ne hk] at hr'
      exact hinv.names k' r' c hr' hheld

theorem not_holds_of_rules_eq_none {k : Key} (h : s.rules k = none) (c : ℕ) : ¬ s.Holds k c := by
  rintro ⟨r, hr, -⟩
  rw [h] at hr
  cases hr

theorem Inv.apply (hinv : Inv nCounters s) {e : Event} (he : Accounted s e) :
    Inv nCounters (apply nCounters s e) := by
  cases e with
  | configureFlower cookie placed =>
      rw [PacketCounters.apply]
      cases hk : s.rules (.flower cookie) with
      | some r => exact hinv
      | none => exact hinv.giveCounter (not_holds_of_rules_eq_none hk) placed
  | deleteFlower cookie => exact hinv.update he fun r' hr' => by cases hr'
  | fibAdd id =>
      rw [PacketCounters.apply]
      cases hk : s.rules (.route id) with
      | some r => exact hinv
      | none =>
          exact hinv.update (not_holds_of_rules_eq_none hk) fun r' hr' => by cases hr'; rfl
  | nexthopUpdate id placed =>
      rw [PacketCounters.apply]
      cases hk : s.rules (.route id) with
      | none => exact hinv
      | some r =>
          simp only
          split_ifs with hplaced
          · exact hinv
          · refine hinv.giveCounter ?_ placed
            rintro c ⟨r', hr', hheld⟩
            rw [he r' hr' (by rw [hk] at hr'; cases hr'; exact Bool.not_eq_true _ ▸ hplaced)]
              at hheld
            cases hheld
  | fibDel id =>
      rw [PacketCounters.apply]
      cases hk : s.rules (.route id) with
      | none => exact hinv
      | some r =>
          change Inv nCounters ⟨Function.update s.packetCntrUseBm r.packetCntr true,
            s.octetCntrUseBm, Function.update s.rules (.route id) none⟩
          obtain ⟨c₀, hheld⟩ := Option.ne_none_iff_exists'.mp (he r hk)
          have hcntr := hinv.names _ r c₀ hk hheld
          have hown : s.Holds (.route id) c₀ := ⟨r, hk, hheld⟩
          have hlt := hinv.lt _ _ hown
          have hholds : ∀ k' c, State.Holds ⟨Function.update s.packetCntrUseBm r.packetCntr true,
              s.octetCntrUseBm, Function.update s.rules (.route id) none⟩ k' c ↔
              s.Holds k' c ∧ k' ≠ .route id := by
            intro k' c
            rw [holds_update]
            split_ifs with hkey
            · simp [hkey]
            · exact (and_iff_left hkey).symm
          -- A counter that is held is in a cell whose octet counter is in use.
          have hused : s.octetCntrUseBm (c₀ / 2) = true := by
            rw [← Bool.not_eq_false]
            exact fun h => (hinv.free_iff c₀ hlt).mp (.inr h) _ hown
          refine ⟨fun k' k'' c => ?_, fun c hc => ?_, fun k' c => ?_, fun c hset => ?_,
            fun k' r' c hr' hheld' => ?_⟩
          · rw [hholds, hholds]
            exact fun h h' => hinv.inj k' k'' c h.1 h'.1
          · simp only [hholds, not_and, not_not]
            by_cases heq : c = c₀
            · subst heq
              refine iff_of_true (.inl ?_) fun k' h => hinv.inj _ _ c h hown
              rw [hcntr]
              exact Function.update_self _ _ _
            · have hsame : State.Free ⟨Function.update s.packetCntrUseBm r.packetCntr true,
                  s.octetCntrUseBm, Function.update s.rules (.route id) none⟩ c ↔ s.Free c := by
                simp [State.Free, Int.natCast_inj, hcntr, heq]
              rw [hsame, hinv.free_iff c hc]
              refine forall_congr' fun k' => ⟨fun h h' => absurd h' h, fun h h' => ?_⟩
              obtain ⟨r', hr', hheld'⟩ := h'
              rw [h ⟨r', hr', hheld'⟩, hk] at hr'
              cases hr'
              exact heq (Option.some.inj (hheld'.symm.trans hheld))
          · rw [hholds]
            exact fun h => hinv.lt k' c h.1
          · rw [hcntr] at hset
            by_cases heq : c = c₀
            · rw [heq]
              exact hused
            · exact hinv.octet c (by simpa [Function.update_apply, Int.natCast_inj, heq] using hset)
          · by_cases hkey : k' = .route id
            · rw [hkey] at hr'
              simp at hr'
            · exact hinv.names k' r' c (by simpa [hkey] using hr') hheld'

theorem Inv.stepRight (hinv : Inv nCounters s) {e : Event} (he : Accounted s e) : StepRight s e := by
  cases e with
  | fibDel id =>
      intro r hr
      obtain ⟨c, hheld⟩ := Option.ne_none_iff_exists'.mp (he r hr)
      exact ⟨c, hinv.names _ r c hr hheld, r, hr, hheld⟩
  | _ => trivial

end Steps

/-- In a run where rules that go or are made again hold no counter, and routes that go hold one, no
counter is held twice, only what is held is released, and all are free once no rule is left. -/
theorem counters_right {nCounters : ℕ} {events : List Event}
    (h : Along (apply nCounters) Accounted events .start) (n : ℕ) :
    ((events.take n).foldl (apply nCounters) .start).Good nCounters ∧
      ∀ e, events[n]? = some e → StepRight ((events.take n).foldl (apply nCounters) .start) e := by
  have hstart : Inv nCounters .start := by
    refine ⟨fun k _ c hk => ?_, fun c _ => ?_, fun k c hk => ?_, fun c hc => ?_,
      fun k r c hr => ?_⟩
    · exact absurd hk (not_holds_of_rules_eq_none rfl c)
    · exact iff_of_true (.inr rfl) fun k => not_holds_of_rules_eq_none rfl c
    · exact absurd hk (not_holds_of_rules_eq_none rfl c)
    · cases hc
    · cases hr
  have hinv := invariant_take_of_along (fun s e _ (hs : Inv nCounters s) he => hs.apply he) h hstart n
  exact ⟨hinv.good, fun e hn => hinv.stepRight (h.getElem? hn)⟩

/-- A route that is resolved and goes. -/
theorem route_comes_and_goes :
    (([.fibAdd 0, .nexthopUpdate 0 true, .fibDel 0] : List Event).foldl (apply 128) .start).Good 128 := by
  have halong : Along (apply 128) Accounted [.fibAdd 0, .nexthopUpdate 0 true, .fibDel 0] .start := by
    refine ⟨trivial, fun r hr _ => ?_, fun r hr => ?_, trivial⟩
    · cases hr
      rfl
    · cases hr
      exact Option.some_ne_none _
  exact (counters_right halong 3).1

/-- The counter of a flower rule is not free after the rule is gone. -/
theorem counter_lost :
    ¬ (([.configureFlower 1 true, .deleteFlower 1] : List Event).foldl (apply 128) .start).Good 128 := by
  intro h
  have hnone : ∀ k, ([.configureFlower 1 true, .deleteFlower 1].foldl (apply 128) .start).rules k =
      none := by
    intro k
    change Function.update (Function.update (fun _ => none) _ _) (.flower 1) none k = none
    by_cases hk : k = .flower 1
    · rw [hk, Function.update_self]
    · rw [Function.update_of_ne hk, Function.update_of_ne hk]
  cases h.2 hnone 0 (by decide) with
  | inl hset => exact absurd hset (by decide)
  | inr hunused => exact absurd hunused (by decide)

end OpenWrt.Rtl83xx.PacketCounters
