/-
# The custom set against the lookup tables

Additions to the custom set are exact: a set has no more of a destination than the
destination itself, however many routes lead there. Deletions are not. The handler
cuts a destination out of the set whenever one route to it goes, so the set stays
what a fresh dump would make it exactly as long as a route goes only when nothing
else that is mirrored overlaps its destination.
-/

import OpenWrt.Lib.Run
import OpenWrt.Mwan3.Rtmon

namespace OpenWrt.Mwan3.Rtmon

open OpenWrt.Lib OpenWrt.Netfilter

variable {family : Family} {nft : IntervalSet (BitVec family.width)}

/-- A route whose destination belongs into the custom set. -/
def Mirrored (env : Env family) (r : Route family) : Prop :=
  r.table ∈ env.extraTables ∧ isUnmirrored r = false

/-- The destination of the route covers the address. -/
def Route.Reaches (r : Route family) (a : BitVec family.width) : Prop :=
  ∃ dst, r.dst = some dst ∧ a ∈ dst.range

/-- Some lookup table holds a route to the address. -/
def Reached (env : Env family) (routes : List (Route family)) (a : BitVec family.width) : Prop :=
  ∃ r ∈ routes, Mirrored env r ∧ r.Reaches a

/-- The kernel's routes with the custom set. -/
structure Mirror (family : Family) (nft : IntervalSet (BitVec family.width)) where
  routes : List (Route family)
  custom : nft.State

namespace Mirror

variable (env : Env family)

/-- The daemon starts with a fresh set. -/
def start (routes : List (Route family)) (custom : nft.State) : Mirror family nft :=
  ⟨routes, repopulateCustomSets env routes custom⟩

/-- A change of a lookup table and the handling of its event. -/
def step (x : Mirror family nft) (change : Change family) : Mirror family nft :=
  if change.Allowed x.routes then
    ⟨change.apply x.routes,
      handleCustomSetEvent change.route (change.event.cmd = .new) x.custom⟩
  else x

/-- The set is the one that a fresh dump of the tables would make. -/
def Agrees (x : Mirror family nft) : Prop :=
  ∀ a, nft.Has x.custom a ↔ nft.Has (repopulateCustomSets env x.routes x.custom) a

/-- No other mirrored route overlaps the destination of the one that goes. -/
def Meets (x : Mirror family nft) : Change family → Prop
  | .add _ | .replace _ => True
  | .delete r => r ∈ x.routes → isUnmirrored r = false →
      ∀ other ∈ x.routes.erase r, Mirrored env other →
        ∀ a, r.Reaches a → ¬ other.Reaches a

end Mirror

variable {env : Env family}

/-! ## What a fresh dump makes of the tables -/

/-- A fresh set has the addresses that some lookup table holds a route to. -/
theorem has_repopulateCustomSets (routes : List (Route family)) (custom : nft.State)
    (a : BitVec family.width) :
    nft.Has (repopulateCustomSets env routes custom) a ↔ Reached env routes a := by
  unfold repopulateCustomSets
  split
  case isTrue hnone =>
    refine iff_of_false (nft.has_flush custom a) ?_
    rintro ⟨r, -, ⟨htable, -⟩, -⟩
    rw [hnone] at htable
    cases htable
  case isFalse =>
    rw [nft.has_refill]
    constructor
    · rintro ⟨range, hrange, ha⟩
      obtain ⟨dst, hdst, rfl⟩ := List.mem_map.mp hrange
      obtain ⟨r, hr, hrdst⟩ := List.mem_filterMap.mp (List.mem_eraseDups.mp hdst)
      simp only [List.mem_filter, Bool.and_eq_true, List.contains_iff_mem,
        Bool.not_eq_true'] at hr
      exact ⟨r, hr.1, hr.2, dst, hrdst, ha⟩
    · rintro ⟨r, hr, hmirrored, dst, hdst, ha⟩
      refine ⟨dst.range, List.mem_map.mpr ⟨dst, List.mem_eraseDups.mpr ?_, rfl⟩, ha⟩
      refine List.mem_filterMap.mpr ⟨r, List.mem_filter.mpr ⟨hr, ?_⟩, hdst⟩
      simpa [Mirrored] using hmirrored

theorem Mirror.agrees_iff {x : Mirror family nft} :
    x.Agrees env ↔ ∀ a, nft.Has x.custom a ↔ Reached env x.routes a :=
  forall_congr' fun _ => iff_congr Iff.rfl (has_repopulateCustomSets _ _ _)

theorem Mirror.agrees_start (routes : List (Route family)) (custom : nft.State) :
    (Mirror.start env routes custom).Agrees env :=
  Mirror.agrees_iff.mpr fun a => has_repopulateCustomSets routes custom a

variable {r : Route family}

theorem exists_dst_of_mirrored (h : isUnmirrored r = false) : ∃ dst, r.dst = some dst := by
  cases hdst : r.dst with
  | none => simp [isUnmirrored, hdst] at h
  | some dst => exact ⟨dst, rfl⟩

/-! ## One change -/

theorem has_handle_new (r : Route family) (custom : nft.State) (a : BitVec family.width) :
    nft.Has (handleCustomSetEvent r true custom) a ↔
      nft.Has custom a ∨ isUnmirrored r = false ∧ r.Reaches a := by
  unfold handleCustomSetEvent
  cases hout : isUnmirrored r with
  | true => simp
  | false =>
    obtain ⟨dst, hdst⟩ := exists_dst_of_mirrored hout
    simp [hdst, nft.has_add, Route.Reaches]

/-- A route that goes takes the addresses it reaches with it, unless it is left out. -/
theorem has_handle_del {custom : nft.State}
    (hcovers : isUnmirrored r = false → ∀ a, r.Reaches a → nft.Has custom a)
    (a : BitVec family.width) :
    nft.Has (handleCustomSetEvent r false custom) a ↔
      nft.Has custom a ∧ ¬ (isUnmirrored r = false ∧ r.Reaches a) := by
  unfold handleCustomSetEvent
  cases hout : isUnmirrored r with
  | true => simp
  | false =>
    obtain ⟨dst, hdst⟩ := exists_dst_of_mirrored hout
    have hdel := nft.has_delete dst.range custom fun b hb => hcovers hout b ⟨dst, hdst, hb⟩
    simp [hdst, hdel, Route.Reaches]

/-- A replaced route has the destination of its successor, so the lookup tables reach
what they reached and what the new route reaches. -/
theorem reached_replaceRoute (htable : r.table ∈ env.extraTables) (routes : List (Route family))
    (a : BitVec family.width) :
    Reached env (replaceRoute r routes) a ↔
      Reached env routes a ∨ isUnmirrored r = false ∧ r.Reaches a := by
  induction routes with
  | nil => simp [replaceRoute, Reached, Mirrored, htable]
  | cons old routes ih =>
    unfold replaceRoute
    split
    case isTrue hsame =>
      obtain ⟨htables, hkey⟩ := hsame
      have hdst : old.dst = r.dst := congrArg RouteKey.dst hkey
      have hmirror : isUnmirrored old = isUnmirrored r := by
        simp only [isUnmirrored, isDefaultEquivalent, isLinklocalRoute, hdst]
      simp only [Reached, List.mem_cons, exists_eq_or_imp, Mirrored, Route.Reaches, htables,
        htable, hmirror, hdst, true_and]
      rw [or_right_comm, or_self]
    case isFalse =>
      have hcons : ∀ (first : Route family) (rest : List (Route family)),
          Reached env (first :: rest) a ↔
            Mirrored env first ∧ first.Reaches a ∨ Reached env rest a := by
        intro first rest
        simp [Reached]
      rw [hcons, hcons, ih, or_assoc]

theorem reached_append (r : Route family) (htable : r.table ∈ env.extraTables)
    (routes : List (Route family)) (a : BitVec family.width) :
    Reached env (routes ++ [r]) a ↔
      Reached env routes a ∨ isUnmirrored r = false ∧ r.Reaches a := by
  simp [Reached, Mirrored, htable, or_and_right, exists_or]

theorem reached_of_erase (htable : r.table ∈ env.extraTables) {routes : List (Route family)}
    (hr : r ∈ routes) (a : BitVec family.width) :
    Reached env routes a ↔
      isUnmirrored r = false ∧ r.Reaches a ∨ Reached env (routes.erase r) a := by
  have hmem : ∀ other, other ∈ routes ↔ other ∈ r :: routes.erase r := fun other =>
    (List.perm_cons_erase hr).mem_iff
  simp [Reached, hmem, Mirrored, htable]

/-- From an agreeing state, a change of a lookup table leads to an agreeing state exactly
when it meets the condition. -/
theorem Mirror.agrees_step_iff {x : Mirror family nft} (hx : x.Agrees env)
    {change : Change family} (htable : change.route.table ∈ env.extraTables) :
    (x.step change).Agrees env ↔ x.Meets env change := by
  rw [Mirror.agrees_iff] at hx
  rw [Mirror.agrees_iff]
  cases change with
  | add r =>
    refine iff_of_true (fun a => ?_) trivial
    exact (has_handle_new r x.custom a).trans
      ((or_congr (hx a) Iff.rfl).trans (reached_append r htable x.routes a).symm)
  | replace r =>
    refine iff_of_true (fun a => ?_) trivial
    exact (has_handle_new r x.custom a).trans
      ((or_congr (hx a) Iff.rfl).trans (reached_replaceRoute htable x.routes a).symm)
  | delete r =>
    by_cases hr : r ∈ x.routes
    case neg =>
      have hstay : x.step (.delete r) = x := if_neg hr
      rw [hstay]
      exact iff_of_true hx fun h => absurd h hr
    case pos =>
      have hstep : x.step (.delete r) =
          ⟨x.routes.erase r, handleCustomSetEvent r false x.custom⟩ := if_pos hr
      have hsplit := reached_of_erase htable hr
      have hcovers : isUnmirrored r = false → ∀ a, r.Reaches a → nft.Has x.custom a :=
        fun hout a ha => (hx a).mpr ((hsplit a).mpr (Or.inl ⟨hout, ha⟩))
      have hdel := has_handle_del hcovers
      rw [hstep]
      constructor
      · intro hagrees _ hout other hother hmirrored a ha hreach
        have hgone : ¬ nft.Has (handleCustomSetEvent r false x.custom) a := fun h =>
          ((hdel a).mp h).2 ⟨hout, ha⟩
        exact hgone ((hagrees a).mpr ⟨other, hother, hmirrored, hreach⟩)
      · intro hmeets a
        rw [hdel a, hx a, hsplit a]
        constructor
        · rintro ⟨hthis | hrest, hnot⟩
          · exact absurd hthis hnot
          · exact hrest
        · intro hrest
          refine ⟨Or.inr hrest, ?_⟩
          rintro ⟨hout, ha⟩
          obtain ⟨other, hother, hmirrored, hreach⟩ := hrest
          exact hmeets hr hout other hother hmirrored a ha hreach

/-! ## Whole runs -/

/-- Over any sequence of changes of the lookup tables, the set is at all times the one that
a fresh dump would make exactly when no route goes whose destination another mirrored
route overlaps. -/
theorem Mirror.custom_agrees_iff (env : Env family) (routes : List (Route family))
    (custom : nft.State) (changes : List (Change family))
    (htables : ∀ change ∈ changes, change.route.table ∈ env.extraTables) :
    (∀ n, ((changes.take n).foldl Mirror.step (Mirror.start env routes custom)).Agrees env) ↔
      Along Mirror.step (fun x change => x.Meets env change) changes
        (Mirror.start env routes custom) :=
  have hstep : ∀ x : Mirror family nft, ∀ change ∈ changes, x.Agrees env →
      ((x.step change).Agrees env ↔ x.Meets env change) := fun _ change hchange hx =>
    Mirror.agrees_step_iff hx (htables change hchange)
  (along_iff_forall_take hstep (Mirror.agrees_start routes custom)).symm

/-- The daemon with the lookup tables 52 and 100. -/
def twoTables : Env .ipv4 where
  sourceRouting := false
  extraTables := [52, 100]
  ifaces := []
  dump := []
  chains := []

/-- A route to `100.64.0.0/10` in the given table. -/
def tailnetRoute (table : ℕ) : Route .ipv4 where
  table := table
  dst := some ⟨0x64400000#32, 10, true, by decide, by decide⟩
  gateway := none
  oif := some "tailscale0"
  prefsrc := none
  priority := none
  scope := none
  type := none
  tos := none
  metrics := none
  src := none

/-- The contents of a set of IPv4 addresses that holds nothing. -/
def noAddress : (IntervalSet.points (BitVec Family.ipv4.width)).State :=
  (∅ : Set (BitVec Family.ipv4.width))

/-- A route that comes and goes keeps the set in agreement. -/
theorem Mirror.custom_agrees_of_alone :
    (([Change.add (tailnetRoute 52), .delete (tailnetRoute 52)].take 2).foldl Mirror.step
      (Mirror.start twoTables [] noAddress)).Agrees twoTables :=
  (Mirror.custom_agrees_iff twoTables [] noAddress
    [.add (tailnetRoute 52), .delete (tailnetRoute 52)] (by decide)).mpr
      ⟨trivial, fun _ _ _ hother => (List.not_mem_nil hother).elim, trivial⟩ 2

/-- The same destination is in two lookup tables; when one route goes, the set loses the
destination that the other table still reaches. -/
theorem Mirror.not_custom_agrees_of_shared :
    ¬ ((Mirror.start twoTables [tailnetRoute 52, tailnetRoute 100] noAddress).step
        (.delete (tailnetRoute 52))).Agrees twoTables := by
  intro hagrees
  have hmeets := (Mirror.agrees_step_iff (Mirror.agrees_start _ _) (by decide)).mp hagrees
  have hreach : ∀ table, (tailnetRoute table).Reaches 0x64400000#32 := fun _ =>
    ⟨_, rfl, Dst.addr_mem_range _⟩
  exact hmeets (by decide) (by decide) (tailnetRoute 100) (by decide)
    ⟨by decide, by decide⟩ _ (hreach 52) (hreach 100)

end OpenWrt.Mwan3.Rtmon
