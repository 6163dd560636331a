/-
# The slots of a policy's number generator

The members of a family share the traffic by a counter: the map of the rule sends each
value of the counter to one member, in ranges as long as the weights. The ends of the
ranges are computed from a running sum, so a member without a positive weight has a
range that ends before it starts, which the packet filter refuses.
-/

import Mathlib.Data.List.Chain
import OpenWrt.Mwan3.PolicyContest

namespace OpenWrt.Mwan3.PolicyContest

/-! ## The rules of `mwan3_create_policies_nft` -/

/-- An entry of the map, `start-stop : jump mwan3_or_meta_<mark>`. -/
structure MapEntry where
  start : Int
  stop : Int
  mark : BitVec 32
  deriving DecidableEq

/-- The rule of one family. A guard restricts it to the family where both have members. -/
inductive FamilyRule
  | direct (guarded : Bool) (mark : BitVec 32)
  | numgen (guarded : Bool) (modulus : Int) (entries : List MapEntry)
  deriving DecidableEq

section Render

variable (mask : BitVec 32)

/-- The loop over the members with its running sum. -/
def mapEntries : (running : Int) → List PolicyMember → List MapEntry
  | _, [] => []
  | running, m :: members =>
    let stop := running + m.weight - 1
    ⟨running, stop, id2mask m.id mask⟩ :: mapEntries (stop + 1) members

/-- `_total_fam` -/
def weightSum (members : List PolicyMember) : Int := (members.map PolicyMember.weight).sum

/-- One member takes all packets, several share them. -/
def familyRule (guarded : Bool) : List PolicyMember → Option FamilyRule
  | [] => none
  | [m] => some (.direct guarded (id2mask m.id mask))
  | members => some (.numgen guarded (weightSum members) (mapEntries mask 0 members))

/-- The rules ahead of the last resort, by family. There are none without some weight. -/
def policyRules (vars : PolicyVars) : List (Family × FamilyRule) :=
  let hasV4 := !vars.v4.policyMembers.isEmpty
  let hasV6 := !vars.v6.policyMembers.isEmpty
  if 0 < weightSum vars.v4.policyMembers + weightSum vars.v6.policyMembers then
    ((familyRule mask hasV6 vars.v4.policyMembers).map fun rule => (Family.ipv4, rule)).toList ++
      ((familyRule mask hasV4 vars.v6.policyMembers).map fun rule => (Family.ipv6, rule)).toList
  else []

/-! ## What the map is to be -/

/-- The map divides the values below the modulus into consecutive ranges, one for each
member and as long as its weight. -/
structure Partitions (members : List PolicyMember) (modulus : Int) (entries : List MapEntry) :
    Prop where
  wellFormed : ∀ e ∈ entries, 0 ≤ e.start ∧ e.start ≤ e.stop ∧ e.stop < modulus
  share : List.Forall₂ (fun m e => e.mark = id2mask m.id mask ∧ e.stop - e.start + 1 = m.weight)
    members entries
  first : ∀ e, entries.head? = some e → e.start = 0
  consecutive : entries.IsChain fun e next => next.start = e.stop + 1
  slot : ∀ slot, 0 ≤ slot → slot < modulus →
    ∃! i : ℕ, ∃ e, entries[i]? = some e ∧ e.start ≤ slot ∧ slot ≤ e.stop
  modulus_eq : modulus = weightSum members

def MapsRight (vars : PolicyVars) : Prop :=
  ∀ family guarded modulus entries,
    (family, FamilyRule.numgen guarded modulus entries) ∈ policyRules mask vars →
      Partitions mask (vars.family family).policyMembers modulus entries

end Render

/-! ## The running sum -/

section Spec

variable {mask : BitVec 32}

theorem weightSum_cons (m : PolicyMember) (members : List PolicyMember) :
    weightSum (m :: members) = m.weight + weightSum members := by
  simp [weightSum]

theorem forall₂_mapEntries (running : Int) (members : List PolicyMember) :
    List.Forall₂ (fun m e => e.mark = id2mask m.id mask ∧ e.stop - e.start + 1 = m.weight) members
      (mapEntries mask running members) := by
  induction members generalizing running with
  | nil => exact .nil
  | cons m members ih => exact .cons ⟨rfl, by dsimp only; omega⟩ (ih _)

theorem head?_mapEntries {running : Int} {members : List PolicyMember} {e : MapEntry}
    (h : (mapEntries mask running members).head? = some e) : e.start = running := by
  cases members with
  | nil => cases h
  | cons m members =>
    cases h
    rfl

theorem isChain_mapEntries (running : Int) (members : List PolicyMember) :
    (mapEntries mask running members).IsChain fun e next => next.start = e.stop + 1 := by
  induction members generalizing running with
  | nil => exact .nil
  | cons m members ih =>
    unfold mapEntries
    exact (ih _).cons fun next hnext => head?_mapEntries hnext

section Positive

variable {members : List PolicyMember}

/-- With positive weights the ranges lie between the sums. -/
theorem bounds_mapEntries (hpos : ∀ m ∈ members, 0 < m.weight) {running : Int} {e : MapEntry}
    (he : e ∈ mapEntries mask running members) :
    running ≤ e.start ∧ e.start ≤ e.stop ∧ e.stop < running + weightSum members := by
  have hsum : ∀ ms : List PolicyMember, (∀ m ∈ ms, 0 < m.weight) → 0 ≤ weightSum ms := by
    intro ms hms
    induction ms with
    | nil => exact le_rfl
    | cons m ms ih =>
      have hm := hms m List.mem_cons_self
      have hrest := ih fun m hm => hms m (List.mem_cons_of_mem _ hm)
      rw [weightSum_cons]
      omega
  induction members generalizing running with
  | nil => cases he
  | cons m members ih =>
    have hm := hpos m List.mem_cons_self
    have hrest : ∀ m ∈ members, 0 < m.weight := fun m hm => hpos m (List.mem_cons_of_mem _ hm)
    have hnonneg := hsum members hrest
    rw [weightSum_cons]
    rcases List.mem_cons.mp he with rfl | he
    · dsimp only
      omega
    · have := ih hrest he
      omega

/-- Every value has its range, and one only. -/
theorem slot_mapEntries (hpos : ∀ m ∈ members, 0 < m.weight) {running slot : Int}
    (hlow : running ≤ slot) (hhigh : slot < running + weightSum members) :
    ∃! i : ℕ, ∃ e, (mapEntries mask running members)[i]? = some e ∧
      e.start ≤ slot ∧ slot ≤ e.stop := by
  induction members generalizing running with
  | nil =>
    have : weightSum [] = 0 := rfl
    omega
  | cons m members ih =>
    have hm := hpos m List.mem_cons_self
    have hrest : ∀ m ∈ members, 0 < m.weight := fun m hm => hpos m (List.mem_cons_of_mem _ hm)
    rw [weightSum_cons] at hhigh
    unfold mapEntries
    dsimp only
    have hnext : running + m.weight - 1 + 1 = running + m.weight := by omega
    rw [hnext]
    by_cases hin : slot < running + m.weight
    · refine ⟨0, ⟨_, rfl, hlow, by dsimp only; omega⟩, ?_⟩
      rintro i ⟨e, hat, hstart, -⟩
      cases i with
      | zero => rfl
      | succ i =>
        -- a later range starts after the slot
        rw [List.getElem?_cons_succ] at hat
        have := (bounds_mapEntries hrest (List.mem_of_getElem? hat)).1
        omega
    · obtain ⟨i, ⟨e, hat, hstart, hstop⟩, hunique⟩ :=
        @ih hrest (running + m.weight) (by omega) (by omega)
      refine ⟨i + 1, ⟨e, by rwa [List.getElem?_cons_succ], hstart, hstop⟩, ?_⟩
      rintro j ⟨e', hat', hstart', hstop'⟩
      cases j with
      | zero =>
        rw [List.getElem?_cons_zero, Option.some.injEq] at hat'
        subst hat'
        dsimp only at hstop'
        omega
      | succ j =>
        rw [List.getElem?_cons_succ] at hat'
        rw [hunique j ⟨e', hat', hstart', hstop'⟩]

end Positive

/-! ## When the maps are right -/

/-- The map of a list is right if and only if all weights are positive. -/
theorem partitions_iff {members : List PolicyMember} :
    Partitions mask members (weightSum members) (mapEntries mask 0 members) ↔
      ∀ m ∈ members, 0 < m.weight := by
  constructor
  · intro h m hm
    obtain ⟨i, hi, rfl⟩ := List.getElem_of_mem hm
    have hlen := h.share.length_eq
    obtain ⟨-, hspan⟩ := (List.forall₂_iff_get.mp h.share).2 i hi (by omega)
    obtain ⟨-, hle, -⟩ := h.wellFormed _ (List.get_mem _ ⟨i, by omega⟩)
    simp only [List.get_eq_getElem] at hspan hle
    omega
  · intro hpos
    refine ⟨fun e he => ?_, forall₂_mapEntries 0 members, fun e he => head?_mapEntries he,
      isChain_mapEntries 0 members, fun slot hlow hhigh => ?_, rfl⟩
    · have := bounds_mapEntries hpos he
      omega
    · exact slot_mapEntries hpos hlow (by omega)

/-- A map stands for a family of several members, where some rule is rendered. -/
theorem mem_policyRules_numgen {vars : PolicyVars} {family : Family} {guarded : Bool}
    {modulus : Int} {entries : List MapEntry} :
    (family, FamilyRule.numgen guarded modulus entries) ∈ policyRules mask vars ↔
      0 < weightSum vars.v4.policyMembers + weightSum vars.v6.policyMembers ∧
        2 ≤ (vars.family family).policyMembers.length ∧
        modulus = weightSum (vars.family family).policyMembers ∧
        entries = mapEntries mask 0 (vars.family family).policyMembers ∧
        guarded = match family with
          | .ipv4 => !vars.v6.policyMembers.isEmpty
          | .ipv6 => !vars.v4.policyMembers.isEmpty := by
  have hrule : ∀ g members, familyRule mask g members = some (.numgen guarded modulus entries) ↔
      2 ≤ members.length ∧ modulus = weightSum members ∧ entries = mapEntries mask 0 members ∧
        guarded = g := by
    intro g members
    match members with
    | [] => simp [familyRule]
    | [m] => simp [familyRule]
    | m :: n :: rest =>
      simp only [familyRule, Option.some.injEq, FamilyRule.numgen.injEq, List.length_cons]
      constructor
      · rintro ⟨rfl, rfl, rfl⟩
        exact ⟨by omega, rfl, rfl, rfl⟩
      · rintro ⟨-, rfl, rfl, rfl⟩
        exact ⟨rfl, rfl, rfl⟩
  unfold policyRules
  dsimp only
  split
  case isTrue hsome =>
    rw [List.mem_append, Option.mem_toList, Option.mem_toList]
    cases family with
    | ipv4 => simp [hrule, hsome, PolicyVars.family]
    | ipv6 => simp [hrule, hsome, PolicyVars.family]
  case isFalse hnone => simp [hnone]

/-- The maps of a policy are right if and only if, where rules are rendered, every member
of a family with several has a positive weight. -/
theorem mapsRight_iff (mask : BitVec 32) (vars : PolicyVars) :
    MapsRight mask vars ↔
      (0 < weightSum vars.v4.policyMembers + weightSum vars.v6.policyMembers →
        ∀ family, 2 ≤ (vars.family family).policyMembers.length →
          ∀ m ∈ (vars.family family).policyMembers, 0 < m.weight) := by
  constructor
  · intro h hsome family hlen
    refine partitions_iff.mp (h family _ _ _ (mem_policyRules_numgen.mpr ⟨hsome, hlen, rfl, rfl, rfl⟩))
  · intro h family guarded modulus entries hrule
    obtain ⟨hsome, hlen, rfl, rfl, -⟩ := mem_policyRules_numgen.mp hrule
    exact partitions_iff.mpr (h hsome family hlen)

def twoWans : Config where
  mmxMask := 0x3f00
  noIpv6 := false
  interfaces := [⟨"wan", some .ipv4, none, true⟩, ⟨"wanb", some .ipv4, none, true⟩]
  policies := []
  rules := []
  connected _ _ := false
  custom _ _ := false
  dynamic _ _ := false
  ruleNames := List.nodup_nil

/-- A member of weight 0 beside one of weight 1 has the range `0--1`. -/
theorem not_mapsRight_of_zero :
    policyRules 0x3f00 (setMembers twoWans [⟨"wan", some 1, 0⟩, ⟨"wanb", some 1, 1⟩]) =
        [(.ipv4, .numgen false 1 [⟨0, -1, 0x100⟩, ⟨0, 0, 0x200⟩])] ∧
      ¬ MapsRight 0x3f00 (setMembers twoWans [⟨"wan", some 1, 0⟩, ⟨"wanb", some 1, 1⟩]) := by
  have hrules : policyRules 0x3f00 (setMembers twoWans [⟨"wan", some 1, 0⟩, ⟨"wanb", some 1, 1⟩]) =
      [(.ipv4, .numgen false 1 [⟨0, -1, 0x100⟩, ⟨0, 0, 0x200⟩])] := by decide +kernel
  refine ⟨hrules, fun h => ?_⟩
  have hmap := h .ipv4 false 1 [⟨0, -1, 0x100⟩, ⟨0, 0, 0x200⟩] (hrules ▸ List.mem_singleton_self _)
  have hwell := (hmap.wellFormed ⟨0, -1, 0x100⟩ List.mem_cons_self).2.1
  exact absurd hwell (by decide)

end Spec

end OpenWrt.Mwan3.PolicyContest
