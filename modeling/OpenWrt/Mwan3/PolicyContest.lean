/-
# The contest of a policy's members

Going through the members of a policy in order, the renderer collects for each family
the online ones of the lowest metric, with the total of their weights. A lower metric
starts the family's list and total anew. A member is an option of the configuration:
its metric need not be a number, and its weight may have any sign.
-/

import OpenWrt.Lib.RunningMin
import OpenWrt.Mwan3.Ruleset

namespace OpenWrt.Mwan3.PolicyContest

open OpenWrt.Lib

/-! ## `mwan3_set_policy` -/

/-- A member section. -/
structure MemberSection where
  interface : String
  /-- The metric, where `test` can read a number. -/
  metric : Option Int
  weight : Int

/-- A collected member, `iface:id:weight`. -/
structure PolicyMember where
  iface : String
  id : ℕ
  weight : Int
  deriving DecidableEq

/-- `lowest_metric`, `total_weight` and `policy_members` of one family. -/
structure FamilyVars where
  lowestMetric : Int
  totalWeight : Int
  policyMembers : List PolicyMember
  deriving DecidableEq

/-- The variables of both families. -/
structure PolicyVars where
  v4 : FamilyVars
  v6 : FamilyVars
  deriving DecidableEq

namespace FamilyVars

/-- The comparison with the lowest metric: whether it is lower, and the variables after
it. A member with a higher metric, or with none that can be compared, returns. -/
def compare (vars : FamilyVars) (metric : Option Int) (weight : Int) :
    Option (Bool × FamilyVars) :=
  match metric with
  | none => none
  | some metric =>
    if metric < vars.lowestMetric then
      some (true, { vars with totalWeight := weight, lowestMetric := metric })
    else if metric = vars.lowestMetric then
      some (false, { vars with totalWeight := vars.totalWeight + weight })
    else none

/-- An online member of the family: compare, reset the list for a lower metric, append. -/
def contend (vars : FamilyVars) (metric : Option Int) (member : PolicyMember) : FamilyVars :=
  match vars.compare metric member.weight with
  | none => vars
  | some (isLowest, vars) =>
    let members := if isLowest then [] else vars.policyMembers
    { vars with policyMembers := members ++ [member] }

end FamilyVars

def PolicyVars.family (vars : PolicyVars) : Family → FamilyVars
  | .ipv4 => vars.v4
  | .ipv6 => vars.v6

section Loop

variable (c : Config)

/-- One member. An interface that is offline, or of a family that has no contest, changes
nothing. -/
def setPolicy (vars : PolicyVars) (m : MemberSection) : PolicyVars :=
  if m.interface = "" then vars
  else if m.metric.any fun metric => decide (Config.defaultLowestMetric < metric) then vars
  else
    match c.ifaceId m.interface, c.interface m.interface with
    | some id, some iface =>
      let member : PolicyMember := ⟨m.interface, id, m.weight⟩
      if iface.online then
        match iface.family with
        | some .ipv4 => { vars with v4 := vars.v4.contend m.metric member }
        | some .ipv6 =>
          if c.noIpv6 then vars else { vars with v6 := vars.v6.contend m.metric member }
        | none => vars
      else vars
    | _, _ => vars

/-- The variables before the first member. -/
def initialVars : FamilyVars where
  lowestMetric := Config.defaultLowestMetric
  totalWeight := 0
  policyMembers := []

/-- `config_list_foreach "$1" use_member mwan3_set_policy` -/
def setMembers (members : List MemberSection) : PolicyVars :=
  members.foldl (setPolicy c) ⟨initialVars, initialVars⟩

/-! ## What is to be collected -/

/-- The member names an interface that is configured, online and of the family. -/
def live (family : Family) (m : MemberSection) : Bool :=
  decide (m.interface ≠ "") && (c.interface m.interface).any fun iface =>
    decide (iface.family = some family) && iface.online

def ranked (m : MemberSection) : Bool :=
  m.metric.any fun metric => decide (metric ≤ Config.defaultLowestMetric)

def member (m : MemberSection) : PolicyMember :=
  ⟨m.interface, (c.ifaceId m.interface).getD 0, m.weight⟩

def rankOf (m : MemberSection) : Int := m.metric.getD 0

/-- The live members of a family with the lowest metric, in order. A kernel without IPv6
has none of that family. -/
def best (family : Family) (members : List MemberSection) : List MemberSection :=
  if family = .ipv6 ∧ c.noIpv6 then []
  else RunningMin.minimal rankOf (members.filter fun m => live c family m && ranked m)

end Loop

/-! ## One member -/

section Spec

variable {c : Config}

/-- The member takes part in the contest of the family. -/
def enters (c : Config) (family : Family) (m : MemberSection) : Bool :=
  live c family m && ranked m && !(decide (family = .ipv6) && c.noIpv6)

section Contend

variable {vars : FamilyVars} {metric : Int} {m : PolicyMember}

theorem contend_none (vars : FamilyVars) (m : PolicyMember) : vars.contend none m = vars := rfl

theorem contend_of_lt (h : metric < vars.lowestMetric) :
    vars.contend (some metric) m = ⟨metric, m.weight, [m]⟩ := by
  simp [FamilyVars.contend, FamilyVars.compare, h]

theorem contend_of_eq (h : metric = vars.lowestMetric) :
    vars.contend (some metric) m =
      ⟨vars.lowestMetric, vars.totalWeight + m.weight, vars.policyMembers ++ [m]⟩ := by
  simp [FamilyVars.contend, FamilyVars.compare, h]

theorem contend_of_gt (h : vars.lowestMetric < metric) : vars.contend (some metric) m = vars := by
  simp [FamilyVars.contend, FamilyVars.compare, h.not_gt, h.ne']

end Contend

/-- The variables of a family against the loop over the members that entered. -/
structure Follows (c : Config) (vars : FamilyVars) (best : RunningMin.Best MemberSection Int) :
    Prop where
  lowestMetric : vars.lowestMetric = best.least
  policyMembers : vars.policyMembers = best.items.map (member c)
  totalWeight : vars.totalWeight = (best.items.map MemberSection.weight).sum

theorem Follows.contend {vars : FamilyVars} {best : RunningMin.Best MemberSection Int}
    (h : Follows c vars best) {m : MemberSection} (hm : ranked m = true) :
    Follows c (vars.contend m.metric (member c m)) (RunningMin.enter rankOf best m) := by
  obtain ⟨metric, hmetric⟩ : ∃ metric, m.metric = some metric := by
    cases hmetric : m.metric with
    | none => simp [ranked, hmetric] at hm
    | some metric => exact ⟨metric, rfl⟩
  have hrank : rankOf m = metric := by simp [rankOf, hmetric]
  unfold RunningMin.enter
  rw [hmetric, hrank, ← h.lowestMetric]
  rcases lt_trichotomy metric vars.lowestMetric with hlt | heq | hgt
  · rw [contend_of_lt hlt, if_pos hlt]
    exact ⟨rfl, rfl, by simp [member]⟩
  · rw [contend_of_eq heq, if_neg (by omega), if_pos heq]
    refine ⟨rfl, ?_, ?_⟩
    · simp [h.policyMembers]
    · simp [h.totalWeight, member]
  · rw [contend_of_gt hgt, if_neg (by omega), if_neg (by omega)]
    exact h

/-- A member takes part in the contest of each family that it enters. -/
theorem setPolicy_eq (vars : PolicyVars) (m : MemberSection) :
    setPolicy c vars m =
      ⟨if enters c .ipv4 m then vars.v4.contend m.metric (member c m) else vars.v4,
        if enters c .ipv6 m then vars.v6.contend m.metric (member c m) else vars.v6⟩ := by
  unfold setPolicy
  by_cases hname : m.interface = ""
  · simp [hname, enters, live]
  rw [if_neg hname]
  by_cases hhigh : (m.metric.any fun metric => decide (Config.defaultLowestMetric < metric)) = true
  · have hnot : ranked m = false := by
      unfold ranked
      cases hmetric : m.metric with
      | none => rfl
      | some metric =>
        rw [hmetric, Option.any_some, decide_eq_true_iff] at hhigh
        rw [Option.any_some, decide_eq_false_iff_not]
        omega
    rw [if_pos hhigh]
    simp [enters, hnot]
  rw [if_neg hhigh]
  have hiff : (c.ifaceId m.interface).isSome = (c.interface m.interface).isSome := by
    rw [Bool.eq_iff_iff]
    simp [Config.ifaceId, Config.interface, List.findIdx?_isSome]
  cases hiface : c.interface m.interface with
  | none =>
    rw [hiface, Option.isSome_none, Option.isSome_eq_false_iff] at hiff
    rw [Option.isNone_iff_eq_none.mp hiff]
    simp [enters, live, hiface]
  | some iface =>
    rw [hiface, Option.isSome_some] at hiff
    obtain ⟨id, hid⟩ := Option.isSome_iff_exists.mp hiff
    have hmember : member c m = ⟨m.interface, id, m.weight⟩ := by simp [member, hid]
    rw [hid]
    dsimp only
    rw [← hmember]
    -- an online member whose metric is no number is compared and returns
    have hranked : ranked m = false → ∀ vars : FamilyVars, ∀ member,
        vars.contend m.metric member = vars := by
      intro hnot vars member
      cases hmetric : m.metric with
      | none => exact contend_none vars member
      | some metric =>
        simp only [hmetric, Option.any_some, decide_eq_true_eq] at hhigh
        simp only [ranked, hmetric, Option.any_some, decide_eq_false_iff_not] at hnot
        omega
    have henters : ∀ family, enters c family m =
        (decide (iface.family = some family) && iface.online && ranked m &&
          !(decide (family = .ipv6) && c.noIpv6)) := by
      intro family
      simp [enters, live, hiface, hname]
    rw [henters, henters]
    cases hon : iface.online with
    | false => simp
    | true =>
      cases hr : ranked m with
      | false =>
        cases iface.family with
        | none => simp
        | some family => cases family <;> simp [hranked hr]
      | true =>
        cases iface.family with
        | none => simp
        | some family =>
          cases family with
          | ipv4 => simp
          | ipv6 => cases c.noIpv6 <;> simp

/-! ## All members -/

/-- The variables of a family follow the loop over the members that entered it. -/
theorem follows_setMembers (members : List MemberSection) (family : Family) :
    Follows c ((setMembers c members).family family)
      ((members.filter (enters c family)).foldl (RunningMin.enter rankOf)
        ⟨Config.defaultLowestMetric, []⟩) := by
  induction members using List.reverseRecOn with
  | nil => cases family <;> exact ⟨rfl, rfl, rfl⟩
  | append_singleton members m ih =>
    have hstep : (setMembers c (members ++ [m])).family family =
        if enters c family m then
          ((setMembers c members).family family).contend m.metric (member c m)
        else (setMembers c members).family family := by
      unfold setMembers
      rw [List.foldl_append, List.foldl_cons, List.foldl_nil, setPolicy_eq]
      cases family <;> rfl
    rw [hstep, List.filter_append, List.foldl_append]
    cases hin : enters c family m with
    | true =>
      rw [if_pos rfl, List.filter_cons_of_pos hin]
      refine ih.contend ?_
      simp only [enters, Bool.and_eq_true] at hin
      exact hin.1.2
    | false =>
      rw [if_neg Bool.false_ne_true, List.filter_cons_of_neg (by simp [hin])]
      exact ih

/-- The members that enter the contest of a family have a metric up to the bound. -/
theorem rankOf_le {family : Family} {m : MemberSection} (h : enters c family m = true) :
    rankOf m ≤ Config.defaultLowestMetric := by
  simp only [enters, Bool.and_eq_true] at h
  have hranked := h.1.2
  unfold ranked at hranked
  unfold rankOf
  cases hmetric : m.metric with
  | none => simp [hmetric] at hranked
  | some metric =>
    rw [hmetric, Option.any_some, decide_eq_true_iff] at hranked
    exact hranked

theorem minimal_enters (family : Family) (members : List MemberSection) :
    RunningMin.minimal rankOf (members.filter (enters c family)) = best c family members := by
  unfold best
  split
  case isTrue hno =>
    have hnone : members.filter (enters c family) = [] := by
      refine List.filter_eq_nil_iff.mpr fun m _ => ?_
      simp [enters, hno.1, hno.2]
    rw [hnone]
    rfl
  case isFalse hsome =>
    congr 1
    refine List.filter_congr fun m _ => ?_
    have hfamily : (decide (family = .ipv6) && c.noIpv6) = false := by
      simpa using hsome
    simp [enters, hfamily]

/-- After all members each family has the live ones of the lowest metric, in order, and
the total of their weights. -/
theorem setMembers_spec (c : Config) (members : List MemberSection) (family : Family) :
    ((setMembers c members).family family).policyMembers =
        (best c family members).map (member c) ∧
      ((setMembers c members).family family).totalWeight =
        ((best c family members).map MemberSection.weight).sum := by
  have hfollows := follows_setMembers (c := c) members family
  have hitems : ((members.filter (enters c family)).foldl (RunningMin.enter rankOf)
      ⟨Config.defaultLowestMetric, []⟩).items = best c family members := by
    rw [RunningMin.items_foldl, minimal_enters]
    intro m hm
    exact rankOf_le (List.mem_filter.mp hm).2
  rw [hfollows.policyMembers, hfollows.totalWeight, hitems]
  exact ⟨rfl, rfl⟩

/-- A kernel without IPv6, and an interface of that family. -/
def noIpv6Config : Config where
  mmxMask := 0x3f00
  noIpv6 := true
  interfaces := [⟨"wan6", some .ipv6, none, true⟩]
  policies := []
  rules := []
  connected _ _ := false
  custom _ _ := false
  dynamic _ _ := false
  ruleNames := List.nodup_nil

/-- The interface is online, and its member is not collected. -/
theorem not_collected_of_noIpv6 :
    ¬ ∀ family, ((setMembers noIpv6Config [⟨"wan6", some 1, 1⟩]).family family).policyMembers =
      (RunningMin.minimal rankOf (([⟨"wan6", some 1, 1⟩] : List MemberSection).filter fun m =>
        live noIpv6Config family m && ranked m)).map (member noIpv6Config) := by
  intro h
  exact absurd (h .ipv6) (by decide)

end Spec

end OpenWrt.Mwan3.PolicyContest
