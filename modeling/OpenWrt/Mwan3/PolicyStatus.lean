/-
# The reported and the rendered members of a policy

The status service and the shell renderer each hold the contest of a policy's
members: the online members of a family with the lowest metric share the traffic by
their weights. The service groups the members by metric and looks for the first
group with an online one; the renderer goes through the list once and keeps the
lowest metric so far. This module is the service and the reading of the shares off
the rendered chain, and states exactly when the two agree.
-/

import OpenWrt.Mwan3.Ruleset

namespace OpenWrt.Mwan3

/-! ## Configuration -/

/-- The `use_member` option of a policy section. -/
inductive UseMember
  | unset
  | option (name : String)
  | list (names : List String)

/-- A policy section as it is written. -/
structure PolicySection where
  name : String
  useMember : UseMember
  lastResort : LastResort

/-- The sections that the members of a policy depend on, with the interface states. The
configuration system keeps the names of sections distinct. -/
structure PolicyConfig where
  mmxMask : BitVec 32
  noIpv6 : Bool
  interfaces : List Interface
  /-- The member sections by name, an unset option having its default. -/
  members : List (String × Member)
  policies : List PolicySection
  interfaceNames : ∀ iface ∈ interfaces, iface.name ≠ ""
  policyNames : (policies.map PolicySection.name).Nodup

/-- A member in the report of the service. -/
structure MemberReport where
  interface : String
  metric : Int
  weight : ℕ
  percent : ℕ
  status : String

namespace PolicyConfig

variable (c : PolicyConfig)

/-- The members `config_list_foreach` goes through: a plain option has no items. -/
def shellMembers (p : PolicySection) : List Member :=
  match p.useMember with
  | .list names => names.filterMap fun name => c.members.lookup name
  | _ => []

/-- The configuration as the shell scripts read it. -/
def toConfig : Config where
  mmxMask := c.mmxMask
  noIpv6 := c.noIpv6
  interfaces := c.interfaces
  policies := c.policies.map fun p => ⟨p.name, c.shellMembers p, p.lastResort⟩
  rules := []
  connected _ _ := false
  custom _ _ := false
  dynamic _ _ := false
  ruleNames := List.nodup_nil

/-! ## `get_policies` -/

/-- `use_members`, a plain option being a list of one. -/
def useMembers (p : PolicySection) : List Member :=
  match p.useMember with
  | .unset => []
  | .option name => [name].filterMap fun name => c.members.lookup name
  | .list names => names.filterMap fun name => c.members.lookup name

/-- `iface_family[m.interface] == family_filter`. -/
def inFamily (family : Family) (m : Member) : Bool :=
  (c.toConfig.interface m.interface).any fun iface => iface.family = some family

/-- The members of the requested family, in the order of the list. -/
def matching (family : Family) (p : PolicySection) : List Member :=
  (c.useMembers p).filter (c.inFamily family)

end PolicyConfig

/-- `sorted_metrics`. -/
def sortedMetrics (members : List Member) : List Int :=
  (members.map Member.metric).dedup.mergeSort fun a b => a ≤ b

/-- `by_metric[metric]`. -/
def byMetric (members : List Member) (metric : Int) : List Member :=
  members.filter fun m => m.metric = metric

/-- `get_str(m.interface, 'STATUS') == 'online'`. -/
def reportedOnline (status : String → Option String) (m : Member) : Bool :=
  status m.interface = some "online"

/-- `active_metric`. -/
def activeMetric (status : String → Option String) (members : List Member) : Option Int :=
  (sortedMetrics members).find? fun metric =>
    (byMetric members metric).any (reportedOnline status)

/-- `total_weight`. -/
def totalWeight (status : String → Option String) (members : List Member) : ℕ :=
  match activeMetric status members with
  | none => 0
  | some metric =>
    (((byMetric members metric).filter (reportedOnline status)).map Member.weight).sum

/-- `is_active`. -/
def isActive (status : String → Option String) (members : List Member) (m : Member) : Bool :=
  activeMetric status members = some m.metric && reportedOnline status m

def memberReport (status : String → Option String) (members : List Member) (m : Member) :
    MemberReport where
  interface := m.interface
  metric := m.metric
  weight := m.weight
  percent :=
    if isActive status members m ∧ 0 < totalWeight status members then
      m.weight * 100 / totalWeight status members
    else 0
  status := (status m.interface).getD "offline"

namespace PolicyConfig

variable (c : PolicyConfig)

/-- What `get_policies` reports for one policy; nothing where no member matches. -/
def getPolicy (status : String → Option String) (family : Family) (p : PolicySection) :
    Option (List MemberReport) :=
  let members := c.matching family p
  if members = [] then none
  else some ((sortedMetrics members).flatMap fun metric =>
    (byMetric members metric).map (memberReport status members))

/-- The identifiers and percentages of the members that are reported as active: online, at
the metric the service found. -/
def reportedShares (status : String → Option String) (family : Family) (p : PolicySection) :
    List (Option ℕ × ℕ) :=
  (((c.getPolicy status family p).getD []).filter fun r =>
    activeMetric status (c.matching family p) = some r.metric && decide (r.status = "online")).map
      fun r => (c.toConfig.ifaceId r.interface, r.percent)

end PolicyConfig

/-! ## The rendered chain -/

namespace Config

variable (c : Config)

/-- The shares of one family's rule: all for a single member, else the part of the number
generator's values that the map sends to each member. -/
def familyShares : List (ℕ × ℕ) → List (Option ℕ × ℕ)
  | [] => []
  | [(id, _)] => [(some id, 100)]
  | members =>
    (members.zip (c.mapEntries 0 members)).map fun entry =>
      (some entry.1.1,
        (entry.2.2.1 - entry.2.1 + 1).toNat * 100 / (members.map Prod.snd).sum)

/-- The members of one family that take packets. -/
def familyMembers (p : Policy) : Family → List (ℕ × ℕ)
  | .ipv4 => (c.policyMembers p).1
  | .ipv6 => (c.policyMembers p).2

/-- The identifiers and percentages of the members in `mwan3_policy_<name>`. -/
def renderedShares (name : String) (family : Family) : List (Option ℕ × ℕ) :=
  match c.policy name with
  | none => []
  | some p =>
    if 15 < p.name.length then []
    else if 0 < ((c.familyMembers p .ipv4 ++ c.familyMembers p .ipv6).map Prod.snd).sum then
      c.familyShares (c.familyMembers p family)
    else []

/-- The interface of a member is online and of the family, whatever the member's metric. -/
def live (family : Family) (m : Member) : Bool :=
  (c.interface m.interface).any fun iface =>
    decide (iface.family = some family) && iface.online

end Config

/-! ## When the two agree -/

namespace PolicyConfig

variable (c : PolicyConfig)

/-- The tracker status is `online` for the interfaces whose hotplug state is. -/
def FollowsHotplug (status : String → Option String) : Prop :=
  ∀ iface ∈ c.interfaces, status iface.name = some "online" ↔ iface.online = true

end PolicyConfig

def lowest (members : List Member) : List Member :=
  members.filter fun m => members.all fun other => m.metric ≤ other.metric

namespace PolicyConfig

variable (c : PolicyConfig)

/-- The online members of a family with the lowest metric, where it is at most 256. -/
def best (family : Family) (members : List Member) : List Member :=
  lowest (members.filter fun m => decide (m.metric ≤ Config.defaultLowestMetric) && c.toConfig.live family m)

/-- No member of the family is online. Or the policy is a list with a name of at most 15
characters, the kernel has the family, some online member of the family has a metric of at
most 256, some member that takes traffic in either family has a weight, and a member that
takes all traffic of the family has one. -/
def Agreeing (p : PolicySection) (family : Family) : Prop :=
  (∀ m ∈ c.useMembers p, c.toConfig.live family m = false) ∨
  ((∃ names, p.useMember = .list names) ∧ p.name.length ≤ 15 ∧
    (family = .ipv6 → c.noIpv6 = false) ∧
    (∃ m ∈ c.useMembers p,
      c.toConfig.live family m = true ∧ m.metric ≤ Config.defaultLowestMetric) ∧
    (∃ either m, (either = .ipv6 → c.noIpv6 = false) ∧
      m ∈ c.best either (c.useMembers p) ∧ 0 < m.weight) ∧
    ∀ m, c.best family (c.useMembers p) = [m] → 0 < m.weight)

end PolicyConfig

/-! ## The contest in one pass -/

namespace Config

variable {c : Config}

theorem mapEntries_shares (start : Int) (members : List (ℕ × ℕ)) (total : ℕ) :
    (members.zip (c.mapEntries start members)).map (fun entry =>
      (some entry.1.1, (entry.2.2.1 - entry.2.1 + 1).toNat * 100 / total)) =
      members.map fun member => (some member.1, member.2 * 100 / total) := by
  induction members generalizing start with
  | nil => rfl
  | cons member members ih =>
    obtain ⟨id, weight⟩ := member
    have hspan : (start + (weight : Int) - 1 - start + 1).toNat = weight := by omega
    rw [mapEntries, List.zip_cons_cons, List.map_cons, List.map_cons, ih]
    dsimp only
    rw [hspan]

theorem familyShares_eq (members : List (ℕ × ℕ)) (h : ∀ member, members ≠ [member]) :
    c.familyShares members = members.map fun member =>
      (some member.1, member.2 * 100 / (members.map Prod.snd).sum) := by
  match members, h with
  | [], _ => rfl
  | [member], h => exact absurd rfl (h member)
  | first :: second :: rest, _ =>
    exact mapEntries_shares 0 (first :: second :: rest) _

theorem ifaceId_isSome_iff {name : String} :
    (c.ifaceId name).isSome = true ↔ (c.interface name).isSome = true := by
  simp [ifaceId, interface, List.findIdx?_isSome]

/-- The member takes part in the contest of the family. -/
def enters (c : Config) (family : Family) (m : Member) : Bool :=
  decide (m.interface ≠ "") && decide (m.metric ≤ defaultLowestMetric) && c.live family m &&
    !(decide (family = .ipv6) && c.noIpv6)

def entry (c : Config) (m : Member) : ℕ × ℕ :=
  ((c.ifaceId m.interface).getD 0, m.weight)

/-- The contest after the members that entered it. -/
structure Entered (c : Config) (entered : List Member) (contest : Contest) : Prop where
  le : ∀ m ∈ entered, contest.lowestMetric ≤ m.metric
  attained : entered = [] ∧ contest.lowestMetric = defaultLowestMetric ∨
    ∃ m ∈ entered, m.metric = contest.lowestMetric
  members : contest.members =
    (entered.filter fun m => m.metric = contest.lowestMetric).map c.entry

theorem Entered.enter {entered : List Member} {contest : Contest}
    (h : Entered c entered contest) {m : Member} (hm : m.metric ≤ defaultLowestMetric) :
    Entered c (entered ++ [m]) (contest.enter m.metric (c.entry m).1 m.weight) := by
  unfold Contest.enter
  by_cases hlower : m.metric < contest.lowestMetric
  case pos =>
    rw [if_pos hlower]
    refine ⟨?_, Or.inr ⟨m, by simp, rfl⟩, ?_⟩
    · intro other hother
      rcases List.mem_append.mp hother with hother | hother
      · exact (hlower.le.trans (h.le other hother))
      · rw [List.mem_singleton.mp hother]
    · have hnone : entered.filter (fun other => decide (other.metric = m.metric)) = [] := by
        refine List.filter_eq_nil_iff.mpr fun other hother heq => ?_
        have := h.le other hother
        have := of_decide_eq_true heq
        omega
      simp [List.filter_append, hnone, entry]
  case neg =>
    rw [if_neg hlower]
    by_cases hsame : m.metric = contest.lowestMetric
    case pos =>
      rw [if_pos hsame]
      refine ⟨?_, Or.inr ⟨m, by simp, hsame⟩, ?_⟩
      · intro other hother
        rcases List.mem_append.mp hother with hother | hother
        · exact h.le other hother
        · rw [List.mem_singleton.mp hother, hsame]
      · simp [List.filter_append, h.members, hsame, entry]
    case neg =>
      rw [if_neg hsame]
      rcases h.attained with ⟨-, hlow⟩ | ⟨first, hfirst, hlow⟩
      · omega
      · refine ⟨?_, Or.inr ⟨first, List.mem_append_left _ hfirst, hlow⟩, ?_⟩
        · intro other hother
          rcases List.mem_append.mp hother with hother | hother
          · exact h.le other hother
          · rw [List.mem_singleton.mp hother]
            omega
        · simp [List.filter_append, h.members, hsame]

/-- The collected members are those with the lowest metric of all that entered. -/
theorem Entered.members_eq {entered : List Member} {contest : Contest}
    (h : Entered c entered contest) : contest.members = (lowest entered).map c.entry := by
  rw [h.members, lowest]
  congr 1
  refine List.filter_congr fun m hm => ?_
  rw [Bool.eq_iff_iff, decide_eq_true_iff, List.all_eq_true]
  constructor
  · intro hlow other hother
    exact decide_eq_true (hlow.le.trans (h.le other hother))
  · intro hall
    rcases h.attained with ⟨hnil, -⟩ | ⟨first, hfirst, hlow⟩
    · rw [hnil] at hm
      cases hm
    · have hle : m.metric ≤ first.metric := of_decide_eq_true (hall first hfirst)
      have hge := h.le m hm
      omega

/-- One member changes the contest of the families it enters. -/
theorem setPolicy_eq (contests : Contest × Contest) (m : Member) :
    c.setPolicy contests m =
      (if c.enters .ipv4 m then contests.1.enter m.metric (c.entry m).1 m.weight else contests.1,
       if c.enters .ipv6 m then contests.2.enter m.metric (c.entry m).1 m.weight
       else contests.2) := by
  unfold setPolicy
  by_cases hout : m.interface = "" ∨ defaultLowestMetric < m.metric
  case pos =>
    have hnone : ∀ family, c.enters family m = false := by
      intro family
      rcases hout with hname | hmetric
      · simp [enters, hname]
      · simp [enters, hmetric]
    rw [if_pos hout, hnone, hnone]
    rfl
  case neg =>
    rw [if_neg hout]
    rw [not_or, Int.not_lt] at hout
    have hiff : (c.ifaceId m.interface).isSome = true ↔ (c.interface m.interface).isSome = true :=
      ifaceId_isSome_iff
    cases hiface : c.interface m.interface with
    | none =>
      have hnone : ∀ family, c.enters family m = false := fun family => by
        simp [enters, live, hiface]
      rw [hnone, hnone]
      cases c.ifaceId m.interface <;> rfl
    | some iface =>
      obtain ⟨id, hid⟩ := Option.isSome_iff_exists.mp (hiff.mpr (by rw [hiface]; rfl))
      have hentry : (c.entry m).1 = id := by simp [entry, hid]
      have henters : ∀ family, c.enters family m =
          ((decide (iface.family = some family) && iface.online) &&
            !(decide (family = .ipv6) && c.noIpv6)) := fun family => by
        simp [enters, live, hiface, hout]
      rw [hid, henters, henters, hentry]
      cases hon : iface.online with
      | false => simp [hon]
      | true =>
        cases hfamily : iface.family with
        | none => simp [hon, hfamily]
        | some family =>
          cases family with
          | ipv4 => simp [hon, hfamily]
          | ipv6 => cases c.noIpv6 <;> simp [hon, hfamily]

/-- The contests of both families over a whole member list. -/
theorem entered_foldl_setPolicy (members : List Member) :
    Entered c (members.filter (c.enters .ipv4))
      (members.foldl c.setPolicy (⟨defaultLowestMetric, []⟩, ⟨defaultLowestMetric, []⟩)).1 ∧
    Entered c (members.filter (c.enters .ipv6))
      (members.foldl c.setPolicy (⟨defaultLowestMetric, []⟩, ⟨defaultLowestMetric, []⟩)).2 := by
  induction members using List.reverseRecOn with
  | nil =>
    have hnil : Entered c [] ⟨defaultLowestMetric, []⟩ :=
      ⟨fun _ h => absurd h List.not_mem_nil, Or.inl ⟨rfl, rfl⟩, rfl⟩
    exact ⟨hnil, hnil⟩
  | append_singleton members m ih =>
    have hmetric : ∀ {family}, c.enters family m = true → m.metric ≤ defaultLowestMetric := by
      intro family h
      simp only [enters, Bool.and_eq_true, decide_eq_true_eq] at h
      exact h.1.1.2
    have hstep : ∀ {family} {contest : Contest},
        Entered c (members.filter (c.enters family)) contest →
        Entered c ((members ++ [m]).filter (c.enters family))
          (if c.enters family m then contest.enter m.metric (c.entry m).1 m.weight
           else contest) := by
      intro family contest h
      rw [List.filter_append]
      cases henters : c.enters family m with
      | true =>
        rw [List.filter_cons_of_pos henters]
        exact h.enter (hmetric henters)
      | false =>
        rw [List.filter_cons_of_neg (by simp [henters]), List.filter_nil, List.append_nil]
        exact h
    rw [List.foldl_append, List.foldl_cons, List.foldl_nil, setPolicy_eq]
    exact ⟨hstep ih.1, hstep ih.2⟩

/-- The members of a policy that take packets are those of each family with the lowest
metric. -/
theorem policyMembers_eq (p : Policy) :
    c.policyMembers p = ((lowest (p.members.filter (c.enters .ipv4))).map c.entry,
      (lowest (p.members.filter (c.enters .ipv6))).map c.entry) := by
  obtain ⟨h4, h6⟩ := entered_foldl_setPolicy (c := c) p.members
  exact Prod.ext h4.members_eq h6.members_eq

end Config

/-! ## The contest by groups -/

section Service

variable {status : String → Option String} {members : List Member}

theorem mem_sortedMetrics {metric : Int} :
    metric ∈ sortedMetrics members ↔ ∃ m ∈ members, m.metric = metric := by
  simp [sortedMetrics]

theorem nodup_sortedMetrics : (sortedMetrics members).Nodup :=
  (List.mergeSort_perm _ _).nodup_iff.mpr (List.nodup_dedup _)

theorem pairwise_sortedMetrics : (sortedMetrics members).Pairwise (· ≤ ·) := by
  have htrans : ∀ a b c : Int, decide (a ≤ b) = true → decide (b ≤ c) = true →
      decide (a ≤ c) = true := fun a b c hab hbc =>
    decide_eq_true ((of_decide_eq_true hab).trans (of_decide_eq_true hbc))
  have htotal : ∀ a b : Int, (decide (a ≤ b) || decide (b ≤ a)) = true := fun a b => by
    simpa using Int.le_total a b
  exact (List.pairwise_mergeSort htrans htotal _).imp of_decide_eq_true

theorem any_byMetric_iff {metric : Int} :
    (byMetric members metric).any (reportedOnline status) = true ↔
      ∃ m ∈ members, reportedOnline status m = true ∧ m.metric = metric := by
  simp only [byMetric, List.any_eq_true, List.mem_filter, decide_eq_true_eq]
  constructor
  · rintro ⟨m, ⟨hm, hmetric⟩, hon⟩
    exact ⟨m, hm, hon, hmetric⟩
  · rintro ⟨m, hm, hon, hmetric⟩
    exact ⟨m, ⟨hm, hmetric⟩, hon⟩

/-- The metric that the service finds is the lowest that an online member has. -/
theorem of_activeMetric {metric : Int} (h : activeMetric status members = some metric) :
    (∃ m ∈ members, reportedOnline status m = true ∧ m.metric = metric) ∧
      ∀ m ∈ members, reportedOnline status m = true → metric ≤ m.metric := by
  obtain ⟨hany, before, later, hsplit, hbefore⟩ := List.find?_eq_some_iff_append.mp h
  refine ⟨any_byMetric_iff.mp hany, fun m hm hon => ?_⟩
  have hmem : m.metric ∈ before ++ metric :: later :=
    hsplit ▸ mem_sortedMetrics.mpr ⟨m, hm, rfl⟩
  have hgroup : (byMetric members m.metric).any (reportedOnline status) = true :=
    any_byMetric_iff.mpr ⟨m, hm, hon, rfl⟩
  have hsorted : (before ++ metric :: later).Pairwise (· ≤ ·) := hsplit ▸ pairwise_sortedMetrics
  rcases List.mem_append.mp hmem with hin | hin
  · have hnot := hbefore _ hin
    rw [hgroup] at hnot
    cases hnot
  · rcases List.mem_cons.mp hin with heq | hin
    · exact heq.ge
    · exact (List.pairwise_cons.mp (List.pairwise_append.mp hsorted).2.1).1 _ hin

theorem exists_activeMetric {m : Member} (hm : m ∈ members)
    (hon : reportedOnline status m = true) :
    ∃ metric, activeMetric status members = some metric := by
  refine Option.isSome_iff_exists.mp (List.find?_isSome.mpr ?_)
  exact ⟨m.metric, mem_sortedMetrics.mpr ⟨m, hm, rfl⟩, any_byMetric_iff.mpr ⟨m, hm, hon, rfl⟩⟩

theorem isActive_iff {m : Member} (hm : m ∈ members) :
    isActive status members m = true ↔ reportedOnline status m = true ∧
      ∀ other ∈ members, reportedOnline status other = true → m.metric ≤ other.metric := by
  simp only [isActive, Bool.and_eq_true, decide_eq_true_eq]
  constructor
  · rintro ⟨hactive, hon⟩
    exact ⟨hon, (of_activeMetric hactive).2⟩
  · rintro ⟨hon, hlow⟩
    obtain ⟨metric, hactive⟩ := exists_activeMetric hm hon
    obtain ⟨⟨first, hfirst, hfirstOn, rfl⟩, hle⟩ := of_activeMetric hactive
    have hge := hlow first hfirst hfirstOn
    have hle := hle m hm hon
    have heq : first.metric = m.metric := by omega
    exact ⟨heq ▸ hactive, hon⟩

/-- The members that are active for the service are those with the lowest metric of the
online ones. -/
theorem filter_isActive (status : String → Option String) (members : List Member) :
    members.filter (isActive status members) =
      lowest (members.filter (reportedOnline status)) := by
  rw [lowest, List.filter_filter]
  refine List.filter_congr fun m hm => ?_
  rw [Bool.eq_iff_iff, isActive_iff hm, Bool.and_eq_true, List.all_eq_true, and_comm]
  refine and_congr_left fun _ => ⟨fun hlow other hother => ?_, fun hall other hother hon => ?_⟩
  · obtain ⟨hother, hon⟩ := List.mem_filter.mp hother
    exact decide_eq_true (hlow other hother hon)
  · exact of_decide_eq_true (hall other (List.mem_filter.mpr ⟨hother, hon⟩))

/-- Where one element of a list has an image, the images are its image. -/
theorem flatMap_eq_of_alone {α β : Type*} {l : List α} (hnodup : l.Nodup) {a : α} (ha : a ∈ l)
    {f : α → List β} (hnil : ∀ b ∈ l, b ≠ a → f b = []) : l.flatMap f = f a := by
  induction l with
  | nil => cases ha
  | cons first l ih =>
    rw [List.flatMap_cons]
    rw [List.nodup_cons] at hnodup
    rcases List.mem_cons.mp ha with rfl | ha
    · have hrest : l.flatMap f = [] := List.flatMap_eq_nil_iff.mpr fun b hb =>
      hnil b (List.mem_cons_of_mem _ hb) fun h => hnodup.1 (h ▸ hb)
      rw [hrest, List.append_nil]
    · have hfirst : f first = [] := hnil first List.mem_cons_self fun h => hnodup.1 (h ▸ ha)
      rw [hfirst, List.nil_append,
        ih hnodup.2 ha fun b hb => hnil b (List.mem_cons_of_mem _ hb)]

/-- The groups in the order of their metrics hold the active members in the order of the
list. -/
theorem flatMap_byMetric_filter :
    ((sortedMetrics members).flatMap fun metric =>
      (byMetric members metric).filter (isActive status members)) =
        members.filter (isActive status members) := by
  have hmetric : ∀ {m metric}, isActive status members m = true →
      activeMetric status members = some metric → m.metric = metric := by
    intro m metric hm hactive
    rw [isActive, Bool.and_eq_true, decide_eq_true_eq, hactive] at hm
    exact (Option.some.inj hm.1).symm
  cases hactive : activeMetric status members with
  | none =>
    have hnone : isActive status members = fun _ => false := funext fun m => by
      simp [isActive, hactive]
    simp [hnone]
  | some metric =>
    obtain ⟨⟨first, hfirst, -, hfirstMetric⟩, -⟩ := of_activeMetric hactive
    rw [flatMap_eq_of_alone nodup_sortedMetrics
      (mem_sortedMetrics.mpr ⟨first, hfirst, hfirstMetric⟩)]
    · rw [byMetric, List.filter_filter]
      refine List.filter_congr fun m _ => ?_
      rw [Bool.eq_iff_iff, Bool.and_eq_true, decide_eq_true_eq]
      exact ⟨fun h => h.1, fun h => ⟨h, hmetric h hactive⟩⟩
    · intro other _ hne
      refine List.filter_eq_nil_iff.mpr fun m hm h => hne ?_
      rw [← hmetric h hactive]
      exact (of_decide_eq_true (List.mem_filter.mp hm).2).symm

theorem totalWeight_eq :
    totalWeight status members =
      ((members.filter (isActive status members)).map Member.weight).sum := by
  unfold totalWeight
  cases hactive : activeMetric status members with
  | none =>
    have hnone : isActive status members = fun _ => false := funext fun m => by
      simp [isActive, hactive]
    simp [hnone]
  | some metric =>
    dsimp only
    congr 2
    rw [byMetric, List.filter_filter]
    refine List.filter_congr fun m _ => ?_
    rw [isActive, hactive, Bool.and_comm]
    congr 1
    exact decide_eq_decide.mpr ⟨fun h => h ▸ rfl, fun h => (Option.some.inj h).symm⟩

theorem percent_eq {m : Member} (h : isActive status members m = true) :
    (memberReport status members m).percent =
      m.weight * 100 / totalWeight status members := by
  by_cases htotal : 0 < totalWeight status members
  · simp [memberReport, h, htotal]
  · have hzero : totalWeight status members = 0 := by omega
    simp [memberReport, hzero]

end Service

/-! ## Agreement -/

namespace PolicyConfig

variable {c : PolicyConfig} {status : String → Option String} {p : PolicySection}
  {family : Family}

/-- Where the trackers follow the hotplug states, the members the service counts are those
the renderer does. -/
theorem live_iff (h : c.FollowsHotplug status) (m : Member) :
    (c.inFamily family m && reportedOnline status m) = c.toConfig.live family m := by
  unfold inFamily Config.live
  cases hiface : c.toConfig.interface m.interface with
  | none => rfl
  | some iface =>
    have hname : iface.name = m.interface := by
      simpa using List.find?_some hiface
    have hon := h iface (List.mem_of_find?_eq_some hiface)
    rw [hname] at hon
    have honline : reportedOnline status m = iface.online := by
      rw [reportedOnline, Bool.eq_iff_iff, decide_eq_true_iff]
      exact hon
    simp [honline]

theorem reportedShares_eq (h : c.FollowsHotplug status) (family : Family) (p : PolicySection) :
    c.reportedShares status family p =
      (lowest ((c.useMembers p).filter (c.toConfig.live family))).map fun m =>
        (c.toConfig.ifaceId m.interface, m.weight * 100 /
          ((lowest ((c.useMembers p).filter (c.toConfig.live family))).map Member.weight).sum) := by
  have hactive : (c.matching family p).filter (isActive status (c.matching family p)) =
      lowest ((c.useMembers p).filter (c.toConfig.live family)) := by
    rw [filter_isActive, matching, List.filter_filter]
    congr 2
    funext m
    rw [Bool.and_comm, live_iff h]
  have hreports : (c.getPolicy status family p).getD [] =
      (sortedMetrics (c.matching family p)).flatMap fun metric =>
        (byMetric (c.matching family p) metric).map (memberReport status (c.matching family p)) := by
    unfold getPolicy
    dsimp only
    split
    case isTrue hnil => simp [hnil, sortedMetrics]
    case isFalse => rfl
  have hstatus : ∀ m, (decide (activeMetric status (c.matching family p) =
      some (memberReport status (c.matching family p) m).metric) &&
        decide ((memberReport status (c.matching family p) m).status = "online")) =
          isActive status (c.matching family p) m := by
    intro m
    unfold isActive
    congr 1
    cases hread : status m.interface <;> simp [memberReport, reportedOnline, hread]
  rw [reportedShares, hreports, List.filter_flatMap]
  simp only [List.filter_map, Function.comp_def, hstatus]
  rw [List.map_flatMap]
  simp only [List.map_map]
  rw [← List.map_flatMap, flatMap_byMetric_filter, ← hactive]
  refine List.map_congr_left fun m hm => ?_
  rw [Function.comp_apply, percent_eq (List.mem_filter.mp hm).2, totalWeight_eq]
  rfl

theorem familyMembers_eq (family : Family) (p : PolicySection) :
    c.toConfig.familyMembers ⟨p.name, c.shellMembers p, p.lastResort⟩ family =
      if family = .ipv6 ∧ c.noIpv6 = true then []
      else (c.best family (c.shellMembers p)).map c.toConfig.entry := by
  have hlive : ∀ {family m}, c.toConfig.live family m = true → m.interface ≠ "" := by
    intro family m hm
    obtain ⟨iface, hiface, -⟩ := (Option.any_eq_true _ _).mp hm
    have hname : iface.name = m.interface := by simpa using List.find?_some hiface
    exact hname ▸ c.interfaceNames iface (List.mem_of_find?_eq_some hiface)
  have henters : ∀ family, ¬ (family = .ipv6 ∧ c.noIpv6 = true) →
      (c.shellMembers p).filter (c.toConfig.enters family) = (c.shellMembers p).filter fun m =>
        decide (m.metric ≤ Config.defaultLowestMetric) && c.toConfig.live family m := by
    intro family hno
    refine List.filter_congr fun m _ => ?_
    have hguard : (decide (family = .ipv6) && c.noIpv6) = false := by
      simpa using hno
    have hguard : (decide (family = .ipv6) && c.toConfig.noIpv6) = false := hguard
    unfold Config.enters
    rw [hguard]
    cases hm : c.toConfig.live family m with
    | true => simp [hlive hm]
    | false => simp
  have hnone : c.noIpv6 = true →
      (c.shellMembers p).filter (c.toConfig.enters .ipv6) = [] := by
    intro hno
    refine List.filter_eq_nil_iff.mpr fun m _ => ?_
    have hguard : c.toConfig.noIpv6 = true := hno
    simp [Config.enters, hguard]
  cases family with
  | ipv4 =>
    rw [if_neg (by simp), best, ← henters .ipv4 (by simp)]
    exact congrArg Prod.fst (Config.policyMembers_eq _)
  | ipv6 =>
    have hmembers := congrArg Prod.snd (Config.policyMembers_eq (c := c.toConfig)
      ⟨p.name, c.shellMembers p, p.lastResort⟩)
    by_cases hno : c.noIpv6 = true
    · rw [if_pos ⟨rfl, hno⟩]
      refine hmembers.trans ?_
      dsimp only
      rw [hnone hno]
      rfl
    · rw [if_neg fun h => hno h.2, best, ← henters .ipv6 fun h => hno h.2]
      exact hmembers

/-- The total weight of the chain is positive when some member that takes traffic has one. -/
theorem totalWeight_pos_iff (p : PolicySection) :
    0 < ((c.toConfig.familyMembers ⟨p.name, c.shellMembers p, p.lastResort⟩ .ipv4 ++
        c.toConfig.familyMembers ⟨p.name, c.shellMembers p, p.lastResort⟩ .ipv6).map
          Prod.snd).sum ↔
      ∃ either m, (either = .ipv6 → c.noIpv6 = false) ∧
        m ∈ c.best either (c.shellMembers p) ∧ 0 < m.weight := by
  have hentry : ∀ {family member},
      member ∈ c.toConfig.familyMembers ⟨p.name, c.shellMembers p, p.lastResort⟩ family ↔
        (family = .ipv6 → c.noIpv6 = false) ∧
          ∃ m ∈ c.best family (c.shellMembers p), c.toConfig.entry m = member := by
    intro family member
    rw [familyMembers_eq]
    split
    case isTrue hno => simp [hno]
    case isFalse hno =>
      have hopen : family = .ipv6 → c.noIpv6 = false := fun h => by simpa [h] using hno
      rw [List.mem_map]
      exact (and_iff_right hopen).symm
  rw [List.sum_pos_iff_exists_pos_nat]
  constructor
  · rintro ⟨weight, hweight, hpos⟩
    obtain ⟨member, hmember, rfl⟩ := List.mem_map.mp hweight
    rcases List.mem_append.mp hmember with hin | hin
    · obtain ⟨hopen, m, hm, rfl⟩ := hentry.mp hin
      exact ⟨.ipv4, m, hopen, hm, hpos⟩
    · obtain ⟨hopen, m, hm, rfl⟩ := hentry.mp hin
      exact ⟨.ipv6, m, hopen, hm, hpos⟩
  · rintro ⟨either, m, hopen, hm, hpos⟩
    have hin := hentry.mpr ⟨hopen, m, hm, rfl⟩
    refine ⟨m.weight, List.mem_map.mpr ⟨c.toConfig.entry m, ?_, rfl⟩, hpos⟩
    cases either with
    | ipv4 => exact List.mem_append_left _ hin
    | ipv6 => exact List.mem_append_right _ hin

/-- The chain of a policy section. -/
theorem renderedShares_eq (hp : p ∈ c.policies) (family : Family) :
    c.toConfig.renderedShares p.name family =
      if 15 < p.name.length then []
      else if 0 < ((c.toConfig.familyMembers ⟨p.name, c.shellMembers p, p.lastResort⟩ .ipv4 ++
          c.toConfig.familyMembers ⟨p.name, c.shellMembers p, p.lastResort⟩ .ipv6).map
            Prod.snd).sum then
        c.toConfig.familyShares
          (c.toConfig.familyMembers ⟨p.name, c.shellMembers p, p.lastResort⟩ family)
      else [] := by
  have hpolicy : c.toConfig.policy p.name = some ⟨p.name, c.shellMembers p, p.lastResort⟩ := by
    unfold Config.policy toConfig
    dsimp only
    rw [List.find?_map]
    have hfind : c.policies.find? ((fun q : Policy => decide (q.name = p.name)) ∘ fun q =>
      ⟨q.name, c.shellMembers q, q.lastResort⟩) = some p := by
      cases hfound : c.policies.find? ((fun q : Policy => decide (q.name = p.name)) ∘ fun q =>
        ⟨q.name, c.shellMembers q, q.lastResort⟩) with
      | none => simpa using List.find?_eq_none.mp hfound p hp
      | some q =>
        have hname : q.name = p.name := by simpa using List.find?_some hfound
        rw [List.inj_on_of_nodup_map c.policyNames (List.mem_of_find?_eq_some hfound) hp hname]
    rw [hfind]
    rfl
  rw [Config.renderedShares, hpolicy]

theorem ifaceId_of_live {m : Member} (h : c.toConfig.live family m = true) :
    c.toConfig.ifaceId m.interface = some (c.toConfig.entry m).1 := by
  obtain ⟨iface, hiface, -⟩ := (Option.any_eq_true _ _).mp h
  obtain ⟨id, hid⟩ := Option.isSome_iff_exists.mp
    (Config.ifaceId_isSome_iff.mpr (by rw [hiface]; rfl))
  simp [Config.entry, hid]

variable {members : List Member}

/-- The limit on the metric does not matter where an online member of the family keeps it. -/
theorem best_eq_of_exists (h : ∃ m ∈ members, c.toConfig.live family m = true ∧
      m.metric ≤ Config.defaultLowestMetric) :
    c.best family members = lowest (members.filter (c.toConfig.live family)) := by
  obtain ⟨first, hfirst, hlive, hmetric⟩ := h
  rw [best, lowest, lowest, List.filter_filter, List.filter_filter]
  refine List.filter_congr fun m _ => ?_
  rw [Bool.eq_iff_iff]
  simp only [Bool.and_eq_true, List.all_eq_true, List.mem_filter, decide_eq_true_eq]
  constructor
  · rintro ⟨hall, hm, hmlive⟩
    refine ⟨fun other hother => ?_, hmlive⟩
    by_cases hle : other.metric ≤ Config.defaultLowestMetric
    · exact hall other ⟨hother.1, hle, hother.2⟩
    · omega
  · rintro ⟨hall, hmlive⟩
    have hle := hall first ⟨hfirst, hlive⟩
    exact ⟨fun other hother => hall other ⟨hother.1, hother.2.2⟩, hle.trans hmetric, hmlive⟩

theorem exists_lowest (h : members ≠ []) :
    ∃ m ∈ members, ∀ other ∈ members, m.metric ≤ other.metric := by
  induction members with
  | nil => exact absurd rfl h
  | cons first members ih =>
    by_cases hnil : members = []
    · exact ⟨first, List.mem_cons_self, by simp [hnil]⟩
    · obtain ⟨m, hm, hle⟩ := ih hnil
      rcases Int.le_total first.metric m.metric with hfirst | hfirst
      · refine ⟨first, List.mem_cons_self, fun other hother => ?_⟩
        rcases List.mem_cons.mp hother with rfl | hother
        · exact Int.le_refl _
        · exact hfirst.trans (hle other hother)
      · refine ⟨m, List.mem_cons_of_mem _ hm, fun other hother => ?_⟩
        rcases List.mem_cons.mp hother with rfl | hother
        · exact hfirst
        · exact hle other hother

theorem lowest_eq_nil_iff : lowest members = [] ↔ members = [] := by
  refine ⟨fun hlowest => ?_, fun hnil => by rw [hnil]; rfl⟩
  by_contra hne
  obtain ⟨m, hm, hle⟩ := exists_lowest hne
  refine List.filter_eq_nil_iff.mp hlowest m hm (List.all_eq_true.mpr fun other hother => ?_)
  exact decide_eq_true (hle other hother)

theorem familyShares_best (h : ∀ m, members = [m] → 0 < m.weight)
    (hlive : ∀ m ∈ members, c.toConfig.live family m = true) :
    c.toConfig.familyShares (members.map c.toConfig.entry) = members.map fun m =>
      (c.toConfig.ifaceId m.interface, m.weight * 100 / (members.map Member.weight).sum) := by
  match members, h, hlive with
  | [], _, _ => rfl
  | [m], h, hlive =>
    have hweight : m.weight * 100 / m.weight = 100 := Nat.mul_div_cancel_left 100 (h m rfl)
    rw [List.map_singleton, List.map_singleton, List.map_singleton, List.sum_singleton,
      ifaceId_of_live (hlive m List.mem_cons_self), hweight]
    rfl
  | first :: second :: rest, _, hlive =>
    rw [Config.familyShares_eq _ (by simp), List.map_map, List.map_map]
    refine List.map_congr_left fun m hm => ?_
    rw [Function.comp_apply, ifaceId_of_live (hlive m hm)]
    rfl

theorem mem_useMembers {m : Member} (h : m ∈ c.shellMembers p) : m ∈ c.useMembers p := by
  unfold shellMembers at h
  unfold useMembers
  split at h
  case h_1 names hlist => rwa [hlist]
  case h_2 => cases h

theorem live_of_mem_lowest {m : Member} (h : m ∈ lowest (members.filter (c.toConfig.live family))) :
    c.toConfig.live family m = true :=
  (List.mem_filter.mp (List.mem_filter.mp h).1).2

/-- What the service reports for a policy and a family is what the chain holds exactly under
the condition. -/
theorem shares_agree_iff (h : c.FollowsHotplug status) (hp : p ∈ c.policies)
    (family : Family) :
    c.reportedShares status family p = c.toConfig.renderedShares p.name family ↔
      c.Agreeing p family := by
  have hreported := reportedShares_eq h family p
  have hrendered := renderedShares_eq hp family
  rw [hreported, hrendered]
  constructor
  · intro heq
    by_cases hnone : ∀ m ∈ c.useMembers p, c.toConfig.live family m = false
    · exact Or.inl hnone
    right
    push Not at hnone
    obtain ⟨some, hsome, hlive⟩ := hnone
    have hlowest : lowest ((c.useMembers p).filter (c.toConfig.live family)) ≠ [] := by
      rw [Ne, lowest_eq_nil_iff]
      intro hnil
      exact List.filter_eq_nil_iff.mp hnil some hsome (by simpa using hlive)
    -- The service reports somebody, so the chain has a rule for the family.
    have hright : ∀ shares, (lowest ((c.useMembers p).filter (c.toConfig.live family))).map
        (fun m => (c.toConfig.ifaceId m.interface, m.weight * 100 /
          ((lowest ((c.useMembers p).filter (c.toConfig.live family))).map
            Member.weight).sum)) = shares → shares ≠ [] := by
      rintro _ rfl hnil
      exact hlowest (List.map_eq_nil_iff.mp hnil)
    have hlen : p.name.length ≤ 15 := by
      by_contra hlong
      exact hright _ heq (if_pos (by omega))
    rw [if_neg (by omega)] at heq
    have htotal : 0 < ((c.toConfig.familyMembers ⟨p.name, c.shellMembers p, p.lastResort⟩ .ipv4 ++
        c.toConfig.familyMembers ⟨p.name, c.shellMembers p, p.lastResort⟩ .ipv6).map
          Prod.snd).sum := by
      by_contra hzero
      exact hright _ heq (if_neg hzero)
    rw [if_pos htotal, familyMembers_eq] at heq
    have hopen : family = .ipv6 → c.noIpv6 = false := by
      intro hfamily
      by_contra hno
      rw [if_pos ⟨hfamily, by simpa using hno⟩] at heq
      exact hright _ heq rfl
    have hopen' : ¬ (family = .ipv6 ∧ c.noIpv6 = true) := fun hno => by
      simp [hopen hno.1] at hno
    rw [if_neg hopen'] at heq
    have hbest : c.best family (c.shellMembers p) ≠ [] := by
      intro hnil
      rw [hnil] at heq
      exact hright _ heq rfl
    obtain ⟨m, hm⟩ := List.exists_mem_of_ne_nil _ (mt lowest_eq_nil_iff.mpr hbest)
    have hm := List.mem_filter.mp hm
    rw [Bool.and_eq_true, decide_eq_true_iff] at hm
    have hexists : ∃ m ∈ c.useMembers p, c.toConfig.live family m = true ∧
        m.metric ≤ Config.defaultLowestMetric := ⟨m, mem_useMembers hm.1, hm.2.2, hm.2.1⟩
    obtain ⟨names, hlist⟩ : ∃ names, p.useMember = .list names := by
      have hmem := hm.1
      unfold shellMembers at hmem
      split at hmem
      case h_1 names hlist => exact ⟨names, hlist⟩
      case h_2 => cases hmem
    have hsame : c.shellMembers p = c.useMembers p := by
      simp [shellMembers, useMembers, hlist]
    rw [hsame] at heq
    refine ⟨⟨names, hlist⟩, hlen, hopen, hexists, hsame ▸ (totalWeight_pos_iff p).mp htotal, ?_⟩
    intro alone halone
    rw [← best_eq_of_exists hexists, halone] at heq
    by_contra hzero
    have hweight : alone.weight = 0 := by omega
    simp [Config.familyShares, Config.entry, hweight] at heq
  · rintro (hnone | ⟨⟨names, hlist⟩, hlen, hopen, hexists, hweight, halone⟩)
    · have hnil : ∀ members : List Member, (∀ m ∈ members, m ∈ c.useMembers p) →
          members.filter (c.toConfig.live family) = [] := fun members hmembers =>
      List.filter_eq_nil_iff.mpr fun m hm => by simp [hnone m (hmembers m hm)]
      have hbest : c.best family (c.shellMembers p) = [] := by
        rw [best, lowest_eq_nil_iff]
        refine List.filter_eq_nil_iff.mpr fun m hm => ?_
        simp [hnone m (mem_useMembers hm)]
      have hmembers : c.toConfig.familyMembers ⟨p.name, c.shellMembers p, p.lastResort⟩ family =
          [] := by
        rw [familyMembers_eq, hbest]
        split <;> rfl
      rw [hnil _ fun _ hm => hm, hmembers]
      split
      · rfl
      · split <;> rfl
    · have hsame : c.shellMembers p = c.useMembers p := by
        simp [shellMembers, useMembers, hlist]
      have hopen' : ¬ (family = .ipv6 ∧ c.noIpv6 = true) := fun hno => by
        simp [hopen hno.1] at hno
      rw [if_neg (by omega), if_pos ((totalWeight_pos_iff p).mpr (hsame ▸ hweight)),
        familyMembers_eq, if_neg hopen', hsame, best_eq_of_exists hexists]
      rw [best_eq_of_exists hexists] at halone
      exact (familyShares_best halone fun m hm => live_of_mem_lowest hm).symm

/-- Two uplinks, with a policy over the given members that are written as a list. -/
def uplinks (metric : Int) : PolicyConfig where
  mmxMask := 0x3f00#32
  noIpv6 := false
  interfaces := [⟨"wan", some .ipv4, some "eth1", true⟩, ⟨"wanb", some .ipv4, some "eth2", true⟩]
  members := [("wan_m", ⟨"wan", metric, 3⟩), ("wanb_m", ⟨"wanb", metric, 2⟩)]
  policies := [⟨"balanced", .list ["wan_m", "wanb_m"], .unreachable⟩]
  interfaceNames := by simp
  policyNames := by simp

/-- The policy of `uplinks`. -/
def balanced : PolicySection := ⟨"balanced", .list ["wan_m", "wanb_m"], .unreachable⟩

theorem uplinks_followsHotplug (metric : Int) :
    (uplinks metric).FollowsHotplug fun _ => some "online" := by
  simp [FollowsHotplug, uplinks]

/-- Both uplinks share the traffic, 60 to 40, in the report and in the chain. -/
theorem shares_agree_of_metric_one :
    (uplinks 1).reportedShares (fun _ => some "online") .ipv4 balanced =
      (uplinks 1).toConfig.renderedShares "balanced" .ipv4 := by
  have hp : balanced ∈ (uplinks 1).policies := by simp [uplinks, balanced]
  have hmembers : (uplinks 1).useMembers balanced = [⟨"wan", 1, 3⟩, ⟨"wanb", 1, 2⟩] := rfl
  have hbest : (uplinks 1).best .ipv4 ((uplinks 1).useMembers balanced) =
      [⟨"wan", 1, 3⟩, ⟨"wanb", 1, 2⟩] := rfl
  refine (shares_agree_iff (uplinks_followsHotplug 1) hp .ipv4).mpr (Or.inr ⟨⟨_, rfl⟩,
    by decide, fun _ => rfl, ⟨⟨"wan", 1, 3⟩, ?_, rfl, by decide⟩,
    ⟨.ipv4, ⟨"wan", 1, 3⟩, fun _ => rfl, ?_, by decide⟩, fun m hm => ?_⟩)
  · rw [hmembers]
    exact List.mem_cons_self
  · rw [hbest]
    exact List.mem_cons_self
  · exact absurd (congrArg List.length (hbest.symm.trans hm)) (by simp)

/-- With a metric of 300 the service reports both uplinks as sharing the traffic, and the
chain has neither. -/
theorem not_shares_agree_of_metric_300 :
    (uplinks 300).FollowsHotplug (fun _ => some "online") ∧
      (uplinks 300).reportedShares (fun _ => some "online") .ipv4 balanced =
        [(some 1, 60), (some 2, 40)] ∧
      (uplinks 300).toConfig.renderedShares "balanced" .ipv4 = [] := by
  refine ⟨uplinks_followsHotplug 300, ?_, by decide⟩
  rw [reportedShares_eq (uplinks_followsHotplug 300)]
  decide

end PolicyConfig

end OpenWrt.Mwan3
