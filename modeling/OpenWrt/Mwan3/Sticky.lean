/-
# Sticky sources stay with one member

A sticky rule has a set of source addresses for each member of its policy. A
packet looks its source up in all of them, each hit adding that member's mark;
without a hit the policy chooses a mark, and the source is added to the sets of
the members with that mark.

As long as a source is in one of these sets only, it keeps being in one only,
and a lookup adds a single mark. This module proves it for the packets, and then
for every run of packets, timeouts, hotplug events and reloads in which a reload
never adds a member that still has old sources in its set. Without the condition
it fails: a member that leaves a policy keeps its set, and finds it again when it
comes back.
-/

import OpenWrt.Lib.Run
import OpenWrt.Mwan3.Isolation

namespace OpenWrt.Mwan3

open OpenWrt.Netfilter OpenWrt.Lib

abbrev StickySets := StickySet → Addr → Bool

namespace Config

variable (c : Config)

/-! ## Members -/

def IsMember (family : Family) (rule : String) (id : ℕ) : Prop :=
  ∃ r ∈ c.rules, r.name = rule ∧ id ∈ c.policyMembersForFamily r.usePolicy family

/-- Each source is in the set of at most one member of a rule. -/
def Exclusive (sets : StickySets) : Prop :=
  ∀ family rule addr id₁ id₂, c.IsMember family rule id₁ → c.IsMember family rule id₂ →
    sets ⟨family, rule, id₁⟩ addr = true → sets ⟨family, rule, id₂⟩ addr = true → id₁ = id₂

def MarksSuffice : Prop :=
  (c.interfaces.length : Int) ≤ interfaceMax c.mmxMask

variable {c}

theorem IsMember.exists_interface {family : Family} {rule : String} {id : ℕ}
    (h : c.IsMember family rule id) :
    ∃ iface ∈ c.interfaces, iface.family = some family ∧ c.ifaceId iface.name = some id := by
  obtain ⟨r, -, -, hid⟩ := h
  unfold policyMembersForFamily at hid
  split at hid
  · simp at hid
  · simp only [List.mem_filterMap] at hid
    obtain ⟨member, -, hid⟩ := hid
    split at hid
    case h_1 iface hiface =>
      split at hid
      case isTrue hfamily =>
        have hname : iface.name = member.interface := by
          simpa using List.find?_some hiface
        exact ⟨iface, List.mem_of_find?_eq_some hiface, hfamily.2, hname ▸ hid⟩
      case isFalse => cases hid
    case h_2 => cases hid

theorem ifaceId_bounds {name : String} {id : ℕ} (h : c.ifaceId name = some id) :
    1 ≤ id ∧ id ≤ c.interfaces.length := by
  simp only [ifaceId, Option.map_eq_some_iff] at h
  obtain ⟨index, hindex, rfl⟩ := h
  have := (List.findIdx?_eq_some_iff_findIdx_eq.mp hindex).1
  omega

/-- A member's mark is of the enumeration and has a bit set. -/
theorem IsMember.mark_spec {family : Family} {rule : String} {id : ℕ}
    (h : c.IsMember family rule id) (hmarks : c.MarksSuffice) :
    id2mask id c.mmxMask ∈ allMarks c.mmxMask ∧ id2mask id c.mmxMask ≠ 0 := by
  obtain ⟨iface, -, -, hid⟩ := h.exists_interface
  obtain ⟨hlow, hhigh⟩ := ifaceId_bounds hid
  unfold MarksSuffice interfaceMax at hmarks
  refine ⟨?_, fun hzero => ?_⟩
  · exact List.mem_append_left _ (List.mem_map.mpr ⟨id, mem_seqFromOne.mpr (by
      unfold interfaceMax
      omega), rfl⟩)
  · have hid0 : id = 0 := by
      have hsame : id2mask id c.mmxMask = id2mask (0 : ℕ) c.mmxMask := by
        rw [hzero]
        exact (id2mask_zero c.mmxMask).symm
      exact id2mask_injective (by omega) (by omega) hsame
    omega

theorem IsMember.eq_of_mark_eq {family : Family} {rule : String} {id₁ id₂ : ℕ}
    (h₁ : c.IsMember family rule id₁) (h₂ : c.IsMember family rule id₂)
    (hmarks : c.MarksSuffice) (h : id2mask id₁ c.mmxMask = id2mask id₂ c.mmxMask) :
    id₁ = id₂ := by
  obtain ⟨_, -, -, hid₁⟩ := h₁.exists_interface
  obtain ⟨_, -, -, hid₂⟩ := h₂.exists_interface
  have hhigh₁ := (ifaceId_bounds hid₁).2
  have hhigh₂ := (ifaceId_bounds hid₂).2
  unfold MarksSuffice interfaceMax at hmarks
  exact id2mask_injective (by omega) (by omega) h

/-! ## The lookups -/

section DataPath

variable (packet : Packet) {r : UserRule} (depth : ℕ)

/-- The packet is unmarked, or marked for a member whose set has its source. -/
def Pinned (c : Config) (r : UserRule) (packet : Packet) (s : MarkState) : Prop :=
  s.metaMark &&& c.mmxMask = 0 ∨
    ∃ id, c.IsMember packet.nfproto r.name id ∧
      s.sets ⟨packet.nfproto, r.name, id⟩ packet.saddr = true ∧
      s.metaMark &&& c.mmxMask = id2mask id c.mmxMask

variable {s : MarkState}

/-- One lookup of a pinned packet leaves it pinned, for a single member, and
marked if it hits. -/
theorem evalRule_stickyLookup (hmarks : c.MarksSuffice) {member : Family × ℕ}
    (hmember : c.IsMember member.1 r.name member.2) (hexcl : c.Exclusive s.sets)
    (hpinned : Pinned c r packet s) :
    ∃ t, evalRule (evalChain c.ruleset packet (depth + 1)) packet
          (c.stickyLookup r member) s = (t, .next) ∧
      t.sets = s.sets ∧ Pinned c r packet t ∧
      (t.metaMark &&& c.mmxMask = 0 → s.metaMark &&& c.mmxMask = 0 ∧
        (member.1 = packet.nfproto →
          s.sets ⟨packet.nfproto, r.name, member.2⟩ packet.saddr = false)) := by
  obtain ⟨family, id⟩ := member
  unfold stickyLookup Packet.saddrOf
  by_cases hfamily : packet.nfproto = family
  · subst hfamily
    simp only [evalRule, if_true]
    by_cases hhit : s.sets ⟨packet.nfproto, r.name, id⟩ packet.saddr = true
    · obtain ⟨hmem, hne⟩ := hmember.mark_spec hmarks
      rw [if_pos hhit]
      refine ⟨_, c.evalChain_orMeta packet hmem depth s, rfl, ?_, ?_⟩
      · -- an earlier hit was of the same member, whose mark is added again
        refine .inr ⟨id, hmember, hhit, ?_⟩
        change (s.metaMark ||| id2mask id c.mmxMask) &&& c.mmxMask = _
        rw [BitVec.and_or_distrib_right, id2mask_and_mask]
        rcases hpinned with hzero | ⟨id', hmember', hhit', hmark⟩
        · rw [hzero]
          exact BitVec.zero_or
        · rw [hmark, hexcl _ _ _ _ _ hmember' hmember hhit' hhit, BitVec.or_self]
      · intro hzero
        change (s.metaMark ||| id2mask id c.mmxMask) &&& c.mmxMask = 0 at hzero
        rw [BitVec.and_or_distrib_right, id2mask_and_mask] at hzero
        exact absurd (BitVec.or_eq_zero_iff.mp hzero).2 hne
    · rw [if_neg hhit]
      exact ⟨s, rfl, rfl, hpinned, fun hzero => ⟨hzero, fun _ => by simpa using hhit⟩⟩
  · simp only [evalRule, if_neg hfamily]
    exact ⟨s, rfl, rfl, hpinned, fun hzero => ⟨hzero, fun h => absurd h.symm hfamily⟩⟩

/-- All lookups of a pinned packet leave it pinned; if it stays unmarked, none of
them hit. -/
theorem evalRules_stickyLookup (hmarks : c.MarksSuffice) {members : List (Family × ℕ)}
    (hmembers : ∀ member ∈ members, c.IsMember member.1 r.name member.2)
    (hexcl : c.Exclusive s.sets) (hpinned : Pinned c r packet s) :
    ∃ t, evalRules (evalChain c.ruleset packet (depth + 1)) packet
          (members.map (c.stickyLookup r)) s = (t, .next) ∧
      t.sets = s.sets ∧ Pinned c r packet t ∧
      (t.metaMark &&& c.mmxMask = 0 → s.metaMark &&& c.mmxMask = 0 ∧
        ∀ member ∈ members, member.1 = packet.nfproto →
          s.sets ⟨packet.nfproto, r.name, member.2⟩ packet.saddr = false) := by
  induction members generalizing s with
  | nil => exact ⟨s, rfl, rfl, hpinned, fun hzero => ⟨hzero, fun member hmem => by simp at hmem⟩⟩
  | cons member members ih =>
    obtain ⟨t, hrule, hsets, hpinned', hfirst⟩ := evalRule_stickyLookup packet depth
      hmarks (hmembers member (by simp)) hexcl hpinned
    obtain ⟨u, hrules, hsets', hpinned'', hrest⟩ :=
      ih (fun m hm => hmembers m (by simp [hm])) (hsets ▸ hexcl) hpinned'
    refine ⟨u, ?_, hsets'.trans hsets, hpinned'', fun hzero => ?_⟩
    · rw [List.map_cons, evalRules_cons_next hrule, hrules]
    · obtain ⟨hzero', hmiss⟩ := hrest hzero
      refine ⟨(hfirst hzero').1, fun m hm hfamily => ?_⟩
      rcases List.mem_cons.mp hm with rfl | hm
      · exact (hfirst hzero').2 hfamily
      · rw [← hsets]
        exact hmiss m hm hfamily

/-! ## The updates -/

/-- The updates add the source to the sets of the members with the packet's mark
and do nothing else. -/
theorem evalRules_stickyUpdate
    (call : Chain → MarkState → MarkState × Verdict) (members : List (Family × ℕ))
    (s : MarkState) :
    ∃ t, evalRules call packet (members.map (c.stickyUpdate r)) s = (t, .next) ∧
      t.metaMark = s.metaMark ∧
      ∀ set addr, t.sets set addr = true ↔ s.sets set addr = true ∨
        ∃ id, (packet.nfproto, id) ∈ members ∧ set = ⟨packet.nfproto, r.name, id⟩ ∧
          addr = packet.saddr ∧ s.metaMark &&& c.mmxMask = id2mask id c.mmxMask := by
  induction members generalizing s with
  | nil => exact ⟨s, rfl, rfl, fun set addr => by simp⟩
  | cons member members ih =>
    obtain ⟨family, id⟩ := member
    -- the state after the first update
    have hfirst : ∃ t, evalRule call packet (c.stickyUpdate r (family, id)) s = (t, .next) ∧
        t.metaMark = s.metaMark ∧
        ∀ set addr, t.sets set addr = true ↔ s.sets set addr = true ∨
          (packet.nfproto = family ∧ set = ⟨packet.nfproto, r.name, id⟩ ∧
            addr = packet.saddr ∧ s.metaMark &&& c.mmxMask = id2mask id c.mmxMask) := by
      unfold stickyUpdate Packet.saddrOf
      by_cases hmark : s.metaMark &&& c.mmxMask = id2mask id c.mmxMask
      · rw [evalRule_testMark_pass (by simpa [State.mark] using hmark)]
        by_cases hfamily : packet.nfproto = family
        · subst hfamily
          simp only [evalRule, if_true]
          refine ⟨_, rfl, rfl, fun set addr => ?_⟩
          simp [State.insert, hmark, or_comm]
        · simp only [evalRule, if_neg hfamily]
          exact ⟨s, rfl, rfl, fun set addr => by simp [hfamily]⟩
      · rw [evalRule_testMark_fail (by simpa [State.mark] using hmark)]
        exact ⟨s, rfl, rfl, fun set addr => by simp [hmark]⟩
    obtain ⟨t, hrule, hmeta, hsets⟩ := hfirst
    obtain ⟨u, hrules, hmeta', hsets'⟩ := ih t
    refine ⟨u, ?_, hmeta'.trans hmeta, fun set addr => ?_⟩
    · rw [List.map_cons, evalRules_cons_next hrule, hrules]
    · rw [hsets' set addr, hsets set addr, hmeta, or_assoc]
      refine or_congr_right ⟨?_, ?_⟩
      · rintro (⟨rfl, hset, haddr, hmark⟩ | ⟨id', hmem, hrest⟩)
        · exact ⟨id, by simp, hset, haddr, hmark⟩
        · exact ⟨id', by simp [hmem], hrest⟩
      · rintro ⟨id', hmem, hrest⟩
        rcases List.mem_cons.mp hmem with heq | hmem
        · obtain ⟨rfl, rfl⟩ := Prod.mk.inj heq
          exact .inl ⟨rfl, hrest⟩
        · exact .inr ⟨id', hmem, hrest⟩

/-! ## A rule's own chain -/

/-- The chains that touch no sticky set: the setters, and those of rank up to the
policies. -/
def IsQuiet (chain : Chain) : Prop :=
  chainRank chain ≤ 2

/-- Those chains leave the sets as they are. -/
theorem evalChain_sets (depth : ℕ) {chain : Chain} (h : IsQuiet chain) (s : MarkState) :
    (evalChain c.ruleset packet depth chain s).1.sets = s.sets := by
  have hframing : Framing (fun s t : MarkState => t.sets = s.sets) :=
    ⟨fun _ => rfl, fun h₁ h₂ => h₂.trans h₁, fun _ _ => rfl⟩
  have hset : ∀ register value (s : MarkState), (s.setMark value register).sets = s.sets := by
    intro register value s
    cases register <;> rfl
  refine evalChain_respects hframing IsQuiet (fun chain hquiet => ?_) depth h s
  by_cases hbody : IsBody chain
  · intro rule hrule e he
    have hform := c.bodyExpr_ruleset hbody rule hrule e he
    cases e with
    | setMark register keep value => exact fun s => hset register _ s
    | update key set =>
      obtain rfl : chain = .rule set.rule := hform
      exact absurd hquiet (by simp [IsQuiet, chainRank])
    | numgen modulus entries =>
      intro entry hentry
      have hlt := (hform entry hentry).2
      unfold IsQuiet at hquiet ⊢
      omega
    | jump callee =>
      have hlt := hform.2
      unfold Expr.Respects
      unfold IsQuiet at hquiet ⊢
      omega
    | vmap | accept => exact hform.elim
    | test | testMark | lookup | log | ret => trivial
  · cases chain with
    | prerouting | output => exact absurd hquiet (by simp [IsQuiet, chainRank])
    | orCt mark =>
      intro rule hrule e he
      obtain ⟨rfl, -⟩ := c.eq_of_mem_orCt hrule he
      exact fun s => hset .ctMark _ s
    | ifacesIn | rules | connected | custom | dynamic | ifaceIn | policy | rule | orMeta =>
      exact absurd trivial hbody

theorem isMember_of_mem_stickyMembers (hr : r ∈ c.rules) {families : List Family}
    {member : Family × ℕ} (h : member ∈ c.stickyMembers r families) :
    c.IsMember member.1 r.name member.2 := by
  simp only [stickyMembers, List.mem_flatMap, List.mem_map] at h
  obtain ⟨family, -, id, hid, rfl⟩ := h
  exact ⟨r, hr, rfl, hid⟩

theorem eq_of_name_eq {r₁ r₂ : UserRule} (h₁ : r₁ ∈ c.rules) (h₂ : r₂ ∈ c.rules)
    (h : r₁.name = r₂.name) : r₁ = r₂ :=
  List.inj_on_of_nodup_map c.ruleNames h₁ h₂ h

theorem mem_stickyMembers (hr : r ∈ c.rules) {families : List Family} {family : Family}
    {id : ℕ} (hfamily : family ∈ families) (h : c.IsMember family r.name id) :
    (family, id) ∈ c.stickyMembers r families := by
  obtain ⟨r', hr', hname, hid⟩ := h
  obtain rfl := eq_of_name_eq hr' hr hname
  simp only [stickyMembers, List.mem_flatMap, List.mem_map]
  exact ⟨family, hfamily, id, hid, rfl⟩

/-- Adding a source to the set of one member keeps the sets exclusive if no other
member's set has it. -/
theorem Exclusive.add {sets sets' : StickySets} (hexcl : c.Exclusive sets) (family : Family)
    (rule : String) (source : Addr) (added : ℕ → Prop)
    (hadded : ∀ set addr, sets' set addr = true ↔ sets set addr = true ∨
      ∃ id, added id ∧ set = ⟨family, rule, id⟩ ∧ addr = source)
    (hsole : ∀ id id', added id → c.IsMember family rule id' →
      sets ⟨family, rule, id'⟩ source = true → id = id')
    (hone : ∀ id id', added id → added id' → id = id') : c.Exclusive sets' := by
  intro family' rule' addr id₁ id₂ hmember₁ hmember₂ h₁ h₂
  rcases (hadded _ _).mp h₁ with h₁ | ⟨_, hadd₁, hset₁, rfl⟩
  · rcases (hadded _ _).mp h₂ with h₂ | ⟨_, hadd₂, hset₂, rfl⟩
    · exact hexcl _ _ _ _ _ hmember₁ hmember₂ h₁ h₂
    · obtain ⟨rfl, rfl, rfl⟩ := StickySet.mk.inj hset₂
      exact (hsole _ _ hadd₂ hmember₁ h₁).symm
  · obtain ⟨rfl, rfl, rfl⟩ := StickySet.mk.inj hset₁
    rcases (hadded _ _).mp h₂ with h₂ | ⟨_, hadd₂, hset₂, -⟩
    · exact hsole _ _ hadd₁ hmember₂ h₂
    · obtain ⟨-, -, rfl⟩ := StickySet.mk.inj hset₂
      exact hone _ _ hadd₁ hadd₂

/-- The policy of a rule is asked by an unmarked packet only, and touches no
sticky set. -/
theorem evalRule_jumpPolicy (policy : String) (t : MarkState) :
    ∃ u, evalRule (evalChain c.ruleset packet (depth + 3)) packet
          (c.jumpUnmarked (.policy policy)) t = (u, .next) ∧
      u.sets = t.sets ∧ (t.metaMark &&& c.mmxMask ≠ 0 → u.metaMark = t.metaMark) := by
  obtain ⟨hframe, hnext⟩ := c.evalRule_jumpUnmarked packet
    (show IsBody (.policy policy) from trivial) (by simp [chainRank])
    (show chainRank (.policy policy) < depth + 3 by simp [chainRank]) t
  refine ⟨_, Prod.ext rfl hnext, ?_, hframe.2⟩
  unfold jumpUnmarked unmarked
  rw [evalRule]
  split
  · exact evalChain_sets packet _ (by simp [IsQuiet, chainRank]) t
  · rfl

/-- One pass of a rule's chain, entered by an unmarked packet, keeps each source
in the set of at most one member. -/
theorem evalRules_stickyPass (hmarks : c.MarksSuffice) (hr : r ∈ c.rules) (ipv : Family)
    (hexcl : c.Exclusive s.sets) (hzero : s.metaMark &&& c.mmxMask = 0) :
    c.Exclusive (evalRules (evalChain c.ruleset packet (depth + 3)) packet
      (c.stickyPass r ipv) s).1.sets := by
  unfold stickyPass
  split
  · exact hexcl
  · obtain ⟨t, hlookups, hsets, hpinned, hmiss⟩ := evalRules_stickyLookup packet (depth + 2) hmarks
      (fun member (hmem : member ∈ c.stickyMembers r (c.stickyFamilies r ipv)) =>
        isMember_of_mem_stickyMembers hr hmem) hexcl (.inl hzero)
    obtain ⟨u, hpolicy, hquiet, hkeep⟩ := evalRule_jumpPolicy (c := c) packet depth
      r.usePolicy t
    obtain ⟨v, hupdates, -, hadded⟩ := evalRules_stickyUpdate (c := c) (r := r) packet
      (evalChain c.ruleset packet (depth + 3)) (c.stickyMembers r (c.stickyFamilies r ipv)) u
    rw [evalRules_append_next hlookups, evalRules_cons_next hpolicy, hupdates]
    rw [hquiet, hsets] at hadded
    refine hexcl.add packet.nfproto r.name packet.saddr
      (fun id => (packet.nfproto, id) ∈ c.stickyMembers r (c.stickyFamilies r ipv) ∧
        u.metaMark &&& c.mmxMask = id2mask id c.mmxMask)
      (fun set addr => (hadded set addr).trans (or_congr_right ?_)) ?_ ?_
    · exact exists_congr fun id => by tauto
    · -- a source that is in a set was marked for it by the lookups, and is added there again
      rintro id id' ⟨hmem, hmark⟩ hmember' hin
      have hserved : packet.nfproto ∈ c.stickyFamilies r ipv := by
        simp only [stickyMembers, List.mem_flatMap, List.mem_map] at hmem
        obtain ⟨family, hfamily, _, -, heq⟩ := hmem
        exact (Prod.mk.inj heq).1 ▸ hfamily
      have hne : t.metaMark &&& c.mmxMask ≠ 0 := fun h0 => by
        have hnot := (hmiss h0).2 _ (mem_stickyMembers hr hserved hmember') rfl
        exact absurd (hin.symm.trans hnot) (by decide)
      rw [hkeep hne] at hmark
      obtain ⟨id₀, hmember₀, hin₀, hmark₀⟩ := hpinned.resolve_left hne
      rw [hsets] at hin₀
      have hmember : c.IsMember packet.nfproto r.name id := isMember_of_mem_stickyMembers hr hmem
      have hsame : id = id₀ := hmember.eq_of_mark_eq hmember₀ hmarks (hmark.symm.trans hmark₀)
      rw [hsame]
      exact hexcl _ _ _ _ _ hmember₀ hmember' hin₀ hin
    · rintro id id' ⟨hmem, hmark⟩ ⟨hmem', hmark'⟩
      have hmember : c.IsMember packet.nfproto r.name id := isMember_of_mem_stickyMembers hr hmem
      exact hmember.eq_of_mark_eq (isMember_of_mem_stickyMembers hr hmem') hmarks
        (hmark.symm.trans hmark')

/-- A rule's chain is what a single pass adds to it. -/
theorem ruleChain_cases (r : UserRule) :
    c.ruleChain r = [] ∨ ∃ ipv, c.ruleChain r = c.stickyPass r ipv := by
  have hchain : c.ruleChain r =
      (if c.renders r .ipv4 && isSticky r then c.stickyPass r .ipv4 else []) ++
        (if c.renders r .ipv6 && isSticky r then c.stickyPass r .ipv6 else []) := by
    simp [ruleChain]
  rw [hchain]
  by_cases h₄ : (c.renders r .ipv4 && isSticky r) = true
  · by_cases h₆ : (c.renders r .ipv6 && isSticky r) = true
    · -- both passes render only an untied rule for any family, and the second adds nothing
      have hany : r.family = .any ∧ r.anchor = .free := by
        simp only [renders, Bool.and_eq_true, Bool.not_eq_true', Bool.or_eq_true,
          decide_eq_true_eq, decide_eq_false_iff_not, Bool.and_eq_false_iff] at h₄ h₆
        rcases r with ⟨name, enabled, family, anchor⟩
        cases family <;> rcases anchor with _ | ⟨_ | _ | _⟩ <;> simp_all
      have hnone : c.stickyPass r .ipv6 = [] := by
        simp [stickyPass, stickyFamilies, hany]
      exact .inr ⟨.ipv4, by simp [h₄, hnone]⟩
    · exact .inr ⟨.ipv4, by simp [h₄, h₆]⟩
  · by_cases h₆ : (c.renders r .ipv6 && isSticky r) = true
    · exact .inr ⟨.ipv6, by simp [h₄, h₆]⟩
    · exact .inl (by simp [h₄, h₆])

/-- At most one rule has a given name. -/
theorem filter_name_cases (name : String) :
    (c.rules.filter fun r => r.name = name) = [] ∨
      ∃ r ∈ c.rules, (c.rules.filter fun r => r.name = name) = [r] := by
  have hmem : ∀ r ∈ c.rules.filter fun r => r.name = name, r ∈ c.rules ∧ r.name = name := by
    intro r hr
    simpa using hr
  have hnodup : (c.rules.filter fun r => r.name = name).Nodup :=
    (List.Nodup.of_map _ c.ruleNames).filter _
  rcases hfilter : c.rules.filter fun r => r.name = name with _ | ⟨r, _ | ⟨r', rest⟩⟩
  · exact .inl hfilter
  · rw [hfilter] at hmem
    exact .inr ⟨r, (hmem r (by simp)).1, hfilter⟩
  · rw [hfilter] at hmem hnodup
    obtain ⟨hr, hname⟩ := hmem r (by simp)
    obtain ⟨hr', hname'⟩ := hmem r' (by simp)
    obtain rfl := eq_of_name_eq hr hr' (hname.trans hname'.symm)
    simp at hnodup

/-- A rule's chain, entered by an unmarked packet, keeps the sets exclusive. -/
theorem evalChain_rule (hmarks : c.MarksSuffice) (name : String) (hexcl : c.Exclusive s.sets)
    (hzero : s.metaMark &&& c.mmxMask = 0) :
    c.Exclusive (evalChain c.ruleset packet (depth + 4) (.rule name) s).1.sets := by
  have hbody : c.Exclusive (evalRules (evalChain c.ruleset packet (depth + 3)) packet
      (c.ruleset (.rule name)) s).1.sets := by
    simp only [ruleset]
    rcases filter_name_cases (c := c) name with hnone | ⟨r, hr, hone⟩
    · rw [hnone]
      exact hexcl
    · rw [hone, List.flatMap_singleton]
      rcases ruleChain_cases (c := c) r with hempty | ⟨ipv, hpass⟩
      · rw [hempty]
        exact hexcl
      · rw [hpass]
        exact evalRules_stickyPass packet depth hmarks hr ipv hexcl hzero
  rw [evalChain]
  split
  case h_1 t hresult =>
    rw [hresult] at hbody
    exact hbody
  case h_2 => exact hbody

/-! ## The whole traversal -/

def KeepsExclusive (c : Config) (s t : MarkState) : Prop :=
  c.Exclusive s.sets → c.Exclusive t.sets

theorem framing_keepsExclusive : Framing (KeepsExclusive c) where
  refl _ h := h
  trans h₁ h₂ h := h₂ (h₁ h)
  draws _ _ h := h

theorem isTest_ruleMatch (r : UserRule) (ipv : Family) : ∀ e ∈ ruleMatch r ipv, e.IsTest := by
  intro e he
  simp only [ruleMatch, List.mem_append, List.mem_singleton] at he
  rcases he with (rfl | he) | he
  · trivial
  · split at he
    · obtain rfl := List.mem_singleton.mp he
      trivial
    · simp at he
  · split at he
    · obtain rfl := List.mem_singleton.mp he
      trivial
    · obtain rfl := List.mem_singleton.mp he
      trivial
    · simp at he

/-- The action of a rule's line, taken by an unmarked packet. -/
theorem evalRule_policyAction (hmarks : c.MarksSuffice) (r : UserRule)
    (hzero : s.metaMark &&& c.mmxMask = 0) :
    KeepsExclusive c s (evalRule (evalChain c.ruleset packet (depth + 4)) packet
      [c.policyAction r] s).1 := by
  unfold policyAction
  split_ifs
  · exact fun h => h
  · exact fun h => h
  · exact fun h => h
  · exact fun hexcl => evalChain_rule packet depth hmarks r.name hexcl hzero
  · intro hexcl
    have hsets := evalChain_sets (c := c) packet (depth + 4)
      (show IsQuiet (.policy r.usePolicy) by simp [IsQuiet, chainRank]) s
    rw [evalRule, hsets]
    exact hexcl

/-- Every line of the user rules keeps the sets exclusive. -/
theorem evalRule_rulesChain (hmarks : c.MarksSuffice) {rule : List RuleExpr}
    (hrule : rule ∈ c.rulesChain) (s : MarkState) :
    KeepsExclusive c s (evalRule (evalChain c.ruleset packet (depth + 4)) packet rule s).1 := by
  have hline : ∀ r ipv action,
      (∀ s : MarkState, s.metaMark &&& c.mmxMask = 0 →
        KeepsExclusive c s
          (evalRule (evalChain c.ruleset packet (depth + 4)) packet [action] s).1) →
      KeepsExclusive c s (evalRule (evalChain c.ruleset packet (depth + 4)) packet
        (ruleMatch r ipv ++ [c.unmarked, action]) s).1 := by
    intro r ipv action haction
    rcases evalRule_tests_append (evalChain c.ruleset packet (depth + 4)) packet
      (isTest_ruleMatch r ipv) [c.unmarked, action] s with hskip | hmatch
    · rw [hskip]
      exact fun h => h
    · rw [hmatch]
      unfold unmarked
      by_cases hzero : s.metaMark &&& c.mmxMask = 0
      · rw [evalRule_testMark_pass (by simpa [State.mark] using hzero)]
        exact haction s hzero
      · rw [evalRule_testMark_fail (by simpa [State.mark] using hzero)]
        exact fun h => h
  simp only [rulesChain, List.mem_flatMap] at hrule
  obtain ⟨r, -, ipv, -, hrule⟩ := hrule
  unfold ruleLines at hrule
  split at hrule
  · rcases List.mem_append.mp hrule with hrule | hrule
    · split at hrule
      · obtain rfl := List.mem_singleton.mp hrule
        exact hline r ipv .log fun t _ h => h
      · simp at hrule
    · obtain rfl := List.mem_singleton.mp hrule
      exact hline r ipv _ fun t hzero => evalRule_policyAction packet depth hmarks r hzero
  · simp at hrule

/-- The chain of the user rules keeps the sets exclusive. -/
theorem evalChain_rules (hmarks : c.MarksSuffice) (s : MarkState) :
    KeepsExclusive c s (evalChain c.ruleset packet (depth + 5) .rules s).1 := by
  have hbody := evalRules_of_evalRule framing_keepsExclusive c.rulesChain
    (fun rule hrule t => evalRule_rulesChain packet depth hmarks hrule t) s
  rw [evalChain]
  split
  case h_1 t hresult =>
    rw [ruleset] at hresult
    rw [hresult] at hbody
    exact hbody
  case h_2 => exact hbody

/-- A packet that traverses a hook keeps the sets exclusive. -/
theorem evalHook_keepsExclusive (hmarks : c.MarksSuffice) (hook : Hook) (packet : Packet)
    (s : MarkState) :
    KeepsExclusive c s (evalHook c.ruleset packet hook.chain s).1 := by
  have hcall : ∀ chain, (chain = .rules ∨ chainRank chain ≤ 2) → ∀ t,
      KeepsExclusive c t (c.call packet chain t).1 := by
    rintro chain (rfl | hquiet) t
    · exact evalChain_rules packet 11 hmarks t
    · intro hexcl
      have hsets := evalChain_sets (c := c) packet jumpStackSize hquiet t
      rw [hsets]
      exact hexcl
  have hrespects : Everywhere
      (·.Respects (KeepsExclusive c) (fun chain => chain = .rules ∨ chainRank chain ≤ 2) packet)
      (c.ruleset hook.chain) := by
    intro rule hrule e he
    have hform := c.hookExpr_ruleset hook rule hrule e he
    cases e with
    | setMark register keep value =>
      intro s hexcl
      cases register <;> exact hexcl
    | vmap register mask entries =>
      intro entry hentry
      exact .inr (by rw [hform entry hentry]; decide)
    | jump callee => exact hform
    | update | numgen => exact hform.elim
    | test | testMark | lookup | log | ret | accept => trivial
  have hbody := evalRules_of_evalRule framing_keepsExclusive (c.ruleset hook.chain)
    (fun rule hrule t => evalRule_respects framing_keepsExclusive hcall (hrespects rule hrule) t) s
  unfold evalHook
  rw [evalChain]
  split
  case h_1 t hresult =>
    rw [hresult] at hbody
    exact hbody
  case h_2 => exact hbody

end DataPath

/-! ## Hotplug events and reloads -/

/-- The state of an interface after a hotplug event on it. -/
def setInterface (c : Config) (name : String) (online : Bool) (device : Option String) :
    Config :=
  { c with
    interfaces := c.interfaces.map fun iface =>
      if iface.name = name then { iface with online := online, device := device } else iface }

/-- `mwan3_delete_iface_map_entries`: flush every sticky set of the interface. -/
def deleteIfaceMapEntries (c : Config) (name : String) (sets : StickySets) : StickySets :=
  fun set addr => !(c.ifaceId name = some set.id) && sets set addr

def recMetric (p : Policy) (recovered : String) : Option Int :=
  ((p.members.filter fun m => m.interface = recovered).map Member.metric).min?

def worseIds (c : Config) (p : Policy) (recovered : String) : List ℕ :=
  match recMetric p recovered, c.interface recovered with
  | some recMetric, some rec =>
    p.members.filterMap fun m =>
      match c.interface m.interface, c.ifaceId m.interface with
      | some iface, some id =>
        if iface.family = rec.family ∧ recMetric < m.metric ∧
            c.ifaceId recovered ≠ some id then some id
        else none
      | _, _ => none
  | _, _ => []

/-- `mwan3_flush_worse_metric_sticky`: for each rule, flush the sets of the worse
members of its policy, in the family of the recovered interface. -/
def flushWorseMetricSticky (c : Config) (recovered : String) (sets : StickySets) :
    StickySets :=
  fun set addr =>
    !((c.interface recovered).any (fun rec =>
      set.family = (if rec.family = some .ipv6 then Family.ipv6 else .ipv4)) &&
      c.rules.any fun r => r.name = set.rule &&
        (c.policy r.usePolicy).any fun p => (c.worseIds p recovered).contains set.id) &&
      sets set addr

end Config

/-- The running service: what it was configured with and its sticky sets. -/
structure Service where
  config : Config
  sets : StickySets

/-- What can happen to the service. -/
inductive ServiceEvent
  | /-- A packet traverses a hook. -/
    packet (hook : Hook) (packet : Packet) (metaMark ctMark : BitVec 32) (draws : List ℕ)
  | /-- An element of a set times out. -/
    timeout (set : StickySet) (addr : Addr)
  | connected (interface device : String)
  | ifup (interface device : String) (online : Bool)
  | disconnected (interface : String)
  | ifdown (interface : String)
  | /-- The new configuration replaces the old one, the sets stay. The mask is
    read back from the running service. -/
    reload (config : Config)
  | /-- The table is deleted and created again. -/
    restart (config : Config)

namespace Service

/-- The device the interface's chain was built for. -/
def deviceOf (x : Service) (interface : String) : Option String :=
  (x.config.interface interface).bind Interface.device

/-- `25-mwan3` and the init script, and the traversal of a packet. -/
def apply (x : Service) : ServiceEvent → Service
  | .packet hook packet metaMark ctMark draws =>
    { x with
      sets := (evalHook x.config.ruleset packet hook.chain
        { metaMark := metaMark, ctMark := ctMark, sets := x.sets, draws := draws }).1.sets }
  | .timeout set addr =>
    { x with sets := fun set' addr' => !(set' = set && addr' = addr) && x.sets set' addr' }
  | .connected interface device =>
    { config := x.config.setInterface interface true (some device)
      sets := x.config.flushWorseMetricSticky interface x.sets }
  | .ifup interface device online =>
    { config := x.config.setInterface interface online (some device)
      sets := if online then x.config.flushWorseMetricSticky interface x.sets else x.sets }
  | .disconnected interface =>
    { config := x.config.setInterface interface false (x.deviceOf interface)
      sets := x.config.deleteIfaceMapEntries interface x.sets }
  | .ifdown interface =>
    { config := x.config.setInterface interface false none
      sets := x.config.deleteIfaceMapEntries interface x.sets }
  | .reload config => { x with config := { config with mmxMask := x.config.mmxMask } }
  | .restart config => { config := config, sets := fun _ _ => false }

def IsStart (x : Service) : Prop :=
  x.sets = fun _ _ => false

/-- The condition on a step. A reload or restart configures no more interfaces
than there are marks, and a member that a reload adds to a rule has an empty
sticky set there. -/
def AddsFreshMembers (x : Service) : ServiceEvent → Prop
  | .reload config =>
    ({ config with mmxMask := x.config.mmxMask } : Config).MarksSuffice ∧
      ∀ family rule id, config.IsMember family rule id →
        x.config.IsMember family rule id ∨ ∀ addr, x.sets ⟨family, rule, id⟩ addr = false
  | .restart config => config.MarksSuffice
  | _ => True

end Service

def service : System Service ServiceEvent :=
  System.ofTotal Service.IsStart Service.apply

/-- The runs whose reloads add members with empty sets only. -/
def guardedService : System Service ServiceEvent :=
  (System.ofTotal (fun x => x.IsStart ∧ x.config.MarksSuffice) Service.apply).restrict
    Service.AddsFreshMembers

namespace Service

/-- Exclusive sets, and a mark for every interface. -/
structure Inv (x : Service) : Prop where
  marks : x.config.MarksSuffice
  exclusive : x.config.Exclusive x.sets

theorem exclusive_of_subset {c : Config} {sets sets' : StickySets} (h : c.Exclusive sets)
    (hsub : ∀ set addr, sets' set addr = true → sets set addr = true) : c.Exclusive sets' :=
  fun family rule addr id₁ id₂ h₁ h₂ hin₁ hin₂ =>
    h family rule addr id₁ id₂ h₁ h₂ (hsub _ _ hin₁) (hsub _ _ hin₂)

theorem ifaceId_setInterface (c : Config) (name : String) (online : Bool)
    (device : Option String) (other : String) :
    (c.setInterface name online device).ifaceId other = c.ifaceId other := by
  unfold Config.ifaceId Config.setInterface
  rw [List.findIdx?_map]
  congr 2
  funext iface
  simp only [Function.comp]
  split <;> rfl

theorem interface_setInterface (c : Config) (name : String) (online : Bool)
    (device : Option String) (other : String) :
    ((c.setInterface name online device).interface other).map Interface.family =
      (c.interface other).map Interface.family := by
  unfold Config.interface Config.setInterface
  have hname : ((fun iface : Interface => decide (iface.name = other)) ∘ fun iface =>
    if iface.name = name then { iface with online := online, device := device } else iface) =
    fun iface : Interface => decide (iface.name = other) := by
    funext iface
    simp only [Function.comp]
    split <;> rfl
  rw [List.find?_map, hname, Option.map_map]
  congr 1
  funext iface
  simp only [Function.comp]
  split <;> rfl

theorem isMember_setInterface {c : Config} {name : String} {online : Bool}
    {device : Option String} {family : Family} {rule : String} {id : ℕ} :
    (c.setInterface name online device).IsMember family rule id ↔
      c.IsMember family rule id := by
  have hmembers : ∀ policy, (c.setInterface name online device).policyMembersForFamily policy
      family = c.policyMembersForFamily policy family := by
    intro policy
    have hpolicy : (c.setInterface name online device).policy policy = c.policy policy := rfl
    unfold Config.policyMembersForFamily
    rw [hpolicy]
    cases c.policy policy with
    | none => rfl
    | some p =>
      refine List.filterMap_congr fun member _ => ?_
      have hfamily := interface_setInterface c name online device member.interface
      have hid := ifaceId_setInterface c name online device member.interface
      cases hnew : (c.setInterface name online device).interface member.interface with
      | none =>
        rw [hnew] at hfamily
        cases hold : c.interface member.interface with
        | none => rfl
        | some iface =>
          rw [hold] at hfamily
          cases hfamily
      | some iface' =>
        rw [hnew] at hfamily
        cases hold : c.interface member.interface with
        | none =>
          rw [hold] at hfamily
          cases hfamily
        | some iface =>
          rw [hold] at hfamily
          have heq : iface'.family = iface.family := by simpa using hfamily
          simp only [heq, hid]
  exact exists_congr fun r => and_congr_right fun _ => and_congr_right fun _ => by
    rw [← hmembers]

/-- A hotplug event whose flush removes elements only keeps the invariant. -/
theorem inv_setInterface {x : Service} (h : x.Inv) (name : String) (online : Bool)
    (device : Option String) {sets : StickySets}
    (hsub : ∀ set addr, sets set addr = true → x.sets set addr = true) :
    (⟨x.config.setInterface name online device, sets⟩ : Service).Inv where
  marks := by
    have hmarks := h.marks
    unfold Config.MarksSuffice Config.setInterface at *
    simpa using hmarks
  exclusive := by
    have hexcl := exclusive_of_subset h.exclusive hsub
    intro family rule addr id₁ id₂ h₁ h₂
    exact hexcl family rule addr id₁ id₂ (isMember_setInterface.mp h₁)
      (isMember_setInterface.mp h₂)

/-- One event of a guarded run keeps the invariant. -/
theorem inv_apply {x : Service} (h : x.Inv) {event : ServiceEvent}
    (hguard : x.AddsFreshMembers event) : (x.apply event).Inv := by
  cases event with
  | packet hook packet metaMark ctMark draws =>
    exact ⟨h.marks, Config.evalHook_keepsExclusive h.marks hook packet _ h.exclusive⟩
  | timeout set addr =>
    exact ⟨h.marks, exclusive_of_subset h.exclusive fun set' addr' hin =>
      (Bool.and_eq_true_iff.mp hin).2⟩
  | connected interface device =>
    exact inv_setInterface h _ _ _ fun set addr hin => (Bool.and_eq_true_iff.mp hin).2
  | ifup interface device online =>
    refine inv_setInterface h _ _ _ fun set addr hin => ?_
    split at hin
    · exact (Bool.and_eq_true_iff.mp hin).2
    · exact hin
  | disconnected interface =>
    exact inv_setInterface h _ _ _ fun set addr hin => (Bool.and_eq_true_iff.mp hin).2
  | ifdown interface =>
    exact inv_setInterface h _ _ _ fun set addr hin => (Bool.and_eq_true_iff.mp hin).2
  | reload config =>
    obtain ⟨hmarks, hfresh⟩ := hguard
    refine ⟨hmarks, fun family rule addr id₁ id₂ h₁ h₂ hin₁ hin₂ => ?_⟩
    -- a member with a source in its set was a member before
    have hold : ∀ {id}, config.IsMember family rule id →
        x.sets ⟨family, rule, id⟩ addr = true → x.config.IsMember family rule id := by
      intro id hmember hin
      refine (hfresh family rule id hmember).resolve_right fun hempty => ?_
      rw [hempty addr] at hin
      cases hin
    exact h.exclusive family rule addr id₁ id₂ (hold h₁ hin₁) (hold h₂ hin₂) hin₁ hin₂
  | restart config =>
    exact ⟨hguard, fun family rule addr id₁ id₂ _ _ hin => by cases hin⟩

theorem inv_of_reachable {x : Service} (hreach : guardedService.Reachable x) : x.Inv := by
  refine hreach.invariant (fun y hstart => ?_) (fun source event target h hstep => ?_)
  · refine ⟨hstart.2, fun family rule addr id₁ id₂ _ _ hin => ?_⟩
    rw [hstart.1] at hin
    cases hin
  · rw [← hstep.2]
    exact inv_apply h hstep.1

/-- The lookups of a rule leave an unmarked packet unmarked or give it the mark of
one existing interface. -/
def LooksUpOne (x : Service) : Prop :=
  ∀ r ∈ x.config.rules, ∀ ipv packet, ∀ s : MarkState, s.sets = x.sets →
    s.metaMark &&& x.config.mmxMask = 0 →
      (evalRules (x.config.call packet) packet
          ((x.config.stickyMembers r (x.config.stickyFamilies r ipv)).map
            (x.config.stickyLookup r)) s).1.metaMark &&& x.config.mmxMask = 0 ∨
        ∃ iface ∈ x.config.interfaces, ∃ id, x.config.ifaceId iface.name = some id ∧
          (evalRules (x.config.call packet) packet
            ((x.config.stickyMembers r (x.config.stickyFamilies r ipv)).map
              (x.config.stickyLookup r)) s).1.metaMark &&& x.config.mmxMask =
            id2mask id x.config.mmxMask

/-- In every run whose reloads add members with empty sets only, each source is in
the sticky set of at most one member of a rule, and a lookup adds at most one
interface's mark. -/
theorem sticky_exclusive {x : Service} (hreach : guardedService.Reachable x) :
    x.config.Exclusive x.sets ∧ x.LooksUpOne := by
  have hinv := inv_of_reachable hreach
  refine ⟨hinv.exclusive, fun r hr ipv packet s hsets hzero => ?_⟩
  obtain ⟨t, hlookups, -, hpinned, -⟩ := Config.evalRules_stickyLookup packet 15
    hinv.marks
    (fun member (hmem : member ∈ x.config.stickyMembers r (x.config.stickyFamilies r ipv)) =>
      Config.isMember_of_mem_stickyMembers hr hmem)
    (hsets ▸ hinv.exclusive) (.inl hzero)
  have hresult : (evalRules (x.config.call packet) packet
      ((x.config.stickyMembers r (x.config.stickyFamilies r ipv)).map
        (x.config.stickyLookup r)) s).1 = t := congrArg Prod.fst hlookups
  rw [hresult]
  rcases hpinned with h | ⟨id, hmember, -, hmark⟩
  · exact .inl h
  · obtain ⟨iface, hiface, -, hid⟩ := hmember.exists_interface
    exact .inr ⟨iface, hiface, id, hid, hmark⟩

/-- Two IPv4 interfaces, a policy with the given members of equal weight, and a
sticky rule for all traffic. -/
def stickyConfig (members : List String) : Config where
  mmxMask := 0x3f00
  noIpv6 := false
  interfaces :=
    [{ name := "wan", family := some .ipv4, device := some "eth0", online := true },
      { name := "wanb", family := some .ipv4, device := some "eth1", online := true }]
  policies :=
    [{ name := "balanced"
       members := members.map fun interface => { interface, metric := 1, weight := 1 }
       lastResort := .unreachable }]
  rules :=
    [{ name := "https", enabled := true, family := .any, anchor := .free
       protoIcmp := false, srcDevFound := true, sticky := true, usePolicy := "balanced"
       logging := false, fwmark := none, fwmask := none, packetTest := fun _ _ => true }]
  connected _ _ := false
  custom _ _ := false
  dynamic _ _ := false
  ruleNames := by simp

def newFlow : ServiceEvent :=
  .packet .prerouting (samplePacket 0x08080808) 0 0 [0]

def stickyStart : Service :=
  { config := stickyConfig ["wan", "wanb"], sets := fun _ _ => false }

/-- A flow and a reload of the same configuration. -/
theorem sticky_exclusive_after_reload :
    ((stickyStart.apply newFlow).apply (.reload (stickyConfig ["wan", "wanb"]))).config.Exclusive
        ((stickyStart.apply newFlow).apply (.reload (stickyConfig ["wan", "wanb"]))).sets ∧
      LooksUpOne
        ((stickyStart.apply newFlow).apply (.reload (stickyConfig ["wan", "wanb"]))) := by
  have hmarks : (stickyConfig ["wan", "wanb"]).MarksSuffice := by
    unfold Config.MarksSuffice
    decide +kernel
  have hstart : guardedService.Reachable stickyStart := .start ⟨rfl, hmarks⟩
  have hflow : guardedService.Reachable (stickyStart.apply newFlow) :=
    hstart.step newFlow ⟨trivial, rfl⟩
  exact sticky_exclusive
    (hflow.step (.reload (stickyConfig ["wan", "wanb"])) ⟨⟨hmarks, fun _ _ _ h => .inl h⟩, rfl⟩)

/-- The first member leaves the policy and comes back while a source is in its set
and has meanwhile been pinned to the second. -/
def leaveAndReturn : List ServiceEvent :=
  [newFlow, .reload (stickyConfig ["wanb"]), newFlow, .reload (stickyConfig ["wan", "wanb"])]

/-- That source is then in the sets of both. -/
theorem not_sticky_exclusive :
    ¬ ∀ x : Service, service.Reachable x → x.config.Exclusive x.sets ∧ x.LooksUpOne := by
  intro hall
  have hstart : service.Reachable stickyStart := .start rfl
  have hexcl := (hall (leaveAndReturn.foldl apply stickyStart)
    (System.reachable_of_foldl hstart leaveAndReturn)).1
  have hmember : ∀ id, id = 1 ∨ id = 2 →
      (leaveAndReturn.foldl apply stickyStart).config.IsMember .ipv4 "https" id := by
    intro id hid
    refine ⟨_, List.mem_singleton.mpr rfl, rfl, ?_⟩
    rcases hid with rfl | rfl <;> decide +kernel
  have hsame := hexcl .ipv4 "https" 0xc0a80102 1 2 (hmember 1 (.inl rfl)) (hmember 2 (.inr rfl))
    (by decide +kernel) (by decide +kernel)
  exact absurd hsame (by decide)

end Service

end OpenWrt.Mwan3
