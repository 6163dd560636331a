/-
# Marks outside the mask are isolated

A packet traverses one of the two hook chains: a head, the restore of its mark
from the connection, the classification, the save of its mark to the connection
and a last look at the network sets. Whatever the mask, the packet and the marks
it comes with, no bit outside the mask changes, in either mark.

Inside the mask, the restore copies the connection's bits into a packet that
carries none, which in prerouting is every packet, and the save makes the
connection's bits those of the packet. What follows the save can only give the
packet the default mark.
-/

import OpenWrt.Mwan3.Ruleset

namespace OpenWrt.Mwan3

open OpenWrt.Netfilter

/-! ## What the generated rules consist of -/

/-- The chains of the classification: all but the two hooks and the setters of
the connection's mark. -/
def IsBody : Chain → Prop
  | .prerouting | .output | .orCt _ => False
  | _ => True

/-- The two hooks. -/
inductive Hook
  | prerouting | output
  deriving DecidableEq

def Hook.chain : Hook → Chain
  | .prerouting => .prerouting
  | .output => .output

/-- How deep a chain's calls go. -/
def chainRank : Chain → ℕ
  | .prerouting | .output => 5
  | .rules => 4
  | .rule _ => 3
  | .policy _ | .ifacesIn => 2
  | .ifaceIn _ | .connected | .custom | .dynamic => 1
  | .orMeta _ | .orCt _ => 0

namespace Config

variable (c : Config)

/-- What an expression of a chain of the classification may be: it writes the
packet's mark within the mask only, calls such chains of lower rank only, and
updates a sticky set of its own rule only. -/
def BodyExpr (chain : Chain) : RuleExpr → Prop
  | .setMark register keep value =>
    register = .metaMark ∧ keep &&& ~~~c.mmxMask = ~~~c.mmxMask ∧ value &&& ~~~c.mmxMask = 0
  | .update _ set => chain = .rule set.rule
  | .numgen _ entries =>
    ∀ entry ∈ entries, IsBody entry.2.2 ∧ chainRank entry.2.2 < chainRank chain
  | .jump callee => IsBody callee ∧ chainRank callee < chainRank chain
  | .vmap _ _ _ | .accept => False
  | _ => True

variable {chain : Chain}

theorem bodyExpr_markExpr {value : BitVec 32} (h : value &&& ~~~c.mmxMask = 0) :
    c.BodyExpr chain (c.markExpr value) :=
  ⟨rfl, BitVec.and_self, h⟩

theorem bodyExpr_ifacesInChain :
    Everywhere (c.BodyExpr .ifacesIn) c.ifacesInChain := by
  intro rule hrule e he
  simp only [ifacesInChain, List.mem_map] at hrule
  obtain ⟨iface, -, rfl⟩ := hrule
  simp only [jumpUnmarked, List.mem_cons, List.not_mem_nil, or_false] at he
  rcases he with rfl | rfl
  · trivial
  · exact ⟨trivial, by simp [chainRank]⟩

theorem bodyExpr_ifaceInChain (name : String) :
    Everywhere (c.BodyExpr (.ifaceIn name)) (c.ifaceInChain name) := by
  have hrule : ∀ device family tests mark, mark &&& ~~~c.mmxMask = 0 →
      (∀ e ∈ tests, c.BodyExpr (.ifaceIn name) e) →
      ∀ e ∈ c.ifaceRule device family tests mark, c.BodyExpr (.ifaceIn name) e := by
    intro device family tests mark hmark htests e he
    simp only [ifaceRule, List.mem_cons, List.mem_append, List.not_mem_nil, or_false] at he
    rcases he with rfl | he | rfl | rfl
    · trivial
    · exact htests e he
    · trivial
    · exact c.bodyExpr_markExpr hmark
  have htest : ∀ (set : Family → Addr → Bool) family, ∀ e ∈ [saddrIn set family],
      c.BodyExpr (.ifaceIn name) e := by
    intro set family e he
    obtain rfl := List.mem_singleton.mp he
    trivial
  have hdefault : mmxDefault c.mmxMask &&& ~~~c.mmxMask = 0 := id2mask_and_not_mask _ _
  unfold ifaceInChain
  split
  · split
    · split
      · intro rule hmem
        simp at hmem
      · intro rule hmem
        simp only [List.mem_cons, List.not_mem_nil, or_false] at hmem
        rcases hmem with rfl | rfl | rfl | rfl
        · exact hrule _ _ _ _ hdefault (htest _ _)
        · exact hrule _ _ _ _ hdefault (htest _ _)
        · exact hrule _ _ _ _ hdefault (htest _ _)
        · exact hrule _ _ _ _ (id2mask_and_not_mask _ _) (by simp)
    · intro rule hmem
      simp at hmem
  · intro rule hmem
    simp at hmem

theorem bodyExpr_networkChain (set : Family → Addr → Bool) :
    Everywhere (c.BodyExpr chain) (c.networkChain set) := by
  intro rule hrule e he
  simp only [networkChain, List.mem_map] at hrule
  obtain ⟨family, -, rfl⟩ := hrule
  simp only [List.mem_cons, List.not_mem_nil, or_false] at he
  rcases he with rfl | rfl | rfl
  · trivial
  · exact c.bodyExpr_markExpr (id2mask_and_not_mask _ _)
  · trivial

theorem exists_orMeta_of_mem_mapEntries {members : List (ℕ × ℕ)} {running : Int}
    {entry : Int × Int × Chain} (h : entry ∈ c.mapEntries running members) :
    ∃ mark, entry.2.2 = .orMeta mark := by
  induction members generalizing running with
  | nil => simp [mapEntries] at h
  | cons member members ih =>
    rw [mapEntries, List.mem_cons] at h
    rcases h with rfl | h
    · exact ⟨_, rfl⟩
    · exact ih h

theorem bodyExpr_familyRule (name : String) (family : Family) (guarded : Bool)
    (members : List (ℕ × ℕ)) :
    Everywhere (c.BodyExpr (.policy name)) (c.familyRule family guarded members) := by
  have hguard : ∀ e ∈ nfprotoGuard family guarded, c.BodyExpr (.policy name) e := by
    intro e he
    unfold nfprotoGuard at he
    split at he
    · obtain rfl := List.mem_singleton.mp he
      trivial
    · simp at he
  intro rule hrule e he
  unfold familyRule at hrule
  split at hrule
  · simp at hrule
  · obtain rfl := List.mem_singleton.mp hrule
    simp only [List.mem_append, List.mem_cons, List.not_mem_nil, or_false] at he
    rcases he with he | rfl | rfl
    · exact hguard e he
    · trivial
    · exact c.bodyExpr_markExpr (id2mask_and_not_mask _ _)
  · obtain rfl := List.mem_singleton.mp hrule
    simp only [List.mem_append, List.mem_cons, List.not_mem_nil, or_false] at he
    rcases he with he | rfl | rfl
    · exact hguard e he
    · trivial
    · intro entry hentry
      obtain ⟨mark, hmark⟩ := c.exists_orMeta_of_mem_mapEntries hentry
      rw [hmark]
      exact ⟨trivial, by simp [chainRank]⟩

theorem lastResortMark_and_not_mask (resort : LastResort) :
    c.lastResortMark resort &&& ~~~c.mmxMask = 0 := by
  cases resort <;> exact id2mask_and_not_mask _ _

theorem bodyExpr_policyChain (name : String) :
    Everywhere (c.BodyExpr (.policy name)) (c.policyChain name) := by
  intro rule hrule
  unfold policyChain at hrule
  split at hrule
  · simp at hrule
  · split at hrule
    · simp at hrule
    · simp only [List.mem_append, List.mem_singleton] at hrule
      rcases hrule with hrule | rfl
      · split at hrule
        · rcases List.mem_append.mp hrule with hrule | hrule
          · exact c.bodyExpr_familyRule name _ _ _ rule hrule
          · exact c.bodyExpr_familyRule name _ _ _ rule hrule
        · simp at hrule
      · intro e he
        simp only [List.mem_cons, List.not_mem_nil, or_false] at he
        rcases he with rfl | rfl
        · trivial
        · exact c.bodyExpr_markExpr (c.lastResortMark_and_not_mask _)

theorem bodyExpr_stickyPass (r : UserRule) (ipv : Family) :
    Everywhere (c.BodyExpr (.rule r.name)) (c.stickyPass r ipv) := by
  intro rule hrule e he
  unfold stickyPass at hrule
  split at hrule
  · simp at hrule
  · simp only [List.mem_append, List.mem_cons, List.mem_map] at hrule
    rcases hrule with ⟨member, -, rfl⟩ | rfl | ⟨member, -, rfl⟩
    · simp only [stickyLookup, List.mem_cons, List.not_mem_nil, or_false] at he
      rcases he with rfl | rfl
      · trivial
      · exact ⟨trivial, by simp [chainRank]⟩
    · simp only [jumpUnmarked, List.mem_cons, List.not_mem_nil, or_false] at he
      rcases he with rfl | rfl
      · trivial
      · exact ⟨trivial, by simp [chainRank]⟩
    · simp only [stickyUpdate, List.mem_cons, List.not_mem_nil, or_false] at he
      rcases he with rfl | rfl
      · trivial
      · exact rfl

theorem bodyExpr_ruleChain (r : UserRule) :
    Everywhere (c.BodyExpr (.rule r.name)) (c.ruleChain r) := by
  intro rule hrule
  simp only [ruleChain, List.mem_flatMap] at hrule
  obtain ⟨ipv, -, hrule⟩ := hrule
  split at hrule
  · exact c.bodyExpr_stickyPass r ipv rule hrule
  · simp at hrule

theorem bodyExpr_ruleMatch (r : UserRule) (ipv : Family) :
    ∀ e ∈ ruleMatch r ipv, c.BodyExpr chain e := by
  intro e he
  simp only [ruleMatch, List.mem_append, List.mem_singleton] at he
  rcases he with (rfl | he) | he
  · trivial
  · split at he
    · obtain rfl := List.mem_singleton.mp he
      trivial
    · simp at he
  · split at he
    · obtain rfl := List.mem_singleton.mp he
      trivial
    · obtain rfl := List.mem_singleton.mp he
      trivial
    · simp at he

theorem bodyExpr_rulesChain : Everywhere (c.BodyExpr .rules) c.rulesChain := by
  intro rule hrule e he
  simp only [rulesChain, List.mem_flatMap] at hrule
  obtain ⟨r, -, ipv, -, hrule⟩ := hrule
  unfold ruleLines at hrule
  split at hrule
  · rcases List.mem_append.mp hrule with hrule | hrule
    · split at hrule
      · obtain rfl := List.mem_singleton.mp hrule
        simp only [List.mem_append, List.mem_cons, List.not_mem_nil, or_false] at he
        rcases he with he | rfl | rfl
        · exact c.bodyExpr_ruleMatch r ipv e he
        · trivial
        · trivial
      · simp at hrule
    · obtain rfl := List.mem_singleton.mp hrule
      simp only [List.mem_append, List.mem_cons, List.not_mem_nil, or_false] at he
      rcases he with he | rfl | rfl
      · exact c.bodyExpr_ruleMatch r ipv e he
      · trivial
      · unfold policyAction
        split_ifs
        · exact c.bodyExpr_markExpr (id2mask_and_not_mask _ _)
        · exact c.bodyExpr_markExpr (id2mask_and_not_mask _ _)
        · exact c.bodyExpr_markExpr (id2mask_and_not_mask _ _)
        · exact ⟨trivial, by simp [chainRank]⟩
        · exact ⟨trivial, by simp [chainRank]⟩
  · simp at hrule

theorem bodyExpr_orMetaChain (mark : BitVec 32) :
    Everywhere (c.BodyExpr (.orMeta mark)) (c.orMetaChain mark) := by
  intro rule hrule e he
  unfold orMetaChain at hrule
  split at hrule
  case isTrue hmark =>
    obtain rfl := List.mem_singleton.mp hrule
    obtain rfl := List.mem_singleton.mp he
    exact ⟨rfl, BitVec.allOnes_and, and_not_mask_of_mem_allMarks hmark⟩
  case isFalse => simp at hrule

/-- Every expression of a chain of the classification is of that form. -/
theorem bodyExpr_ruleset (h : IsBody chain) : Everywhere (c.BodyExpr chain) (c.ruleset chain) := by
  cases chain with
  | prerouting | output | orCt => exact h.elim
  | ifacesIn => exact c.bodyExpr_ifacesInChain
  | rules => exact c.bodyExpr_rulesChain
  | connected | custom | dynamic => exact c.bodyExpr_networkChain _
  | ifaceIn name => exact c.bodyExpr_ifaceInChain name
  | policy name => exact c.bodyExpr_policyChain name
  | rule name =>
    intro rule hrule
    simp only [ruleset, List.mem_flatMap, List.mem_filter, decide_eq_true_eq] at hrule
    obtain ⟨r, ⟨-, rfl⟩, hrule⟩ := hrule
    exact c.bodyExpr_ruleChain r rule hrule
  | orMeta mark => exact c.bodyExpr_orMetaChain mark

theorem eq_of_mem_orCt {mark : BitVec 32} {rule : List RuleExpr}
    (hrule : rule ∈ c.ruleset (.orCt mark)) {e : RuleExpr} (he : e ∈ rule) :
    e = .setMark .ctMark (~~~c.mmxMask) mark ∧ mark ∈ allMarks c.mmxMask := by
  simp only [ruleset, orCtChain] at hrule
  split at hrule
  case isTrue hmark =>
    obtain rfl := List.mem_singleton.mp hrule
    exact ⟨List.mem_singleton.mp he, hmark⟩
  case isFalse => simp at hrule

/-- What an expression of a hook may be: its only write clears the mask, and it
calls the setters, the user rules and chains of lower rank. -/
def HookExpr : RuleExpr → Prop
  | .setMark register keep value => register = .metaMark ∧ keep = ~~~c.mmxMask ∧ value = 0
  | .vmap _ _ entries => ∀ entry ∈ entries, chainRank entry.2 = 0
  | .jump callee => callee = .rules ∨ chainRank callee ≤ 2
  | .update _ _ | .numgen _ _ => False
  | _ => True

theorem hookExpr_ruleset (hook : Hook) : Everywhere c.HookExpr (c.ruleset hook.chain) := by
  have hjump : ∀ {chain}, (chain = .rules ∨ chainRank chain ≤ 2) →
      ∀ e ∈ c.jumpUnmarked chain, c.HookExpr e := by
    intro chain hchain e he
    simp only [jumpUnmarked, List.mem_cons, List.not_mem_nil, or_false] at he
    rcases he with rfl | rfl
    · trivial
    · exact hchain
  have hpost : ∀ {chain}, chainRank chain ≤ 2 →
      ∀ e ∈ [c.notDefault, .jump chain], c.HookExpr e := by
    intro chain hchain e he
    simp only [List.mem_cons, List.not_mem_nil, or_false] at he
    rcases he with rfl | rfl
    · trivial
    · exact .inr hchain
  have hbypass : ∀ test, ∀ e ∈ [Expr.test test, .accept], c.HookExpr e := by
    intro test e he
    simp only [List.mem_cons, List.not_mem_nil, or_false] at he
    rcases he with rfl | rfl <;> trivial
  have hrestore : ∀ e ∈ c.restoreRule, c.HookExpr e := by
    intro e he
    simp only [restoreRule, List.mem_cons, List.not_mem_nil, or_false] at he
    rcases he with rfl | rfl
    · trivial
    · intro entry hentry
      obtain ⟨mark, -, rfl⟩ := List.mem_map.mp hentry
      rfl
  have hsave : ∀ e ∈ c.saveRule, c.HookExpr e := by
    intro e he
    obtain rfl := List.mem_singleton.mp he
    intro entry hentry
    obtain ⟨mark, -, rfl⟩ := List.mem_map.mp hentry
    rfl
  intro rule hrule
  cases hook with
  | prerouting =>
    simp only [Hook.chain, ruleset, preroutingChain, preroutingHead, preroutingBody, postRules,
      List.cons_append, List.nil_append, List.mem_cons, List.not_mem_nil, or_false] at hrule
    rcases hrule with rfl | rfl | rfl | rfl | rfl | rfl | rfl | rfl | rfl | rfl | rfl | rfl |
      rfl | rfl
    · exact hbypass _
    · intro e he
      obtain rfl := List.mem_singleton.mp he
      exact ⟨rfl, rfl, rfl⟩
    · exact hbypass _
    · exact hrestore
    · exact hjump (.inr (by decide))
    · intro e he
      simp only [List.mem_cons, List.not_mem_nil, or_false] at he
      rcases he with rfl | rfl | rfl <;> trivial
    · exact hjump (.inr (by decide))
    · exact hjump (.inr (by decide))
    · exact hjump (.inr (by decide))
    · exact hjump (.inl rfl)
    · exact hsave
    · exact hpost (by decide)
    · exact hpost (by decide)
    · exact hpost (by decide)
  | output =>
    simp only [Hook.chain, ruleset, outputChain, outputHead, outputBody, postRules,
      List.cons_append, List.nil_append, List.mem_cons, List.not_mem_nil, or_false] at hrule
    rcases hrule with rfl | rfl | rfl | rfl | rfl | rfl | rfl | rfl | rfl | rfl | rfl | rfl
    · exact hbypass _
    · exact hbypass _
    · exact hrestore
    · exact hjump (.inr (by decide))
    · exact hjump (.inr (by decide))
    · exact hjump (.inr (by decide))
    · exact hjump (.inr (by decide))
    · exact hjump (.inl rfl)
    · exact hsave
    · exact hpost (by decide)
    · exact hpost (by decide)
    · exact hpost (by decide)

/-- The chains below the hooks return to their callers. -/
theorem returns_ruleset (h : chainRank chain < 5) :
    Everywhere (·.Returns chainRank (chainRank chain)) (c.ruleset chain) := by
  by_cases hbody : IsBody chain
  · intro rule hrule e he
    have hform := c.bodyExpr_ruleset hbody rule hrule e he
    cases e with
    | numgen modulus entries => exact fun entry hentry => (hform entry hentry).2
    | jump callee => exact hform.2
    | vmap | accept => exact hform.elim
    | test | testMark | lookup | setMark | update | log | ret => trivial
  · cases chain with
    | prerouting | output => simp [chainRank] at h
    | orCt mark =>
      intro rule hrule e he
      obtain ⟨rfl, -⟩ := c.eq_of_mem_orCt hrule he
      trivial
    | ifacesIn | rules | connected | custom | dynamic | ifaceIn | policy | rule | orMeta =>
      exact absurd trivial hbody

end Config

/-! ## Bits inside and outside the mask -/

/-- No bit outside the mask differs, in either mark. -/
def SameOutside (mask : BitVec 32) (s t : MarkState) : Prop :=
  t.metaMark &&& ~~~mask = s.metaMark &&& ~~~mask ∧
    t.ctMark &&& ~~~mask = s.ctMark &&& ~~~mask

theorem framing_sameOutside (mask : BitVec 32) : Framing (SameOutside mask) where
  refl _ := ⟨rfl, rfl⟩
  trans h₁ h₂ := ⟨h₂.1.trans h₁.1, h₂.2.trans h₁.2⟩
  draws _ _ := ⟨rfl, rfl⟩

theorem write_and_not {mask x keep value : BitVec 32} (hkeep : keep &&& ~~~mask = ~~~mask)
    (hvalue : value &&& ~~~mask = 0) : (x &&& keep ||| value) &&& ~~~mask = x &&& ~~~mask := by
  rw [BitVec.and_or_distrib_right, BitVec.and_assoc, hkeep, hvalue]
  simp

theorem clear_write_and {mask x value : BitVec 32} :
    (x &&& ~~~mask ||| value) &&& mask = value &&& mask := by
  rw [BitVec.and_or_distrib_right, BitVec.and_assoc, BitVec.and_comm (~~~mask) mask]
  simp

namespace Config

variable (c : Config) {packet : Packet}

/-- Every write of the generated rules keeps the bits outside the mask. -/
theorem respects_sameOutside (chain : Chain) :
    Everywhere (·.Respects (SameOutside c.mmxMask) (fun _ => True) packet)
      (c.ruleset chain) := by
  have hset : ∀ register keep value, keep &&& ~~~c.mmxMask = ~~~c.mmxMask →
      value &&& ~~~c.mmxMask = 0 → ∀ s : MarkState,
      SameOutside c.mmxMask s (s.setMark (s.mark register &&& keep ||| value) register) := by
    intro register keep value hkeep hvalue s
    cases register with
    | metaMark => exact ⟨write_and_not hkeep hvalue, rfl⟩
    | ctMark => exact ⟨rfl, write_and_not hkeep hvalue⟩
  have hhook : ∀ hook : Hook, Everywhere
      (·.Respects (SameOutside c.mmxMask) (fun _ => True) packet) (c.ruleset hook.chain) := by
    intro hook rule hrule e he
    have hform := c.hookExpr_ruleset hook rule hrule e he
    cases e with
    | setMark register keep value =>
      obtain ⟨rfl, rfl, rfl⟩ := hform
      exact hset _ _ _ BitVec.and_self BitVec.zero_and
    | update | numgen => exact hform.elim
    | vmap => exact fun entry _ => trivial
    | jump | test | testMark | lookup | log | ret | accept => trivial
  by_cases hbody : IsBody chain
  · intro rule hrule e he
    have hform := c.bodyExpr_ruleset hbody rule hrule e he
    cases e with
    | setMark register keep value => exact hset _ _ _ hform.2.1 hform.2.2
    | update key set => exact fun s k _ => ⟨rfl, rfl⟩
    | numgen modulus entries => exact fun entry _ => trivial
    | jump callee => trivial
    | vmap | accept => exact hform.elim
    | test | testMark | lookup | log | ret => trivial
  · cases chain with
    | prerouting => exact hhook .prerouting
    | output => exact hhook .output
    | orCt mark =>
      intro rule hrule e he
      obtain ⟨rfl, hmark⟩ := c.eq_of_mem_orCt hrule he
      exact hset _ _ _ BitVec.and_self (and_not_mask_of_mem_allMarks hmark)
    | ifacesIn | rules | connected | custom | dynamic | ifaceIn | policy | rule | orMeta =>
      exact absurd trivial hbody

end Config

/-- The packets that neither hook classifies. -/
def Packet.bypassed (p : Packet) : Bool :=
  p.isNdp || p.isLinkScope

namespace Config

variable (c : Config) (packet : Packet)

/-- The rules up to and including the restore. -/
def restorePart : Hook → List (List RuleExpr)
  | .prerouting => c.preroutingHead ++ [c.restoreRule]
  | .output => outputHead ++ [c.restoreRule]

/-- The rules from there up to and including the save. -/
def savePart : Hook → List (List RuleExpr)
  | .prerouting => c.preroutingBody ++ [c.saveRule]
  | .output => c.outputBody ++ [c.saveRule]

theorem ruleset_chain (hook : Hook) :
    c.ruleset hook.chain = c.restorePart hook ++ (c.savePart hook ++ c.postRules) := by
  cases hook <;> rfl

abbrev call (packet : Packet) : Chain → MarkState → MarkState × Verdict :=
  evalChain c.ruleset packet jumpStackSize

/-- The state in which the restore leaves a packet that reaches it. -/
def afterRestore (hook : Hook) (packet : Packet) (s : MarkState) : MarkState :=
  (evalRules (c.call packet) packet (c.restorePart hook) s).1

/-- The state in which the save leaves a packet, or in which the packet returns
from the hook before it. -/
def afterSave (hook : Hook) (packet : Packet) (s : MarkState) : MarkState :=
  (evalRules (c.call packet) packet (c.restorePart hook ++ c.savePart hook) s).1

theorem evalChain_next {chain : Chain} {depth : ℕ} (h : chainRank chain < 5)
    (hdepth : chainRank chain < depth) (s : MarkState) :
    (evalChain c.ruleset packet depth chain s).2 = .next :=
  evalChain_returns 5 (fun _ hlt => c.returns_ruleset hlt) h hdepth s

/-! ### The restore -/

theorem evalChain_orMeta {mark : BitVec 32} (hmark : mark ∈ allMarks c.mmxMask) (depth : ℕ)
    (s : MarkState) :
    evalChain c.ruleset packet (depth + 1) (.orMeta mark) s =
      ({ s with metaMark := s.metaMark ||| mark }, .next) := by
  have hand : s.metaMark &&& BitVec.allOnes 32 = s.metaMark := BitVec.and_allOnes
  simp only [evalChain, ruleset, orMetaChain, if_pos hmark, evalRules, evalRule, State.mark,
    State.setMark, hand]

theorem evalChain_orCt {mark : BitVec 32} (hmark : mark ∈ allMarks c.mmxMask) (depth : ℕ)
    (s : MarkState) :
    evalChain c.ruleset packet (depth + 1) (.orCt mark) s =
      ({ s with ctMark := s.ctMark &&& ~~~c.mmxMask ||| mark }, .next) := by
  simp only [evalChain, ruleset, orCtChain, if_pos hmark, evalRules, evalRule, State.mark,
    State.setMark]

theorem and_mask_mem_allMarks {mask x : BitVec 32} (h : x &&& mask ≠ 0) :
    x &&& mask ∈ allMarks mask := by
  refine mem_allMarks ?_ h
  rw [BitVec.and_assoc, BitVec.and_not_self]
  exact BitVec.and_zero

/-- The restore rule copies the masked bits of the connection's mark into a packet
that carries none, and leaves any other packet alone. -/
theorem evalRule_restoreRule (s : MarkState) :
    ∃ t, evalRule (c.call packet) packet c.restoreRule s = (t, .next) ∧
      t.ctMark = s.ctMark ∧
      t.metaMark &&& c.mmxMask =
        if s.metaMark &&& c.mmxMask = 0 then s.ctMark &&& c.mmxMask
        else s.metaMark &&& c.mmxMask := by
  unfold restoreRule unmarked
  by_cases hmeta : s.metaMark &&& c.mmxMask = 0
  · rw [evalRule_testMark_pass (by simpa [State.mark] using hmeta), if_pos hmeta]
    unfold restoreVmap
    simp only [evalRule, lookup_map_key, State.mark]
    by_cases hmem : s.ctMark &&& c.mmxMask ∈ allMarks c.mmxMask
    · rw [if_pos hmem]
      refine ⟨_, c.evalChain_orMeta packet hmem _ s, rfl, ?_⟩
      change (s.metaMark ||| s.ctMark &&& c.mmxMask) &&& c.mmxMask = s.ctMark &&& c.mmxMask
      rw [BitVec.and_or_distrib_right, hmeta, BitVec.and_assoc, BitVec.and_self]
      exact BitVec.zero_or
    · rw [if_neg hmem]
      have hct : s.ctMark &&& c.mmxMask = 0 := by
        by_contra hne
        exact hmem (and_mask_mem_allMarks hne)
      exact ⟨s, rfl, rfl, hmeta.trans hct.symm⟩
  · refine ⟨s, evalRule_testMark_fail (by simpa [State.mark] using hmeta), rfl, ?_⟩
    rw [if_neg hmeta]

/-- Any packet that is not bypassed reaches the restore, after which its masked
bits are the connection's, unless it came to the output hook with bits of its
own. -/
theorem evalRules_restorePart (hook : Hook) (hbypass : packet.bypassed = false)
    (s : MarkState) :
    ∃ t, evalRules (c.call packet) packet (c.restorePart hook) s = (t, .next) ∧
      t.ctMark = s.ctMark ∧
      t.metaMark &&& c.mmxMask =
        if hook = .output ∧ s.metaMark &&& c.mmxMask ≠ 0 then s.metaMark &&& c.mmxMask
        else s.ctMark &&& c.mmxMask := by
  simp only [Packet.bypassed, Bool.or_eq_false_iff] at hbypass
  obtain ⟨hndp, hlink⟩ := hbypass
  have hskip : ∀ u : MarkState, ∀ test, test packet = false →
      evalRule (c.call packet) packet [.test test, .accept] u = (u, .next) := by
    intro u test htest
    simp [evalRule, htest]
  cases hook with
  | prerouting =>
    obtain ⟨t, hrule, hct, hmeta⟩ := c.evalRule_restoreRule packet
      { s with metaMark := s.metaMark &&& ~~~c.mmxMask ||| 0 }
    refine ⟨t, ?_, hct, ?_⟩
    · unfold restorePart preroutingHead ndpBypass linkScopeBypass
      rw [List.cons_append, evalRules_cons_next (hskip s _ hndp), List.cons_append,
        evalRules_cons_next (by simp only [evalRule, State.mark, State.setMark]; rfl),
        List.cons_append, evalRules_cons_next (hskip _ _ hlink), List.nil_append,
        evalRules_cons_next hrule, evalRules_nil]
    · have hclear : (s.metaMark &&& ~~~c.mmxMask ||| 0) &&& c.mmxMask = 0 := by
        rw [clear_write_and]
        exact BitVec.zero_and
      rw [hmeta, if_pos hclear, if_neg (by simp)]
  | output =>
    obtain ⟨t, hrule, hct, hmeta⟩ := c.evalRule_restoreRule packet s
    refine ⟨t, ?_, hct, ?_⟩
    · unfold restorePart outputHead ndpBypass linkScopeBypass
      rw [List.cons_append, evalRules_cons_next (hskip s _ hndp), List.cons_append,
        evalRules_cons_next (hskip _ _ hlink), List.nil_append, evalRules_cons_next hrule,
        evalRules_nil]
    · rw [hmeta]
      by_cases hzero : s.metaMark &&& c.mmxMask = 0
      · rw [if_pos hzero, if_neg (fun h => h.2 hzero)]
      · rw [if_neg hzero, if_pos ⟨rfl, hzero⟩]

/-! ### The classification -/

/-- The classification leaves the connection's mark alone, and all of a packet
that carries masked bits. -/
def ClassifyFrame (s t : MarkState) : Prop :=
  t.ctMark = s.ctMark ∧ (s.metaMark &&& c.mmxMask ≠ 0 → t.metaMark = s.metaMark)

theorem framing_classifyFrame : Framing c.ClassifyFrame where
  refl _ := ⟨rfl, fun _ => rfl⟩
  trans := by
    rintro s t u ⟨hct₁, hmeta₁⟩ ⟨hct₂, hmeta₂⟩
    refine ⟨hct₂.trans hct₁, fun hne => ?_⟩
    have hsame := hmeta₁ hne
    exact (hmeta₂ (hsame ▸ hne)).trans hsame
  draws _ _ := ⟨rfl, fun _ => rfl⟩

/-- The chains of the classification leave the connection's mark alone. -/
theorem evalChain_ctMark {chain : Chain} (depth : ℕ) (h : IsBody chain) (s : MarkState) :
    (evalChain c.ruleset packet depth chain s).1.ctMark = s.ctMark := by
  have hframing : Framing (fun s t : MarkState => t.ctMark = s.ctMark) :=
    ⟨fun _ => rfl, fun h₁ h₂ => h₂.trans h₁, fun _ _ => rfl⟩
  refine evalChain_respects hframing IsBody (fun chain hchain rule hrule e he => ?_) _ h s
  have hform := c.bodyExpr_ruleset hchain rule hrule e he
  cases e with
  | setMark register keep value =>
    obtain ⟨rfl, -, -⟩ := hform
    exact fun s => rfl
  | update key set => exact fun s k _ => rfl
  | numgen modulus entries => exact fun entry hentry => (hform entry hentry).1
  | jump callee => exact hform.1
  | vmap | accept => exact hform.elim
  | test | testMark | lookup | log | ret => trivial

/-- A jump for unmarked packets keeps the frame of the classification and goes
on. -/
theorem evalRule_jumpUnmarked {chain : Chain} {depth : ℕ} (hbody : IsBody chain)
    (hrank : chainRank chain < 5) (hdepth : chainRank chain < depth) (s : MarkState) :
    c.ClassifyFrame s
        (evalRule (evalChain c.ruleset packet depth) packet (c.jumpUnmarked chain) s).1 ∧
      (evalRule (evalChain c.ruleset packet depth) packet (c.jumpUnmarked chain) s).2 =
        .next := by
  unfold jumpUnmarked unmarked
  by_cases hmeta : s.metaMark &&& c.mmxMask = 0
  · rw [evalRule_testMark_pass (by simpa [State.mark] using hmeta)]
    exact ⟨⟨c.evalChain_ctMark packet depth hbody s, fun hne => absurd hmeta hne⟩,
      c.evalChain_next packet hrank hdepth s⟩
  · rw [evalRule_testMark_fail (by simpa [State.mark] using hmeta)]
    exact ⟨c.framing_classifyFrame.refl s, rfl⟩

/-- The rules between restore and save. -/
def body : Hook → List (List RuleExpr)
  | .prerouting => c.preroutingBody
  | .output => c.outputBody

/-- Each rule between restore and save keeps the frame, and goes on or lets an
unmarked packet return. -/
theorem evalRule_body {hook : Hook} {rule : List RuleExpr} (hrule : rule ∈ c.body hook)
    (s : MarkState) :
    c.ClassifyFrame s (evalRule (c.call packet) packet rule s).1 ∧
      ((evalRule (c.call packet) packet rule s).2 = .next ∨
        (evalRule (c.call packet) packet rule s).2 = .ret ∧
          (evalRule (c.call packet) packet rule s).1.metaMark &&& c.mmxMask = 0) := by
  have hjump : ∀ {chain}, rule = c.jumpUnmarked chain → IsBody chain →
      chainRank chain < 5 →
      c.ClassifyFrame s (evalRule (c.call packet) packet rule s).1 ∧
        ((evalRule (c.call packet) packet rule s).2 = .next ∨
          (evalRule (c.call packet) packet rule s).2 = .ret ∧
            (evalRule (c.call packet) packet rule s).1.metaMark &&& c.mmxMask = 0) := by
    rintro chain rfl hbody hrank
    obtain ⟨hframe, hnext⟩ := c.evalRule_jumpUnmarked packet hbody hrank
      (Nat.lt_trans hrank (show 5 < jumpStackSize by decide)) s
    exact ⟨hframe, .inl hnext⟩
  cases hook with
  | prerouting =>
    simp only [body, preroutingBody, List.mem_cons, List.not_mem_nil, or_false] at hrule
    rcases hrule with h | rfl | h | h | h | h
    · exact hjump h trivial (by decide)
    · unfold unmarked
      by_cases hmeta : s.metaMark &&& c.mmxMask = 0
      · rw [evalRule_testMark_pass (by simpa [State.mark] using hmeta), evalRule]
        split
        · exact ⟨c.framing_classifyFrame.refl s, .inr ⟨rfl, hmeta⟩⟩
        · exact ⟨c.framing_classifyFrame.refl s, .inl rfl⟩
      · rw [evalRule_testMark_fail (by simpa [State.mark] using hmeta)]
        exact ⟨c.framing_classifyFrame.refl s, .inl rfl⟩
    · exact hjump h trivial (by decide)
    · exact hjump h trivial (by decide)
    · exact hjump h trivial (by decide)
    · exact hjump h trivial (by decide)
  | output =>
    simp only [body, outputBody, List.mem_cons, List.not_mem_nil, or_false] at hrule
    rcases hrule with h | h | h | h | h
    all_goals exact hjump h trivial (by decide)

/-! ### The save -/

/-- The save rule makes the masked bits of the connection's mark those of the
packet, if a packet without masked bits has a connection without. -/
theorem evalRule_saveRule {s : MarkState}
    (h : s.metaMark &&& c.mmxMask = 0 → s.ctMark &&& c.mmxMask = 0) :
    ∃ t, evalRule (c.call packet) packet c.saveRule s = (t, .next) ∧
      t.metaMark = s.metaMark ∧ t.ctMark &&& c.mmxMask = s.metaMark &&& c.mmxMask := by
  unfold saveRule saveVmap
  simp only [evalRule, lookup_map_key, State.mark]
  by_cases hmem : s.metaMark &&& c.mmxMask ∈ allMarks c.mmxMask
  · rw [if_pos hmem]
    refine ⟨_, c.evalChain_orCt packet hmem _ s, rfl, ?_⟩
    change (s.ctMark &&& ~~~c.mmxMask ||| s.metaMark &&& c.mmxMask) &&& c.mmxMask = _
    rw [clear_write_and, BitVec.and_assoc, BitVec.and_self]
  · rw [if_neg hmem]
    have hmeta : s.metaMark &&& c.mmxMask = 0 := by
      by_contra hne
      exact hmem (and_mask_mem_allMarks hne)
    exact ⟨s, rfl, rfl, (h hmeta).trans hmeta.symm⟩

/-- From restore to save: a packet that comes without masked bits only when its
connection has none leaves with the two agreeing, whether it reaches the save or
returns before it. -/
theorem evalRules_savePart (hook : Hook) {s : MarkState}
    (h : s.metaMark &&& c.mmxMask = 0 → s.ctMark &&& c.mmxMask = 0) :
    ((evalRules (c.call packet) packet (c.savePart hook) s).2 = .next ∨
        (evalRules (c.call packet) packet (c.savePart hook) s).2 = .ret) ∧
      (evalRules (c.call packet) packet (c.savePart hook) s).1.ctMark &&& c.mmxMask =
        (evalRules (c.call packet) packet (c.savePart hook) s).1.metaMark &&& c.mmxMask := by
  have hpart : c.savePart hook = c.body hook ++ [c.saveRule] := by cases hook <;> rfl
  have hframe := evalRules_of_evalRule c.framing_classifyFrame (c.body hook)
    (fun rule hrule t => (c.evalRule_body packet hrule t).1) s
  have hverdict := evalRules_next_or_ret (s := s) (c.body hook)
    (fun t => t.metaMark &&& c.mmxMask = 0)
    (fun rule hrule t => (c.evalRule_body packet hrule t).2)
  have hkeep : (evalRules (c.call packet) packet (c.body hook) s).1.metaMark &&& c.mmxMask = 0 →
      (evalRules (c.call packet) packet (c.body hook) s).1.ctMark &&& c.mmxMask = 0 := by
    intro hzero
    rw [hframe.1]
    refine h (by_contra fun hne => ?_)
    rw [hframe.2 hne] at hzero
    exact hne hzero
  rw [hpart]
  rcases hverdict with hnext | ⟨hret, hzero⟩
  · obtain ⟨t, hrule, hmeta, hct⟩ := c.evalRule_saveRule packet hkeep
    rw [evalRules_append_next (Prod.ext rfl hnext), evalRules_cons_next hrule, evalRules_nil]
    exact ⟨.inl rfl, by rw [hct, hmeta]⟩
  · rw [evalRules_append_done (by simp [hret])]
    exact ⟨.inr hret, (hkeep hzero).trans hzero.symm⟩

/-! ### What follows the save -/

/-- After the save a packet keeps its masked bits or gets the default mark. -/
def PostFrame (s t : MarkState) : Prop :=
  t.ctMark = s.ctMark ∧
    (t.metaMark &&& c.mmxMask = s.metaMark &&& c.mmxMask ∨
      t.metaMark &&& c.mmxMask = mmxDefault c.mmxMask)

theorem framing_postFrame : Framing c.PostFrame where
  refl _ := ⟨rfl, .inl rfl⟩
  trans := by
    rintro s t u ⟨hct₁, hmeta₁⟩ ⟨hct₂, hmeta₂⟩
    refine ⟨hct₂.trans hct₁, ?_⟩
    rcases hmeta₂ with h | h
    · rw [h]
      exact hmeta₁
    · exact .inr h
  draws _ _ := ⟨rfl, .inl rfl⟩

/-- The rules after the save keep that frame. -/
theorem evalRules_postRules (s : MarkState) :
    c.PostFrame s (evalRules (c.call packet) packet c.postRules s).1 := by
  let network : Chain → Prop := fun chain =>
    chain = .custom ∨ chain = .connected ∨ chain = .dynamic
  have hset : ∀ set : Family → Addr → Bool,
      Everywhere (·.Respects c.PostFrame network packet) (c.networkChain set) := by
    intro set rule hrule e he
    simp only [networkChain, List.mem_map] at hrule
    obtain ⟨family, -, rfl⟩ := hrule
    simp only [List.mem_cons, List.not_mem_nil, or_false] at he
    rcases he with rfl | rfl | rfl
    · trivial
    · refine fun t => ⟨rfl, .inr ?_⟩
      change (t.metaMark &&& ~~~c.mmxMask ||| mmxDefault c.mmxMask) &&& c.mmxMask = _
      rw [clear_write_and]
      exact id2mask_and_mask _ _
    · trivial
  have hcall : ∀ chain, network chain → ∀ t, c.PostFrame t (c.call packet chain t).1 := by
    intro chain hchain t
    refine evalChain_respects c.framing_postFrame network (fun callee hcallee => ?_) _ hchain t
    rcases hcallee with rfl | rfl | rfl <;> exact hset _
  refine evalRules_of_evalRule c.framing_postFrame c.postRules (fun rule hrule t => ?_) s
  refine evalRule_respects c.framing_postFrame hcall (fun e he => ?_) t
  simp only [postRules, List.mem_cons, List.not_mem_nil, or_false] at hrule
  rcases hrule with rfl | rfl | rfl <;>
    simp only [List.mem_cons, List.not_mem_nil, or_false] at he <;>
    rcases he with rfl | rfl
  · trivial
  · exact .inl rfl
  · trivial
  · exact .inr (.inl rfl)
  · trivial
  · exact .inr (.inr rfl)

/-! ## The isolation of the marks -/

/-- A hook never changes a bit outside the mask. For a packet it does not bypass,
the restore makes the masked bits of the packet's mark those of the connection's,
except that the output hook leaves a packet its own masked bits; up to the end
of the save the masked bits of the connection become those of the packet; and
afterwards the packet keeps them or gets the default mark. -/
theorem marks_isolated (hook : Hook) (packet : Packet) (s : MarkState) :
    SameOutside c.mmxMask s (evalHook c.ruleset packet hook.chain s).1 ∧
      (packet.bypassed = false →
        (c.afterRestore hook packet s).metaMark &&& c.mmxMask =
            (if hook = .output ∧ s.metaMark &&& c.mmxMask ≠ 0 then s.metaMark &&& c.mmxMask
              else s.ctMark &&& c.mmxMask) ∧
          (c.afterSave hook packet s).ctMark &&& c.mmxMask =
            (c.afterSave hook packet s).metaMark &&& c.mmxMask ∧
          (evalHook c.ruleset packet hook.chain s).1.ctMark =
            (c.afterSave hook packet s).ctMark ∧
          ((evalHook c.ruleset packet hook.chain s).1.metaMark &&& c.mmxMask =
              (c.afterSave hook packet s).metaMark &&& c.mmxMask ∨
            (evalHook c.ruleset packet hook.chain s).1.metaMark &&& c.mmxMask =
              mmxDefault c.mmxMask)) := by
  refine ⟨evalChain_respects (framing_sameOutside c.mmxMask) (fun _ => True)
    (fun chain _ => c.respects_sameOutside chain) _ trivial s, fun hbypass => ?_⟩
  obtain ⟨t, hrestore, hct, hmeta⟩ := c.evalRules_restorePart packet hook hbypass s
  have hzero : t.metaMark &&& c.mmxMask = 0 → t.ctMark &&& c.mmxMask = 0 := by
    intro hzero
    rw [hmeta] at hzero
    split at hzero
    case isTrue hmarked => exact absurd hzero hmarked.2
    case isFalse => rw [hct, hzero]
  obtain ⟨hverdict, hsaved⟩ := c.evalRules_savePart packet hook hzero
  have hafter : c.afterSave hook packet s =
      (evalRules (c.call packet) packet (c.savePart hook) t).1 := by
    unfold afterSave
    rw [evalRules_append_next hrestore]
  have hpost := c.evalRules_postRules packet (c.afterSave hook packet s)
  have hhook : c.PostFrame (c.afterSave hook packet s)
      (evalHook c.ruleset packet hook.chain s).1 := by
    have hbody : evalRules (c.call packet) packet (c.ruleset hook.chain) s =
        evalRules (c.call packet) packet (c.savePart hook ++ c.postRules) t := by
      rw [ruleset_chain, evalRules_append_next hrestore]
    have hresult : (evalHook c.ruleset packet hook.chain s).1 =
        (evalRules (c.call packet) packet (c.savePart hook ++ c.postRules) t).1 := by
      rw [← hbody]
      unfold evalHook
      rw [evalChain]
      split
      case h_1 u heq => rw [heq]
      case h_2 => rfl
    rw [hafter] at hpost
    rw [hresult, hafter]
    rcases hverdict with hnext | hret
    · rw [evalRules_append_next (Prod.ext rfl hnext)]
      exact hpost
    · rw [evalRules_append_done (by simp [hret])]
      exact c.framing_postFrame.refl _
  refine ⟨?_, ?_, hhook.1, hhook.2⟩
  · unfold afterRestore
    rw [hrestore]
    exact hmeta
  · rw [hafter]
    exact hsaved

end Config

/-- One IPv4 interface under a mask of three bits, and one connected host. -/
def sampleConfig : Config where
  mmxMask := 0x700
  noIpv6 := false
  interfaces := [{ name := "wan", family := some .ipv4, device := some "eth0", online := true }]
  policies := []
  rules := []
  connected family addr := family = .ipv4 && addr = 0x0a000001
  custom _ _ := false
  dynamic _ _ := false
  ruleNames := List.nodup_nil

/-- A forwarded packet from the LAN to the given host. -/
def samplePacket (daddr : Addr) : Packet where
  nfproto := .ipv4
  iifname := "br-lan"
  saddr := 0xc0a80102
  daddr := daddr
  icmpv6Type := none
  daddrLocal := false

/-- A packet and a connection with the given marks, and empty sets. -/
def sampleMarks (metaMark ctMark : BitVec 32) : MarkState where
  metaMark := metaMark
  ctMark := ctMark
  sets _ _ := false
  draws := []

/-- The restore is not exact for a marked packet in the output hook, and the marks
need not agree at the end of a hook. -/
theorem not_marks_agree :
    (¬ ∀ (c : Config) (hook : Hook) (packet : Packet) (s : MarkState),
      packet.bypassed = false →
        (c.afterRestore hook packet s).metaMark &&& c.mmxMask = s.ctMark &&& c.mmxMask) ∧
    ¬ ∀ (c : Config) (hook : Hook) (packet : Packet) (s : MarkState),
      packet.bypassed = false →
        (evalHook c.ruleset packet hook.chain s).1.ctMark &&& c.mmxMask =
          (evalHook c.ruleset packet hook.chain s).1.metaMark &&& c.mmxMask := by
  constructor
  · intro hall
    exact absurd
      (hall sampleConfig .output (samplePacket 0x08080808) (sampleMarks 0x200 0x100) (by decide))
      (by decide +kernel)
  · intro hall
    exact absurd
      (hall sampleConfig .prerouting (samplePacket 0x0a000001) (sampleMarks 0 0x100) (by decide))
      (by decide +kernel)

end OpenWrt.Mwan3
