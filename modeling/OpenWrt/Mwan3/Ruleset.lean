/-
# The generated ruleset of mwan3

The shell scripts print an nft ruleset from the configuration and the state of
the interfaces. This module is that generator: every function builds the rules
its shell counterpart pushes, chain by chain.

What a user rule tests of the packet itself (addresses, device, protocol, ports,
address sets filled by others) is a predicate given with the rule; the family
its addresses and sets belong to is kept, since the two render passes depend on
it. The sets of connected, custom and dynamic networks are filled outside the
ruleset and are given as predicates too.
-/

import OpenWrt.Mwan3.Marks
import OpenWrt.Netfilter.Ruleset

namespace OpenWrt.Mwan3

open OpenWrt.Netfilter

/-! ## Packets -/

inductive Family
  | ipv4 | ipv6
  deriving DecidableEq

/-- An address; an IPv4 address takes the low 32 bits. -/
abbrev Addr := BitVec 128

/-- The parts of a packet that the generated rules test. -/
structure Packet where
  nfproto : Family
  iifname : String
  saddr : Addr
  daddr : Addr
  icmpv6Type : Option ℕ
  /-- `fib daddr type local`. -/
  daddrLocal : Bool

/-- The five neighbour discovery messages. -/
def Packet.isNdp (p : Packet) : Bool :=
  match p.icmpv6Type with
  | some type => 133 ≤ type && type ≤ 137
  | none => false

/-- `ip6 daddr { fe80::/10, ff01::/16, ff02::/16 }`. -/
def Packet.isLinkScope (p : Packet) : Bool :=
  p.nfproto = .ipv6 &&
    (p.daddr.extractLsb' 118 10 = 0x3fa || p.daddr.extractLsb' 112 16 = 0xff01 ||
      p.daddr.extractLsb' 112 16 = 0xff02)

/-- `ip saddr` or `ip6 saddr`, which only a packet of the family has. -/
def Packet.saddrOf (family : Family) (p : Packet) : Option Addr :=
  if p.nfproto = family then some p.saddr else none

/-! ## Configuration -/

/-- An interface section with the state its chain depends on. A family other than
the two is `none`. -/
structure Interface where
  name : String
  family : Option Family
  /-- The layer-3 device, when the interface's chain has been built. -/
  device : Option String
  /-- The hotplug state is `online`. -/
  online : Bool

/-- A member section. -/
structure Member where
  interface : String
  metric : Int
  weight : ℕ

/-- What a policy does when no member takes the packet. -/
inductive LastResort
  | unreachable | blackhole | default

/-- A policy section with its member list. -/
structure Policy where
  name : String
  members : List Member
  lastResort : LastResort

/-- The family option of a rule. -/
inductive RuleFamily
  | any | ipv4 | ipv6
  deriving DecidableEq

/-- Whether addresses or sets tie a rule to a family, and to which; `tied none`
is a rule whose addresses are invalid or of both families. -/
inductive Anchor
  | free | tied (family : Option Family)
  deriving DecidableEq

/-- A rule section. -/
structure UserRule where
  name : String
  enabled : Bool
  family : RuleFamily
  anchor : Anchor
  protoIcmp : Bool
  /-- The source interface, if any is given, has a device. -/
  srcDevFound : Bool
  sticky : Bool
  usePolicy : String
  /-- Logging is on globally and for the rule. -/
  logging : Bool
  fwmark : Option (BitVec 32)
  fwmask : Option (BitVec 32)
  /-- The packet tests the given pass renders. -/
  packetTest : Family → Packet → Bool

/-- The configuration, the interface states and the network sets that a rendering
depends on. The configuration system keeps the names of sections distinct. -/
structure Config where
  mmxMask : BitVec 32
  noIpv6 : Bool
  interfaces : List Interface
  policies : List Policy
  rules : List UserRule
  connected : Family → Addr → Bool
  custom : Family → Addr → Bool
  dynamic : Family → Addr → Bool
  ruleNames : (rules.map UserRule.name).Nodup

/-- The chains of the table. -/
inductive Chain
  | prerouting | output | ifacesIn | rules | connected | custom | dynamic
  | ifaceIn (interface : String)
  | policy (name : String)
  | rule (name : String)
  | orMeta (mark : BitVec 32)
  | orCt (mark : BitVec 32)
  deriving DecidableEq

/-- The sticky sets, `mwan3_sticky_<family>_<rule>_<id>`. -/
structure StickySet where
  family : Family
  rule : String
  id : ℕ
  deriving DecidableEq

abbrev RuleExpr := Expr Packet Chain StickySet Addr

abbrev MarkState := State StickySet Addr

namespace Config

/-- `mwan3_get_iface_id`: the interfaces are numbered in order, from 1. -/
def ifaceId (c : Config) (name : String) : Option ℕ :=
  (c.interfaces.findIdx? fun iface => iface.name = name).map (· + 1)

def interface (c : Config) (name : String) : Option Interface :=
  c.interfaces.find? fun iface => iface.name = name

def policy (c : Config) (name : String) : Option Policy :=
  c.policies.find? fun p => p.name = name

/-- `ip daddr @set` or `ip6 daddr @set`. -/
def daddrIn (set : Family → Addr → Bool) (family : Family) : RuleExpr :=
  .test fun p => p.nfproto = family && set family p.daddr

/-- `meta nfproto <family> ip saddr @set`. -/
def saddrIn (set : Family → Addr → Bool) (family : Family) : RuleExpr :=
  .test fun p => p.nfproto = family && set family p.saddr

/-- `meta mark & MMX_MASK == 0`. -/
def unmarked (c : Config) : RuleExpr :=
  .testMark .metaMark c.mmxMask 0 true

/-- `meta mark & MMX_MASK != MMX_DEFAULT`. -/
def notDefault (c : Config) : RuleExpr :=
  .testMark .metaMark c.mmxMask (mmxDefault c.mmxMask) false

/-- `mwan3_nft_mark_expr`. -/
def markExpr (c : Config) (value : BitVec 32) : RuleExpr :=
  .setMark .metaMark (~~~c.mmxMask) value

/-- The families whose rules are rendered. -/
def families (c : Config) : List Family :=
  if c.noIpv6 then [.ipv4] else [.ipv4, .ipv6]

/-! ## The setter chains and the verdict maps -/

/-- `mwan3_build_or_chains_nft`, the chain that sets the packet's mark. -/
def orMetaChain (c : Config) (mark : BitVec 32) : List (List RuleExpr) :=
  if mark ∈ allMarks c.mmxMask then [[.setMark .metaMark (BitVec.allOnes 32) mark]] else []

/-- The same for the connection's mark. -/
def orCtChain (c : Config) (mark : BitVec 32) : List (List RuleExpr) :=
  if mark ∈ allMarks c.mmxMask then [[.setMark .ctMark (~~~c.mmxMask) mark]] else []

/-- The restore map: the connection's masked mark chooses the setter. -/
def restoreVmap (c : Config) : RuleExpr :=
  .vmap .ctMark c.mmxMask ((allMarks c.mmxMask).map fun mark => (mark, .orMeta mark))

def saveVmap (c : Config) : RuleExpr :=
  .vmap .metaMark c.mmxMask ((allMarks c.mmxMask).map fun mark => (mark, .orCt mark))

/-! ## The hook chains of `mwan3_set_general_nft` -/

/-- A chain that gives the packets for a network set the default mark. -/
def networkChain (c : Config) (set : Family → Addr → Bool) : List (List RuleExpr) :=
  c.families.map fun family =>
    [daddrIn set family, c.markExpr (mmxDefault c.mmxMask), .ret]

/-- The bypass of neighbour discovery. -/
def ndpBypass : List RuleExpr :=
  [.test Packet.isNdp, .accept]

/-- The bypass of single-link destinations. -/
def linkScopeBypass : List RuleExpr :=
  [.test Packet.isLinkScope, .accept]

def restoreRule (c : Config) : List RuleExpr :=
  [c.unmarked, c.restoreVmap]

def saveRule (c : Config) : List RuleExpr :=
  [c.saveVmap]

def jumpUnmarked (c : Config) (chain : Chain) : List RuleExpr :=
  [c.unmarked, .jump chain]

/-- The rules ahead of the restore in `mwan3_prerouting`. -/
def preroutingHead (c : Config) : List (List RuleExpr) :=
  [ndpBypass, [.setMark .metaMark (~~~c.mmxMask) 0], linkScopeBypass]

/-- The rules between restore and save in `mwan3_prerouting`. -/
def preroutingBody (c : Config) : List (List RuleExpr) :=
  [c.jumpUnmarked .ifacesIn,
    [c.unmarked, .test Packet.daddrLocal, .ret],
    c.jumpUnmarked .custom, c.jumpUnmarked .connected, c.jumpUnmarked .dynamic,
    c.jumpUnmarked .rules]

/-- The rules ahead of the restore in `mwan3_output`. -/
def outputHead : List (List RuleExpr) :=
  [ndpBypass, linkScopeBypass]

/-- The rules between restore and save in `mwan3_output`. -/
def outputBody (c : Config) : List (List RuleExpr) :=
  [c.jumpUnmarked .ifacesIn,
    c.jumpUnmarked .custom, c.jumpUnmarked .connected, c.jumpUnmarked .dynamic,
    c.jumpUnmarked .rules]

/-- The rules after the save, the same in both hooks. -/
def postRules (c : Config) : List (List RuleExpr) :=
  [[c.notDefault, .jump .custom], [c.notDefault, .jump .connected],
    [c.notDefault, .jump .dynamic]]

/-- `mwan3_prerouting`. -/
def preroutingChain (c : Config) : List (List RuleExpr) :=
  c.preroutingHead ++ ([c.restoreRule] ++ (c.preroutingBody ++ ([c.saveRule] ++ c.postRules)))

/-- `mwan3_output`. -/
def outputChain (c : Config) : List (List RuleExpr) :=
  outputHead ++ ([c.restoreRule] ++ (c.outputBody ++ ([c.saveRule] ++ c.postRules)))

/-! ## The interface chains of `mwan3_create_iface_nft` -/

/-- `mwan3_ifaces_in`: a jump for each interface whose chain has been built. -/
def ifacesInChain (c : Config) : List (List RuleExpr) :=
  (c.interfaces.filter fun iface =>
    iface.device.isSome && !(iface.family = some .ipv6 && c.noIpv6)).map fun iface =>
    c.jumpUnmarked (.ifaceIn iface.name)

/-- One rule of an interface chain: `iifname <device> meta nfproto <family>`, a
further test, and the mark. -/
def ifaceRule (c : Config) (device : String) (family : Family) (tests : List RuleExpr)
    (mark : BitVec 32) : List RuleExpr :=
  .test (fun p => p.iifname = device && p.nfproto = family) ::
    (tests ++ [c.unmarked, c.markExpr mark])

/-- `mwan3_iface_in_<name>`. An IPv6 interface has no chain without IPv6, and one
of an unknown family has an empty chain. -/
def ifaceInChain (c : Config) (name : String) : List (List RuleExpr) :=
  match c.ifaceId name, c.interface name with
  | some id, some iface =>
    match iface.device, iface.family with
    | some device, some family =>
      if family = .ipv6 ∧ c.noIpv6 then []
      else
        [c.ifaceRule device family [saddrIn c.connected family] (mmxDefault c.mmxMask),
          c.ifaceRule device family [saddrIn c.custom family] (mmxDefault c.mmxMask),
          c.ifaceRule device family [saddrIn c.dynamic family] (mmxDefault c.mmxMask),
          c.ifaceRule device family [] (id2mask id c.mmxMask)]
    | _, _ => []
  | _, _ => []

/-! ## The policy chains of `mwan3_create_policies_nft` -/

/-- `DEFAULT_LOWEST_METRIC`. -/
def defaultLowestMetric : Int := 256

/-- The members collected for one family, as identifier and weight, with the
lowest metric so far. -/
structure Contest where
  lowestMetric : Int
  members : List (ℕ × ℕ)

/-- A member with a lower metric replaces the collected ones, one with the same
joins them. -/
def Contest.enter (contest : Contest) (metric : Int) (id weight : ℕ) : Contest :=
  if metric < contest.lowestMetric then ⟨metric, [(id, weight)]⟩
  else if metric = contest.lowestMetric then
    { contest with members := contest.members ++ [(id, weight)] }
  else contest

/-- `mwan3_set_policy` on the contests of the two families. -/
def setPolicy (c : Config) (contests : Contest × Contest) (member : Member) :
    Contest × Contest :=
  if member.interface = "" ∨ defaultLowestMetric < member.metric then contests
  else
    match c.ifaceId member.interface, c.interface member.interface with
    | some id, some iface =>
      if iface.online = false then contests
      else
        match iface.family with
        | some .ipv4 => (contests.1.enter member.metric id member.weight, contests.2)
        | some .ipv6 =>
          if c.noIpv6 then contests
          else (contests.1, contests.2.enter member.metric id member.weight)
        | none => contests
    | _, _ => contests

/-- The members of a policy that take packets, for each family. -/
def policyMembers (c : Config) (p : Policy) : List (ℕ × ℕ) × List (ℕ × ℕ) :=
  let contests :=
    p.members.foldl c.setPolicy (⟨defaultLowestMetric, []⟩, ⟨defaultLowestMetric, []⟩)
  (contests.1.members, contests.2.members)

/-- The ranges of the number generator: consecutive, as long as the weights. -/
def mapEntries (c : Config) : Int → List (ℕ × ℕ) → List (Int × Int × Chain)
  | _, [] => []
  | running, (id, weight) :: members =>
    (running, running + weight - 1, .orMeta (id2mask id c.mmxMask)) ::
      c.mapEntries (running + weight) members

/-- The `nfproto_guard` of a policy that has members of both families. -/
def nfprotoGuard (family : Family) (guarded : Bool) : List RuleExpr :=
  if guarded then [.test fun p => p.nfproto = family] else []

/-- The rule for the members of one family; `guarded` when the other family has
members too. -/
def familyRule (c : Config) (family : Family) (guarded : Bool) :
    List (ℕ × ℕ) → List (List RuleExpr)
  | [] => []
  | [(id, _)] =>
    [nfprotoGuard family guarded ++ [c.unmarked, c.markExpr (id2mask id c.mmxMask)]]
  | members =>
    [nfprotoGuard family guarded ++ [c.unmarked,
      .numgen (members.map Prod.snd).sum (c.mapEntries 0 members)]]

def lastResortMark (c : Config) : LastResort → BitVec 32
  | .unreachable => mmxUnreachable c.mmxMask
  | .blackhole => mmxBlackhole c.mmxMask
  | .default => mmxDefault c.mmxMask

/-- `mwan3_policy_<name>`. -/
def policyChain (c : Config) (name : String) : List (List RuleExpr) :=
  match c.policy name with
  | none => []
  | some p =>
    if 15 < p.name.length then []
    else
      let (v4, v6) := c.policyMembers p
      (if 0 < ((v4 ++ v6).map Prod.snd).sum then
        c.familyRule .ipv4 (!v6.isEmpty) v4 ++ c.familyRule .ipv6 (!v4.isEmpty) v6
      else []) ++ [[c.unmarked, c.markExpr (c.lastResortMark p.lastResort)]]

/-! ## The user rules of `mwan3_set_user_nft_rule` -/

/-- `mwan3_get_policy_members_for_family`: the members' identifiers; their marks
follow from these. -/
def policyMembersForFamily (c : Config) (policy : String) (family : Family) : List ℕ :=
  match c.policy policy with
  | none => []
  | some p =>
    p.members.filterMap fun member =>
      match c.interface member.interface with
      | some iface =>
        if member.interface ≠ "" ∧ iface.family = some family then
          c.ifaceId member.interface
        else none
      | none => none

/-- Whether a pass renders the rule. -/
def renders (c : Config) (r : UserRule) (ipv : Family) : Bool :=
  r.enabled && r.fwmark.isSome == r.fwmask.isSome &&
    !(ipv = .ipv6 && c.noIpv6) &&
    !(r.family = .ipv4 && ipv = .ipv6) && !(r.family = .ipv6 && ipv = .ipv4) &&
    !(r.family = .any && ipv = .ipv6 && r.anchor = .free && !r.protoIcmp) &&
    (r.anchor = .free || r.anchor = .tied (some ipv)) &&
    r.srcDevFound && r.name.length ≤ 15 && r.usePolicy != ""

/-- The rule has a chain of its own: it is sticky and its policy is not one of the
three built-in ones. -/
def isSticky (r : UserRule) : Bool :=
  r.sticky && !(r.usePolicy = "default" || r.usePolicy = "unreachable" ||
    r.usePolicy = "blackhole")

/-- The families a pass serves in the rule's own chain. -/
def stickyFamilies (c : Config) (r : UserRule) (ipv : Family) : List Family :=
  if r.family = .any ∧ r.anchor = .free then
    if ipv = .ipv6 then [] else c.families
  else [ipv]

/-- The members of the rule's policy in the given families, with their family. -/
def stickyMembers (c : Config) (r : UserRule) (families : List Family) :
    List (Family × ℕ) :=
  families.flatMap fun family =>
    (c.policyMembersForFamily r.usePolicy family).map fun id => (family, id)

def stickyLookup (c : Config) (r : UserRule) (member : Family × ℕ) : List RuleExpr :=
  [.lookup (Packet.saddrOf member.1) ⟨member.1, r.name, member.2⟩,
    .jump (.orMeta (id2mask member.2 c.mmxMask))]

def stickyUpdate (c : Config) (r : UserRule) (member : Family × ℕ) : List RuleExpr :=
  [.testMark .metaMark c.mmxMask (id2mask member.2 c.mmxMask) true,
    .update (Packet.saddrOf member.1) ⟨member.1, r.name, member.2⟩]

/-- What one pass adds to `mwan3_rule_<name>`: the lookups, the policy for those
that hit none, and the updates. -/
def stickyPass (c : Config) (r : UserRule) (ipv : Family) : List (List RuleExpr) :=
  if (c.stickyFamilies r ipv).isEmpty then []
  else
    (c.stickyMembers r (c.stickyFamilies r ipv)).map (c.stickyLookup r) ++
      (c.jumpUnmarked (.policy r.usePolicy) ::
        (c.stickyMembers r (c.stickyFamilies r ipv)).map (c.stickyUpdate r))

/-- `mwan3_rule_<name>`, over the two passes. -/
def ruleChain (c : Config) (r : UserRule) : List (List RuleExpr) :=
  [Family.ipv4, Family.ipv6].flatMap fun ipv =>
    if c.renders r ipv && isSticky r then c.stickyPass r ipv else []

/-- The tests of a rule's line: the packet tests of the pass, the external mark,
and the family when nothing else implies it. -/
def ruleMatch (r : UserRule) (ipv : Family) : List RuleExpr :=
  [.test (r.packetTest ipv)] ++
    (match r.fwmark, r.fwmask with
      | some fwmark, some fwmask => [.testMark .metaMark fwmask fwmark true]
      | _, _ => []) ++
    (match r.anchor, r.family with
      | .free, .ipv4 => [.test fun p => p.nfproto = .ipv4]
      | .free, .ipv6 => [.test fun p => p.nfproto = .ipv6]
      | _, _ => [])

/-- The action of a rule's line. -/
def policyAction (c : Config) (r : UserRule) : RuleExpr :=
  if r.usePolicy = "default" then c.markExpr (mmxDefault c.mmxMask)
  else if r.usePolicy = "unreachable" then c.markExpr (mmxUnreachable c.mmxMask)
  else if r.usePolicy = "blackhole" then c.markExpr (mmxBlackhole c.mmxMask)
  else if r.sticky then .jump (.rule r.name)
  else .jump (.policy r.usePolicy)

/-- The lines one pass adds to `mwan3_rules`. -/
def ruleLines (c : Config) (r : UserRule) (ipv : Family) : List (List RuleExpr) :=
  if c.renders r ipv then
    (if r.logging then [ruleMatch r ipv ++ [c.unmarked, .log]] else []) ++
      [ruleMatch r ipv ++ [c.unmarked, c.policyAction r]]
  else []

/-- `mwan3_rules`: the rules in order, each with its two passes. -/
def rulesChain (c : Config) : List (List RuleExpr) :=
  c.rules.flatMap fun r => [Family.ipv4, Family.ipv6].flatMap (c.ruleLines r)

def ruleset (c : Config) : Ruleset Packet Chain StickySet Addr
  | .prerouting => c.preroutingChain
  | .output => c.outputChain
  | .ifacesIn => c.ifacesInChain
  | .rules => c.rulesChain
  | .connected => c.networkChain c.connected
  | .custom => c.networkChain c.custom
  | .dynamic => c.networkChain c.dynamic
  | .ifaceIn name => c.ifaceInChain name
  | .policy name => c.policyChain name
  | .rule name =>
    (c.rules.filter fun r => r.name = name).flatMap c.ruleChain
  | .orMeta mark => c.orMetaChain mark
  | .orCt mark => c.orCtChain mark

end Config

end OpenWrt.Mwan3
