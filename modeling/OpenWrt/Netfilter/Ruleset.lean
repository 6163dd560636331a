/-
# Packet rulesets over marks and dynamic sets

A rule is a list of expressions that are evaluated in order for one packet. A
test that fails ends the rule; a verdict ends it too, and a verdict map is a
verdict chosen by a mark or by a number generator. A rule reads and writes the
packet's mark, the mark of its connection and the dynamic sets; everything else
about the packet is fixed.

Chains call each other by name. A call that returns, or reaches the end of the
called chain, goes on with the next rule of the calling one. The kernel bounds
the depth of calls and drops a packet that exceeds it, and so does the
evaluator, which is therefore total.

A result about all packets is a relation between the state before and the state
after. One that every single write respects is respected by whole chains, and
this is proved once, for a set of chains closed under calls.
-/

import Mathlib.Data.List.Basic

namespace OpenWrt.Netfilter

universe up uc us uk

variable {Packet : Type up} {Chain : Type uc} {SetName : Type us} {Key : Type uk}

/-! ## State and expressions -/

/-- The two marks a rule can read and write: the packet's and its connection's. -/
inductive Register
  | metaMark | ctMark
  deriving DecidableEq

/-- What the rules of a hook may change while a packet traverses them. The draws
are the numbers the generators return, in order. -/
@[ext]
structure State (SetName : Type us) (Key : Type uk) where
  metaMark : BitVec 32
  ctMark : BitVec 32
  sets : SetName → Key → Bool
  draws : List ℕ

namespace State

def mark (s : State SetName Key) : Register → BitVec 32
  | .metaMark => s.metaMark
  | .ctMark => s.ctMark

def setMark (s : State SetName Key) (value : BitVec 32) : Register → State SetName Key
  | .metaMark => { s with metaMark := value }
  | .ctMark => { s with ctMark := value }

/-- Add an element to a set. -/
def insert [DecidableEq SetName] [DecidableEq Key] (s : State SetName Key) (set : SetName)
    (key : Key) : State SetName Key :=
  { s with sets := fun set' key' => (set' = set && key' = key) || s.sets set' key' }

end State

/-- How the evaluation of a rule or a chain ends: with the next rule, with a
return to the calling chain, or with a final verdict. -/
inductive Verdict
  | next | ret | accept | drop
  deriving DecidableEq

/-- One expression of a rule. -/
inductive Expr (Packet : Type up) (Chain : Type uc) (SetName : Type us) (Key : Type uk)
  | /-- A test of the packet itself. -/
    test (holds : Packet → Bool)
  | /-- A comparison of a masked mark, `==` or `!=`. -/
    testMark (register : Register) (mask value : BitVec 32) (equal : Bool)
  | /-- A lookup in a dynamic set; a packet without the key fails it. -/
    lookup (key : Packet → Option Key) (set : SetName)
  | /-- `mark set mark & keep | value`. -/
    setMark (register : Register) (keep value : BitVec 32)
  | /-- Add the packet's key to a set, or refresh it there. -/
    update (key : Packet → Option Key) (set : SetName)
  | log
  | /-- A verdict map on a masked mark, all of whose verdicts are jumps. -/
    vmap (register : Register) (mask : BitVec 32) (entries : List (BitVec 32 × Chain))
  | /-- A verdict map on a number generator, keyed by inclusive ranges. -/
    numgen (modulus : ℕ) (entries : List (Int × Int × Chain))
  | jump (chain : Chain)
  | ret
  | accept

abbrev Ruleset (Packet : Type up) (Chain : Type uc) (SetName : Type us) (Key : Type uk) :=
  Chain → List (List (Expr Packet Chain SetName Key))

/-! ## Evaluation -/

section Eval

variable [DecidableEq SetName] [DecidableEq Key]

/-- Evaluate one rule, given what a call to a chain does. -/
def evalRule (call : Chain → State SetName Key → State SetName Key × Verdict)
    (packet : Packet) :
    List (Expr Packet Chain SetName Key) → State SetName Key → State SetName Key × Verdict
  | [], s => (s, .next)
  | .test holds :: rest, s => if holds packet then evalRule call packet rest s else (s, .next)
  | .testMark register mask value equal :: rest, s =>
    if (s.mark register &&& mask = value) = (equal = true) then evalRule call packet rest s
    else (s, .next)
  | .lookup key set :: rest, s =>
    match key packet with
    | some k => if s.sets set k then evalRule call packet rest s else (s, .next)
    | none => (s, .next)
  | .setMark register keep value :: rest, s =>
    evalRule call packet rest (s.setMark (s.mark register &&& keep ||| value) register)
  | .update key set :: rest, s =>
    match key packet with
    | some k => evalRule call packet rest (s.insert set k)
    | none => (s, .next)
  | .log :: rest, s => evalRule call packet rest s
  | .vmap register mask entries :: _, s =>
    match entries.lookup (s.mark register &&& mask) with
    | some chain => call chain s
    | none => (s, .next)
  | .numgen modulus entries :: _, s =>
    let draw : Int := ((s.draws.headD 0 % modulus : ℕ) : Int)
    let s := { s with draws := s.draws.tail }
    match entries.find? (fun entry => entry.1 ≤ draw && draw ≤ entry.2.1) with
    | some entry => call entry.2.2 s
    | none => (s, .next)
  | .jump chain :: _, s => call chain s
  | .ret :: _, s => (s, .ret)
  | .accept :: _, s => (s, .accept)

/-- Evaluate rules in order until one ends otherwise than with the next rule. -/
def evalRules (call : Chain → State SetName Key → State SetName Key × Verdict)
    (packet : Packet) :
    List (List (Expr Packet Chain SetName Key)) → State SetName Key →
      State SetName Key × Verdict
  | [], s => (s, .next)
  | rule :: rules, s =>
    match evalRule call packet rule s with
    | (s', .next) => evalRules call packet rules s'
    | result => result

/-- Evaluate a chain with so many levels of calls left. -/
def evalChain (ruleset : Ruleset Packet Chain SetName Key) (packet : Packet) :
    ℕ → Chain → State SetName Key → State SetName Key × Verdict
  | 0, _, s => (s, .drop)
  | depth + 1, chain, s =>
    match evalRules (evalChain ruleset packet depth) packet (ruleset chain) s with
    | (s', .ret) => (s', .next)
    | result => result

/-- The kernel's bound on nested calls. -/
def jumpStackSize : ℕ := 16

/-- What a base chain makes of a packet: the state it leaves. -/
def evalHook (ruleset : Ruleset Packet Chain SetName Key) (packet : Packet) (chain : Chain)
    (s : State SetName Key) : State SetName Key × Verdict :=
  evalChain ruleset packet (jumpStackSize + 1) chain s

end Eval

/-! ## Single rules and rule lists -/

section Rules

variable [DecidableEq SetName] [DecidableEq Key]
  {call : Chain → State SetName Key → State SetName Key × Verdict} {packet : Packet}
  {s : State SetName Key}

@[simp]
theorem evalRules_nil : evalRules call packet [] s = (s, .next) := rfl

theorem evalRules_cons_next {rule : List (Expr Packet Chain SetName Key)}
    {rules : List (List (Expr Packet Chain SetName Key))} {s' : State SetName Key}
    (h : evalRule call packet rule s = (s', .next)) :
    evalRules call packet (rule :: rules) s = evalRules call packet rules s' := by
  simp [evalRules, h]

theorem evalRules_cons_done {rule : List (Expr Packet Chain SetName Key)}
    {rules : List (List (Expr Packet Chain SetName Key))}
    (h : (evalRule call packet rule s).2 ≠ .next) :
    evalRules call packet (rule :: rules) s = evalRule call packet rule s := by
  rcases hresult : evalRule call packet rule s with ⟨s', verdict⟩
  rw [hresult] at h
  cases verdict <;> simp_all [evalRules]

/-- A list whose first part goes on passes its state to the second. -/
theorem evalRules_append_next {first second : List (List (Expr Packet Chain SetName Key))}
    {s' : State SetName Key} (h : evalRules call packet first s = (s', .next)) :
    evalRules call packet (first ++ second) s = evalRules call packet second s' := by
  induction first generalizing s with
  | nil =>
    cases h
    rfl
  | cons rule rules ih =>
    rcases hresult : evalRule call packet rule s with ⟨t, verdict⟩
    cases verdict with
    | next =>
      rw [evalRules_cons_next hresult] at h
      rw [List.cons_append, evalRules_cons_next hresult, ih h]
    | ret | accept | drop => simp [evalRules, hresult] at h

/-- A list whose first part ends otherwise never reaches the second. -/
theorem evalRules_append_done {first second : List (List (Expr Packet Chain SetName Key))}
    (h : (evalRules call packet first s).2 ≠ .next) :
    evalRules call packet (first ++ second) s = evalRules call packet first s := by
  induction first generalizing s with
  | nil => exact absurd rfl h
  | cons rule rules ih =>
    rcases hresult : evalRule call packet rule s with ⟨t, verdict⟩
    cases verdict with
    | next =>
      rw [evalRules_cons_next hresult] at h
      rw [List.cons_append, evalRules_cons_next hresult, evalRules_cons_next hresult, ih h]
    | ret | accept | drop =>
      rw [List.cons_append, evalRules_cons_done (by simp [hresult]),
        evalRules_cons_done (by simp [hresult])]

theorem evalRule_testMark_fail {register : Register} {mask value : BitVec 32} {equal : Bool}
    {rest : List (Expr Packet Chain SetName Key)}
    (h : ¬ ((s.mark register &&& mask = value) = (equal = true))) :
    evalRule call packet (.testMark register mask value equal :: rest) s = (s, .next) := by
  rw [evalRule, if_neg h]

theorem evalRule_testMark_pass {register : Register} {mask value : BitVec 32} {equal : Bool}
    {rest : List (Expr Packet Chain SetName Key)}
    (h : (s.mark register &&& mask = value) = (equal = true)) :
    evalRule call packet (.testMark register mask value equal :: rest) s =
      evalRule call packet rest s := by
  rw [evalRule, if_pos h]

/-- The expressions that only decide whether a rule goes on. -/
def Expr.IsTest : Expr Packet Chain SetName Key → Prop
  | .test _ | .testMark _ _ _ _ | .lookup _ _ | .log => True
  | _ => False

/-- A rule that begins with tests does nothing or does what follows them. -/
theorem evalRule_tests_append
    (call : Chain → State SetName Key → State SetName Key × Verdict) (packet : Packet)
    {tests : List (Expr Packet Chain SetName Key)} (htests : ∀ e ∈ tests, e.IsTest)
    (rest : List (Expr Packet Chain SetName Key)) (s : State SetName Key) :
    evalRule call packet (tests ++ rest) s = (s, .next) ∨
      evalRule call packet (tests ++ rest) s = evalRule call packet rest s := by
  induction tests with
  | nil => exact .inr rfl
  | cons e tests ih =>
    have he := htests e (by simp)
    have ih := ih fun e' he' => htests e' (by simp [he'])
    cases e with
    | test holds =>
      rw [List.cons_append, evalRule]
      split
      · exact ih
      · exact .inl rfl
    | testMark register mask value equal =>
      rw [List.cons_append, evalRule]
      split
      · exact ih
      · exact .inl rfl
    | lookup key set =>
      rw [List.cons_append, evalRule]
      split
      · split
        · exact ih
        · exact .inl rfl
      · exact .inl rfl
    | log => exact ih
    | setMark | update | vmap | numgen | jump | ret | accept => exact he.elim

theorem lookup_map_key {keys : List (BitVec 32)} (f : BitVec 32 → Chain) (key : BitVec 32) :
    (keys.map fun k => (k, f k)).lookup key = if key ∈ keys then some (f key) else none := by
  induction keys with
  | nil => rfl
  | cons k keys ih =>
    rw [List.map_cons, List.lookup_cons, ih]
    by_cases heq : key = k
    · subst heq
      simp
    · simp [beq_false_of_ne heq, heq]

/-- If every rule goes on, or returns in a state with a property, so do the rules
in order. -/
theorem evalRules_next_or_ret (rules : List (List (Expr Packet Chain SetName Key)))
    (Q : State SetName Key → Prop)
    (h : ∀ rule ∈ rules, ∀ s, (evalRule call packet rule s).2 = .next ∨
      (evalRule call packet rule s).2 = .ret ∧ Q (evalRule call packet rule s).1) :
    (evalRules call packet rules s).2 = .next ∨
      (evalRules call packet rules s).2 = .ret ∧ Q (evalRules call packet rules s).1 := by
  induction rules generalizing s with
  | nil => exact .inl rfl
  | cons rule rules ih =>
    rcases hresult : evalRule call packet rule s with ⟨s', verdict⟩
    by_cases hnext : verdict = .next
    · subst hnext
      rw [evalRules_cons_next hresult]
      exact ih fun rule' h' => h rule' (by simp [h'])
    · rw [evalRules_cons_done (by simpa [hresult] using hnext)]
      exact h rule (by simp) s

end Rules

/-! ## Relations every write respects -/

/-- A relation between the states before and after that is reflexive and
transitive and does not look at the draws. -/
structure Framing (R : State SetName Key → State SetName Key → Prop) : Prop where
  refl : ∀ s, R s s
  trans : ∀ {s t u}, R s t → R t u → R s u
  draws : ∀ s numbers, R s { s with draws := numbers }

section Frame

variable [DecidableEq SetName] [DecidableEq Key]
  {R : State SetName Key → State SetName Key → Prop} {callees : Chain → Prop}
  {packet : Packet} {ruleset : Ruleset Packet Chain SetName Key}

/-- The expression's own write respects the relation, and it calls only the given
chains. -/
def Expr.Respects (R : State SetName Key → State SetName Key → Prop) (callees : Chain → Prop)
    (packet : Packet) : Expr Packet Chain SetName Key → Prop
  | .setMark register keep value =>
    ∀ s, R s (s.setMark (s.mark register &&& keep ||| value) register)
  | .update key set => ∀ s k, key packet = some k → R s (s.insert set k)
  | .vmap _ _ entries => ∀ entry ∈ entries, callees entry.2
  | .numgen _ entries => ∀ entry ∈ entries, callees entry.2.2
  | .jump chain => callees chain
  | _ => True

/-- A rule whose expressions respect the relation respects it. -/
theorem evalRule_respects (hR : Framing R)
    {call : Chain → State SetName Key → State SetName Key × Verdict}
    (hcall : ∀ chain, callees chain → ∀ s, R s (call chain s).1)
    {rule : List (Expr Packet Chain SetName Key)}
    (hrule : ∀ e ∈ rule, e.Respects R callees packet) (s : State SetName Key) :
    R s (evalRule call packet rule s).1 := by
  induction rule generalizing s with
  | nil => exact hR.refl s
  | cons e rest ih =>
    have he := hrule e (by simp)
    have hrest := ih (fun e' he' => hrule e' (by simp [he']))
    cases e with
    | test holds =>
      rw [evalRule]
      split
      · exact hrest s
      · exact hR.refl s
    | testMark register mask value equal =>
      rw [evalRule]
      split
      · exact hrest s
      · exact hR.refl s
    | lookup key set =>
      rw [evalRule]
      split
      · split
        · exact hrest s
        · exact hR.refl s
      · exact hR.refl s
    | setMark register keep value =>
      rw [evalRule]
      exact hR.trans (he s) (hrest _)
    | update key set =>
      rw [evalRule]
      split
      case h_1 k hkey => exact hR.trans (he s k hkey) (hrest _)
      case h_2 => exact hR.refl s
    | log =>
      rw [evalRule]
      exact hrest s
    | vmap register mask entries =>
      rw [evalRule]
      split
      case h_1 chain hlookup =>
        obtain ⟨first, second, hentries, -⟩ := List.lookup_eq_some_iff.mp hlookup
        exact hcall chain (he (s.mark register &&& mask, chain) (by simp [hentries])) s
      case h_2 => exact hR.refl s
    | numgen modulus entries =>
      rw [evalRule]
      split
      case h_1 entry hfind =>
        exact hR.trans (hR.draws s _)
          (hcall entry.2.2 (he entry (List.mem_of_find?_eq_some hfind)) _)
      case h_2 => exact hR.draws s _
    | jump chain =>
      rw [evalRule]
      exact hcall chain he s
    | ret => exact hR.refl s
    | accept => exact hR.refl s

omit [DecidableEq SetName] [DecidableEq Key] in
def Everywhere (P : Expr Packet Chain SetName Key → Prop)
    (rules : List (List (Expr Packet Chain SetName Key))) : Prop :=
  ∀ rule ∈ rules, ∀ e ∈ rule, P e

/-- Rules in order respect what each of them does. -/
theorem evalRules_of_evalRule (hR : Framing R)
    {call : Chain → State SetName Key → State SetName Key × Verdict}
    (rules : List (List (Expr Packet Chain SetName Key)))
    (hrules : ∀ rule ∈ rules, ∀ s, R s (evalRule call packet rule s).1)
    (s : State SetName Key) : R s (evalRules call packet rules s).1 := by
  induction rules generalizing s with
  | nil => exact hR.refl s
  | cons rule rules ih =>
    have hfirst := hrules rule (by simp) s
    rw [evalRules]
    split
    case h_1 s' hresult =>
      rw [hresult] at hfirst
      exact hR.trans hfirst (ih (fun rule' h => hrules rule' (by simp [h])) s')
    case h_2 => exact hfirst

/-- Chains respect a relation when those they call are among chains whose
expressions respect it. -/
theorem evalChain_respects (hR : Framing R) (callees : Chain → Prop)
    (hrules : ∀ chain, callees chain → Everywhere (·.Respects R callees packet) (ruleset chain))
    (depth : ℕ) {chain : Chain} (hchain : callees chain) (s : State SetName Key) :
    R s (evalChain ruleset packet depth chain s).1 := by
  induction depth generalizing chain s with
  | zero => exact hR.refl s
  | succ depth ih =>
    have hbody := evalRules_of_evalRule hR (ruleset chain)
      (fun rule hrule => evalRule_respects hR (fun c hc t => ih hc t)
        (hrules chain hchain rule hrule)) s
    rw [evalChain]
    split
    case h_1 s' hresult =>
      rw [hresult] at hbody
      exact hbody
    case h_2 => exact hbody

end Frame

/-! ## Chains that always return

A chain that accepts nothing and calls only chains of lower rank ends with the
next rule of its caller, as long as the levels of calls exceed its rank. -/

section Rank

variable [DecidableEq SetName] [DecidableEq Key] {packet : Packet}
  {ruleset : Ruleset Packet Chain SetName Key} {rank : Chain → ℕ}

/-- The expression is not a final verdict and calls only chains below the rank. -/
def Expr.Returns (rank : Chain → ℕ) (bound : ℕ) : Expr Packet Chain SetName Key → Prop
  | .vmap _ _ entries => ∀ entry ∈ entries, rank entry.2 < bound
  | .numgen _ entries => ∀ entry ∈ entries, rank entry.2.2 < bound
  | .jump chain => rank chain < bound
  | .accept => False
  | _ => True

/-- A rule of such expressions goes on or returns. -/
theorem evalRule_returns (packet : Packet) {bound : ℕ}
    {call : Chain → State SetName Key → State SetName Key × Verdict}
    (hcall : ∀ chain, rank chain < bound → ∀ s, (call chain s).2 = .next)
    {rule : List (Expr Packet Chain SetName Key)} (hrule : ∀ e ∈ rule, e.Returns rank bound)
    (s : State SetName Key) :
    (evalRule call packet rule s).2 = .next ∨ (evalRule call packet rule s).2 = .ret := by
  induction rule generalizing s with
  | nil => exact .inl rfl
  | cons e rest ih =>
    have he := hrule e (by simp)
    have hrest := ih (fun e' he' => hrule e' (by simp [he']))
    cases e with
    | test holds =>
      rw [evalRule]
      split
      · exact hrest s
      · exact .inl rfl
    | testMark register mask value equal =>
      rw [evalRule]
      split
      · exact hrest s
      · exact .inl rfl
    | lookup key set =>
      rw [evalRule]
      split
      · split
        · exact hrest s
        · exact .inl rfl
      · exact .inl rfl
    | setMark register keep value => exact hrest _
    | update key set =>
      rw [evalRule]
      split
      · exact hrest _
      · exact .inl rfl
    | log => exact hrest s
    | vmap register mask entries =>
      rw [evalRule]
      split
      case h_1 chain hlookup =>
        obtain ⟨first, second, hentries, -⟩ := List.lookup_eq_some_iff.mp hlookup
        exact .inl (hcall chain (he (s.mark register &&& mask, chain)
          (by simp [hentries])) s)
      case h_2 => exact .inl rfl
    | numgen modulus entries =>
      rw [evalRule]
      split
      case h_1 entry hfind =>
        exact .inl (hcall entry.2.2 (he entry (List.mem_of_find?_eq_some hfind)) _)
      case h_2 => exact .inl rfl
    | jump chain => exact .inl (hcall chain he s)
    | ret => exact .inr rfl
    | accept => exact he.elim

/-- So do rules in order. -/
theorem evalRules_returns (packet : Packet) {bound : ℕ}
    {call : Chain → State SetName Key → State SetName Key × Verdict}
    (hcall : ∀ chain, rank chain < bound → ∀ s, (call chain s).2 = .next)
    {rules : List (List (Expr Packet Chain SetName Key))}
    (hrules : Everywhere (·.Returns rank bound) rules) (s : State SetName Key) :
    (evalRules call packet rules s).2 = .next ∨ (evalRules call packet rules s).2 = .ret := by
  induction rules generalizing s with
  | nil => exact .inl rfl
  | cons rule rules ih =>
    have hfirst := evalRule_returns packet hcall (hrules rule (by simp)) s
    rw [evalRules]
    split
    case h_1 s' hresult => exact ih (fun rule' h => hrules rule' (by simp [h])) s'
    case h_2 => exact hfirst

/-- When this is so of the chains below a rank, each of them ends with the next
rule of its caller, given more levels of calls than its rank. -/
theorem evalChain_returns (top : ℕ)
    (hrank : ∀ chain, rank chain < top → Everywhere (·.Returns rank (rank chain)) (ruleset chain))
    {depth : ℕ} {chain : Chain} (htop : rank chain < top) (hdepth : rank chain < depth)
    (s : State SetName Key) : (evalChain ruleset packet depth chain s).2 = .next := by
  induction depth generalizing chain s with
  | zero => omega
  | succ depth ih =>
    have hcall : ∀ callee, rank callee < rank chain → ∀ t,
        (evalChain ruleset packet depth callee t).2 = .next :=
      fun callee hlt t => ih (by omega) (by omega) t
    have hbody := evalRules_returns packet hcall (hrank chain htop) s
    rcases hresult : evalRules (evalChain ruleset packet depth) packet (ruleset chain) s
      with ⟨s', verdict⟩
    rw [hresult] at hbody
    rw [evalChain, hresult]
    cases verdict <;> simp_all

end Rank

end OpenWrt.Netfilter
