/-
# The port isolation matrix of the rtl83xx switches

Each user port has a mask of the ports it may forward to. The ports of a bridge are in
each other's masks, two isolated ones aside; the mask is given to the hardware while the
port is enabled. A port with neither a PHY nor a PCS starts with an empty mask, and gets
the bit of the CPU port when it first joins a bridge.
-/

import OpenWrt.Rtl83xx.PortMask

namespace OpenWrt.Rtl83xx

/-! ## Ports -/

/-- What does not change: the number of the CPU port, which ports the users have, and which
of them the device tree gives a PHY or a PCS. -/
structure Board where
  cpuPort : ℕ
  isUser : ℕ → Bool
  phy : ℕ → Bool
  hasPcs : ℕ → Bool
  cpuPort_lt : cpuPort < 64

def Board.Wired (board : Board) (port : ℕ) : Prop := board.phy port ∨ board.hasPcs port

instance (board : Board) (port : ℕ) : Decidable (board.Wired port) :=
  inferInstanceAs (Decidable (_ ∨ _))

def Board.userPorts (board : Board) : List ℕ := (List.range board.cpuPort).filter board.isUser

/-- The parts of `struct rtldsa_port` and `struct dsa_port` on forwarding, and the mask that
was last given to `traffic_set`. -/
structure Port where
  enable : Bool
  isolated : Bool
  cachedFlags : U64
  pm : U64
  bridge : Option ℕ
  traffic : Option U64
deriving DecidableEq

/-- `BR_ISOLATED` is this bit of the flags of a bridge port. -/
def brIsolated : ℕ := 16

/-- Give a port its mask when it is enabled. -/
def Port.trafficSet (p : Port) : Port :=
  if p.enable then { p with traffic := some p.pm } else p

/-! ## Operations -/

section Operations

variable (board : Board)

/-- A turn of the loop over the other user ports: the state of a peer, and the mask of the
port so far. -/
def updatePeer (port : ℕ) (bridgeDev : Option ℕ) (join : Bool) (acc : (ℕ → Port) × U64)
    (otherPort : ℕ) : (ℕ → Port) × U64 :=
  let (ports, portMask) := acc
  if otherPort = port then acc
  else if (ports otherPort).bridge ≠ bridgeDev then acc
  else
    let other := ports otherPort
    let isolated := (ports port).isolated && other.isolated
    if join && !isolated then
      (Function.update ports otherPort { other with pm := other.pm ||| bitUll port }.trafficSet,
        portMask ||| bitUll otherPort)
    else
      (Function.update ports otherPort { other with pm := other.pm &&& ~~~ bitUll port }.trafficSet,
        portMask)

/-- `rtldsa_update_port_member`. -/
def rtldsaUpdatePortMember (ports : ℕ → Port) (port : ℕ) (bridgeDev : Option ℕ) (join : Bool) :
    ℕ → Port :=
  let (ports, portMask) :=
    board.userPorts.foldl (updatePeer port bridgeDev join) (ports, bitUll board.cpuPort)
  Function.update ports port { ports port with pm := portMask }.trafficSet

/-- `rtldsa_port_bridge_join`. -/
def rtldsaPortBridgeJoin (ports : ℕ → Port) (port : ℕ) (bridgeDev : Option ℕ) : ℕ → Port :=
  let ports := Function.update ports port { ports port with isolated := false, cachedFlags := 0 }
  rtldsaUpdatePortMember board ports port bridgeDev true

/-- `rtldsa_port_bridge_leave`. -/
def rtldsaPortBridgeLeave (ports : ℕ → Port) (port : ℕ) (bridgeDev : Option ℕ) : ℕ → Port :=
  rtldsaUpdatePortMember board ports port bridgeDev false

/-- `rtldsa_port_bridge_flags`. -/
def rtldsaPortBridgeFlags (ports : ℕ → Port) (port : ℕ) (mask val : U64) : ℕ → Port :=
  let cachedFlags := (ports port).cachedFlags &&& ~~~ mask ||| val &&& mask
  let p := { ports port with cachedFlags := cachedFlags }
  if mask.getLsbD brIsolated then
    let p := { p with isolated := cachedFlags.getLsbD brIsolated }
    rtldsaUpdatePortMember board (Function.update ports port p) port p.bridge true
  else Function.update ports port p

/-- `rtldsa_port_enable`. -/
def rtldsaPortEnable (ports : ℕ → Port) (port : ℕ) : ℕ → Port :=
  let p := { ports port with enable := true }
  if port = board.cpuPort then Function.update ports port p
  else Function.update ports port { p with traffic := some p.pm }

/-- `rtldsa_port_disable`. -/
def rtldsaPortDisable (ports : ℕ → Port) (port : ℕ) : ℕ → Port :=
  if port ∈ board.userPorts then
    Function.update ports port { ports port with traffic := some 0, enable := false }
  else ports

/-- The ports after `setup`, in no bridge and disabled but for the CPU port. -/
def setup (port : ℕ) : Port where
  enable := port == board.cpuPort
  isolated := false
  cachedFlags := 0
  pm := if port < board.cpuPort ∧ board.Wired port then bitUll board.cpuPort else 0
  bridge := none
  traffic := if port = board.cpuPort ∨ port < board.cpuPort ∧ board.Wired port then
      some (bitUll port)
    else none

/-- What the DSA core does. It sets the bridge of a port before it has it join, and clears it
before it has it leave. -/
inductive PortEvent where
  | join (port bridge : ℕ)
  | leave (port : ℕ)
  | flags (port : ℕ) (mask val : U64)
  | enable (port : ℕ)
  | disable (port : ℕ)
deriving DecidableEq

/-- One event, where it can happen: a port joins from no bridge, and only members leave or
have the flags of a bridge port. -/
def PortEvent.apply (ports : ℕ → Port) : PortEvent → Option (ℕ → Port)
  | .join port bridge =>
    if port ∈ board.userPorts ∧ (ports port).bridge = none then
      let ports := Function.update ports port { ports port with bridge := some bridge }
      some (rtldsaPortBridgeJoin board ports port (some bridge))
    else none
  | .leave port =>
    match (ports port).bridge with
    | some bridge =>
      let ports := Function.update ports port { ports port with bridge := none }
      some (rtldsaPortBridgeLeave board ports port (some bridge))
    | none => none
  | .flags port mask val =>
    if (ports port).bridge.isSome then some (rtldsaPortBridgeFlags board ports port mask val)
    else none
  | .enable port => some (rtldsaPortEnable board ports port)
  | .disable port => some (rtldsaPortDisable board ports port)

def portRun (events : List PortEvent) : Option (ℕ → Port) :=
  events.foldlM (PortEvent.apply board) (setup board)

end Operations

/-! ## The loop over the peers -/

section Peers

variable {board : Board} {port : ℕ} {bridgeDev : Option ℕ} {join : Bool}

@[simp]
theorem Port.trafficSet_enable (p : Port) : p.trafficSet.enable = p.enable := by
  unfold trafficSet
  split <;> rfl

@[simp]
theorem Port.trafficSet_isolated (p : Port) : p.trafficSet.isolated = p.isolated := by
  unfold trafficSet
  split <;> rfl

@[simp]
theorem Port.trafficSet_pm (p : Port) : p.trafficSet.pm = p.pm := by
  unfold trafficSet
  split <;> rfl

@[simp]
theorem Port.trafficSet_bridge (p : Port) : p.trafficSet.bridge = p.bridge := by
  unfold trafficSet
  split <;> rfl

/-- The hardware has the mask of a port that is enabled. -/
def Port.Current (p : Port) : Prop := p.enable → p.traffic = some p.pm

theorem Port.current_trafficSet (p : Port) : p.trafficSet.Current := by
  intro henable
  rw [trafficSet_enable] at henable
  unfold trafficSet
  rw [if_pos henable]

def Open (ports : ℕ → Port) (p q : ℕ) : Bool := !((ports p).isolated && (ports q).isolated)

def peerOf (ports : ℕ → Port) (port : ℕ) (join : Bool) (q : ℕ) : Port :=
  { ports q with
    pm := if join && Open ports port q then (ports q).pm ||| bitUll port
      else (ports q).pm &&& ~~~ bitUll port }.trafficSet

variable {ports : ℕ → Port}

theorem getLsbD_peerOf {q i : ℕ} (hport : port < 64) :
    (peerOf ports port join q).pm.getLsbD i =
      if i = port then join && Open ports port q else (ports q).pm.getLsbD i := by
  unfold peerOf
  rw [Port.trafficSet_pm]
  dsimp only
  by_cases hset : (join && Open ports port q) = true
  · rw [if_pos hset, hset, getLsbD_insert hport]
    by_cases hi : i = port <;> simp [hi]
  · rw [if_neg hset, Bool.eq_false_iff.mpr hset, getLsbD_erase hport]
    by_cases hi : i = port <;> simp [hi]

theorem updatePeer_self (acc : (ℕ → Port) × U64) :
    updatePeer port bridgeDev join acc port = acc := by
  simp [updatePeer]

theorem updatePeer_of_ne {portMask : U64} {q : ℕ} (hq : q ≠ port)
    (hbridge : (ports q).bridge = bridgeDev) :
    updatePeer port bridgeDev join (ports, portMask) q =
      (Function.update ports q (peerOf ports port join q),
        if join && Open ports port q then portMask ||| bitUll q else portMask) := by
  unfold updatePeer peerOf Open
  simp only [hq, hbridge, if_false, ne_eq, not_true_eq_false]
  split <;> rfl

theorem updatePeer_of_elsewhere {portMask : U64} {q : ℕ} (hbridge : (ports q).bridge ≠ bridgeDev) :
    updatePeer port bridgeDev join (ports, portMask) q = (ports, portMask) := by
  unfold updatePeer
  simp [hbridge]

theorem open_update {p q r : ℕ} {other : Port} (hp : p ≠ q) (hr : r ≠ q) :
    Open (Function.update ports q other) p r = Open ports p r := by
  unfold Open
  rw [Function.update_of_ne hp, Function.update_of_ne hr]

/-- The loop treats every peer once, and collects those that the port may forward to. -/
theorem foldl_updatePeer {users : List ℕ} (hnodup : users.Nodup) (hsmall : ∀ q ∈ users, q < 64)
    (ports : ℕ → Port) (portMask : U64) :
    (∀ q, (users.foldl (updatePeer port bridgeDev join) (ports, portMask)).1 q =
        if q ∈ users ∧ q ≠ port ∧ (ports q).bridge = bridgeDev then peerOf ports port join q
        else ports q) ∧
      ∀ i, (users.foldl (updatePeer port bridgeDev join) (ports, portMask)).2.getLsbD i ↔
        portMask.getLsbD i ∨ i ∈ users ∧ i ≠ port ∧ (ports i).bridge = bridgeDev ∧
          join ∧ Open ports port i := by
  induction users generalizing ports portMask with
  | nil => simp
  | cons q users ih =>
    obtain ⟨hq, hnodup⟩ := List.nodup_cons.mp hnodup
    have hsmall' : ∀ r ∈ users, r < 64 := fun r hr => hsmall r (List.mem_cons_of_mem q hr)
    rw [List.foldl_cons]
    by_cases hself : q = port
    · subst hself
      rw [updatePeer_self]
      obtain ⟨hports, hmask⟩ := ih hnodup hsmall' ports portMask
      refine ⟨fun r => ?_, fun i => ?_⟩
      · rw [hports]
        congr 1
        simp only [List.mem_cons, eq_iff_iff]
        tauto
      · rw [hmask]
        simp only [List.mem_cons]
        tauto
    · by_cases hbridge : (ports q).bridge = bridgeDev
      · rw [updatePeer_of_ne hself hbridge]
        obtain ⟨hports, hmask⟩ := ih hnodup hsmall'
          (Function.update ports q (peerOf ports port join q))
          (if join && Open ports port q then portMask ||| bitUll q else portMask)
        refine ⟨fun r => ?_, fun i => ?_⟩
        · rw [hports]
          by_cases hr : r = q
          · subst hr
            simp [hq, hself, hbridge]
          · unfold peerOf
            rw [open_update (Ne.symm hself) hr, Function.update_of_ne hr]
            simp [hr]
        · rw [hmask]
          have hlt : q < 64 := hsmall q List.mem_cons_self
          by_cases hi : i = q
          · subst hi
            by_cases hset : (join && Open ports port i) = true
            · rw [if_pos hset, getLsbD_insert hlt]
              rw [Bool.and_eq_true] at hset
              simp [hself, hbridge, hset]
            · rw [if_neg hset]
              rw [Bool.and_eq_true] at hset
              simp [hq, hset]
          · rw [open_update (Ne.symm hself) hi, Function.update_of_ne hi]
            have hkeep : (if join && Open ports port q then portMask ||| bitUll q
                else portMask).getLsbD i = portMask.getLsbD i := by
              split
              · rw [getLsbD_insert hlt]
                simp [hi]
              · rfl
            rw [hkeep]
            simp [hi]
      · rw [updatePeer_of_elsewhere hbridge]
        obtain ⟨hports, hmask⟩ := ih hnodup hsmall' ports portMask
        refine ⟨fun r => ?_, fun i => ?_⟩
        · rw [hports]
          by_cases hr : r = q
          · subst hr
            simp [hq, hbridge]
          · simp [hr]
        · rw [hmask]
          by_cases hi : i = q
          · subst hi
            simp [hq, hbridge]
          · simp [hi]

theorem Board.mem_userPorts {q : ℕ} (hq : q ∈ board.userPorts) : q < board.cpuPort ∧ q < 64 := by
  have hlt : q < board.cpuPort := List.mem_range.mp (List.mem_filter.mp hq).1
  exact ⟨hlt, Nat.lt_trans hlt board.cpuPort_lt⟩

/-- What an update of a port does to the ports. -/
structure MemberUpdate (board : Board) (ports : ℕ → Port) (port : ℕ) (bridgeDev : Option ℕ)
    (join : Bool) (next : ℕ → Port) : Prop where
  enable : ∀ q, (next q).enable = (ports q).enable
  isolated : ∀ q, (next q).isolated = (ports q).isolated
  bridge : ∀ q, (next q).bridge = (ports q).bridge
  peer : ∀ q, q ≠ port → ∀ i, (next q).pm.getLsbD i =
    if q ∈ board.userPorts ∧ (ports q).bridge = bridgeDev ∧ i = port then
      join && Open ports port q
    else (ports q).pm.getLsbD i
  own : ∀ i, (next port).pm.getLsbD i ↔ i = board.cpuPort ∨ i ∈ board.userPorts ∧ i ≠ port ∧
    (ports i).bridge = bridgeDev ∧ join ∧ Open ports port i
  current : ∀ q, (q ≠ port → (ports q).Current) → (next q).Current

/-- The spec of `rtldsa_update_port_member`. -/
theorem memberUpdate (ports : ℕ → Port) (hport : port < 64) :
    MemberUpdate board ports port bridgeDev join
      (rtldsaUpdatePortMember board ports port bridgeDev join) := by
  have hnodup : board.userPorts.Nodup := List.nodup_range.filter _
  obtain ⟨hports, hmask⟩ := @foldl_updatePeer port bridgeDev join _ hnodup
    (fun q hq => (Board.mem_userPorts hq).2) ports (bitUll board.cpuPort)
  unfold rtldsaUpdatePortMember
  generalize board.userPorts.foldl (updatePeer port bridgeDev join)
    (ports, bitUll board.cpuPort) = result at hports hmask ⊢
  obtain ⟨peers, portMask⟩ := result
  dsimp only at hports hmask ⊢
  have hself : peers port = ports port := by
    rw [hports]
    simp
  have hother : ∀ q, q ≠ port → (Function.update peers port
      { peers port with pm := portMask }.trafficSet) q =
        if q ∈ board.userPorts ∧ (ports q).bridge = bridgeDev then peerOf ports port join q
        else ports q := by
    intro q hq
    rw [Function.update_of_ne hq, hports]
    simp [hq]
  refine ⟨fun q => ?_, fun q => ?_, fun q => ?_, fun q hq i => ?_, fun i => ?_, fun q hq => ?_⟩
  · by_cases hq : q = port
    · subst hq
      simp [hself]
    · rw [hother q hq]
      split <;> simp [peerOf]
  · by_cases hq : q = port
    · subst hq
      simp [hself]
    · rw [hother q hq]
      split <;> simp [peerOf]
  · by_cases hq : q = port
    · subst hq
      simp [hself]
    · rw [hother q hq]
      split <;> simp [peerOf]
  · rw [hother q hq]
    by_cases hpeer : q ∈ board.userPorts ∧ (ports q).bridge = bridgeDev
    · rw [if_pos hpeer, getLsbD_peerOf hport]
      simp only [hpeer, true_and]
    · rw [if_neg hpeer, if_neg fun h => hpeer ⟨h.1, h.2.1⟩]
  · rw [Function.update_self, Port.trafficSet_pm]
    dsimp only
    rw [hmask, getLsbD_bitUll board.cpuPort_lt]
    simp
  · by_cases hself' : q = port
    · subst hself'
      rw [Function.update_self]
      exact Port.current_trafficSet _
    · rw [hother q hself']
      split
      · exact Port.current_trafficSet _
      · exact hq hself'

end Peers

/-! ## The matrix -/

section Matrix

variable {board : Board}

/-- Two ports may forward to each other. -/
def Connected (ports : ℕ → Port) (p q : ℕ) : Prop :=
  p ≠ q ∧ (∃ bridge, (ports p).bridge = some bridge ∧ (ports q).bridge = some bridge) ∧
    Open ports p q

/-- The masks say which ports may forward to each other, and the hardware has those of the
enabled ports. The ports of `joined` have been in a bridge. -/
structure Matrix (board : Board) (joined : ℕ → Prop) (ports : ℕ → Port) : Prop where
  member : ∀ p, (ports p).bridge ≠ none → p ∈ board.userPorts ∧ joined p
  peer : ∀ p ∈ board.userPorts, ∀ q ∈ board.userPorts,
    (ports p).pm.getLsbD q ↔ Connected ports p q
  cpu : ∀ p ∈ board.userPorts, (ports p).pm.getLsbD board.cpuPort ↔ board.Wired p ∨ joined p
  only : ∀ p ∈ board.userPorts, ∀ i, (ports p).pm.getLsbD i →
    i = board.cpuPort ∨ i ∈ board.userPorts
  current : ∀ p ∈ board.userPorts, (ports p).Current

theorem matrix_setup : Matrix board (fun _ => False) (setup board) := by
  have hpm : ∀ p ∈ board.userPorts, (setup board p).pm =
      if board.Wired p then bitUll board.cpuPort else 0 := by
    intro p hp
    simp [setup, (Board.mem_userPorts hp).1]
  refine ⟨fun p h => absurd rfl h, fun p hp q hq => ?_, fun p hp => ?_, fun p hp i hi => ?_,
    fun p hp henable => ?_⟩
  · have hne : q ≠ board.cpuPort := Nat.ne_of_lt (Board.mem_userPorts hq).1
    rw [hpm p hp]
    constructor
    · intro h
      split at h
      · rw [getLsbD_bitUll board.cpuPort_lt] at h
        exact absurd (of_decide_eq_true h) hne
      · simp at h
    · rintro ⟨-, ⟨bridge, hbridge, -⟩, -⟩
      cases hbridge
  · rw [hpm p hp]
    split
    case isTrue h =>
      rw [getLsbD_bitUll board.cpuPort_lt]
      simp [h]
    case isFalse h => simp [h]
  · rw [hpm p hp] at hi
    split at hi
    · rw [getLsbD_bitUll board.cpuPort_lt] at hi
      exact .inl (of_decide_eq_true hi)
    · simp at hi
  · have hne : p ≠ board.cpuPort := Nat.ne_of_lt (Board.mem_userPorts hp).1
    have : p = board.cpuPort := by simpa [setup] using henable
    exact absurd this hne

theorem open_comm (ports : ℕ → Port) (p q : ℕ) : Open ports p q = Open ports q p := by
  unfold Open
  rw [Bool.and_comm]

theorem connected_congr {ports next : ℕ → Port} {p q : ℕ}
    (hbridge : ∀ r, r = p ∨ r = q → (next r).bridge = (ports r).bridge)
    (hisolated : ∀ r, r = p ∨ r = q → (next r).isolated = (ports r).isolated) :
    Connected next p q ↔ Connected ports p q := by
  unfold Connected Open
  rw [hbridge p (.inl rfl), hbridge q (.inr rfl), hisolated p (.inl rfl), hisolated q (.inr rfl)]

variable {ports : ℕ → Port} {joined : ℕ → Prop}

theorem connected_comm {p q : ℕ} : Connected ports p q ↔ Connected ports q p := by
  unfold Connected
  rw [open_comm]
  constructor <;> rintro ⟨hne, ⟨bridge, hp, hq⟩, hopen⟩ <;>
    exact ⟨hne.symm, ⟨bridge, hq, hp⟩, hopen⟩

/-- How an update of a port fits its bridge: it enters a bridge or stays in it, or it has
left it. -/
def Fits (before after bridgeDev : Option ℕ) (join : Bool) : Prop :=
  bridgeDev.isSome ∧
    if join then after = bridgeDev ∧ (before = none ∨ before = bridgeDev)
    else after = none ∧ before = bridgeDev

theorem Matrix.update {ports base : ℕ → Port} {p : ℕ} {bridgeDev : Option ℕ} {join : Bool}
    (h : Matrix board joined ports) (hp : p ∈ board.userPorts)
    (hbase : ∀ q, q ≠ p → base q = ports q)
    (hfits : Fits (ports p).bridge (base p).bridge bridgeDev join) :
    Matrix board (fun q => joined q ∨ q = p)
      (rtldsaUpdatePortMember board base p bridgeDev join) := by
  have hupdate := @memberUpdate board p bridgeDev join base (Board.mem_userPorts hp).2
  generalize rtldsaUpdatePortMember board base p bridgeDev join = next at hupdate
  have hconnected : ∀ x y, Connected next x y ↔ Connected base x y := fun x y =>
    connected_congr (fun r _ => hupdate.bridge r) fun r _ => hupdate.isolated r
  -- the peers in the bridge, and no others, are or were connected to the port
  have hpeer : ∀ x, x ≠ p → (Connected base p x ↔
      (base x).bridge = bridgeDev ∧ join = true ∧ Open base p x = true) := by
    intro x hx
    obtain ⟨hsome, hfits⟩ := hfits
    obtain ⟨bridge, rfl⟩ := Option.isSome_iff_exists.mp hsome
    cases join with
    | true =>
      rw [if_pos rfl] at hfits
      constructor
      · rintro ⟨-, ⟨b, hb, hxb⟩, hopen⟩
        exact ⟨hxb.trans (hb.symm.trans hfits.1), rfl, hopen⟩
      · rintro ⟨hxb, -, hopen⟩
        exact ⟨hx.symm, ⟨bridge, hfits.1, hxb⟩, hopen⟩
    | false =>
      rw [if_neg Bool.false_ne_true] at hfits
      constructor
      · rintro ⟨-, ⟨b, hb, -⟩, -⟩
        rw [hfits.1] at hb
        cases hb
      · rintro ⟨-, h, -⟩
        cases h
  have hold : ∀ x, x ≠ p → (base x).bridge ≠ bridgeDev → ¬ Connected ports x p := by
    rintro x hx hbridge ⟨-, ⟨b, hxb, hpb⟩, -⟩
    rw [hbase x hx] at hbridge
    have hbefore : (ports p).bridge = bridgeDev := by
      obtain ⟨-, hfits⟩ := hfits
      split at hfits
      · refine hfits.2.resolve_left fun hnone => ?_
        rw [hnone] at hpb
        cases hpb
      · exact hfits.2
    exact hbridge (hxb.trans (hpb.symm.trans hbefore))
  have hkept : ∀ x, x ≠ p → ∀ y, y ≠ p → (Connected base x y ↔ Connected ports x y) := by
    intro x hx y hy
    apply connected_congr <;> rintro r (rfl | rfl)
    · rw [hbase _ hx]
    · rw [hbase _ hy]
    · rw [hbase _ hx]
    · rw [hbase _ hy]
  refine ⟨fun x hx => ?_, fun x hx y hy => ?_, fun x hx => ?_, fun x hx i hi => ?_,
    fun x hx => ?_⟩
  · rw [hupdate.bridge] at hx
    by_cases hxp : x = p
    · exact ⟨hxp ▸ hp, .inr hxp⟩
    · rw [hbase x hxp] at hx
      exact ⟨(h.member x hx).1, .inl (h.member x hx).2⟩
  · rw [hconnected]
    by_cases hxp : x = p
    · subst hxp
      have hne : y ≠ board.cpuPort := Nat.ne_of_lt (Board.mem_userPorts hy).1
      rw [hupdate.own]
      by_cases hyx : y = x
      · subst hyx
        simp [Connected, hne]
      · rw [hpeer y hyx]
        simp [hne, hy, hyx]
    · rw [hupdate.peer x hxp]
      by_cases hyp : y = p
      · subst hyp
        by_cases hbridge : (base x).bridge = bridgeDev
        · rw [if_pos ⟨hx, hbridge, rfl⟩, Bool.and_eq_true, connected_comm, hpeer x hxp]
          simp [hbridge]
        · rw [if_neg fun hin => hbridge hin.2.1, connected_comm, hpeer x hxp, hbase x hxp,
            h.peer x hx y hy]
          rw [hbase x hxp] at hbridge
          simp [hbridge, hold x hxp (hbase x hxp ▸ hbridge)]
      · rw [if_neg fun hin => hyp hin.2.2, hbase x hxp, hkept x hxp y hyp]
        exact h.peer x hx y hy
  · have hne : board.cpuPort ≠ p := (Nat.ne_of_lt (Board.mem_userPorts hp).1).symm
    by_cases hxp : x = p
    · subst hxp
      rw [hupdate.own]
      simp
    · rw [hupdate.peer x hxp, if_neg fun hin => hne hin.2.2, hbase x hxp, h.cpu x hx]
      simp [hxp]
  · by_cases hxp : x = p
    · subst hxp
      rw [hupdate.own] at hi
      exact hi.imp id fun hin => hin.1
    · rw [hupdate.peer x hxp, hbase x hxp] at hi
      split at hi
      case isTrue hin => exact .inr (hin.2.2 ▸ hp)
      case isFalse => exact h.only x hx i hi
  · apply hupdate.current
    intro hxp
    rw [hbase x hxp]
    exact h.current x hx

/-- A change of one port that leaves its bridge, its isolation and its mask. -/
theorem Matrix.touch {p : ℕ} {port : Port} (h : Matrix board joined ports)
    (hbridge : port.bridge = (ports p).bridge) (hisolated : port.isolated = (ports p).isolated)
    (hpm : port.pm = (ports p).pm) (hcurrent : p ∈ board.userPorts → port.Current) :
    Matrix board joined (Function.update ports p port) := by
  have hbridge' : ∀ q, (Function.update ports p port q).bridge = (ports q).bridge := by
    intro q
    by_cases hq : q = p
    · rw [hq, Function.update_self, hbridge]
    · rw [Function.update_of_ne hq]
  have hisolated' : ∀ q, (Function.update ports p port q).isolated = (ports q).isolated := by
    intro q
    by_cases hq : q = p
    · rw [hq, Function.update_self, hisolated]
    · rw [Function.update_of_ne hq]
  have hpm' : ∀ q, (Function.update ports p port q).pm = (ports q).pm := by
    intro q
    by_cases hq : q = p
    · rw [hq, Function.update_self, hpm]
    · rw [Function.update_of_ne hq]
  refine ⟨fun x hx => h.member x (hbridge' x ▸ hx), fun x hx y hy => ?_, fun x hx => ?_,
    fun x hx i hi => h.only x hx i (hpm' x ▸ hi), fun x hx => ?_⟩
  · rw [hpm', h.peer x hx y hy]
    exact (connected_congr (fun r _ => hbridge' r) fun r _ => hisolated' r).symm
  · rw [hpm']
    exact h.cpu x hx
  · by_cases hxp : x = p
    · subst hxp
      rw [Function.update_self]
      exact hcurrent hx
    · rw [Function.update_of_ne hxp]
      exact h.current x hx

def PortEvent.Joins : PortEvent → ℕ → Prop
  | .join port _, p => p = port
  | _, _ => False

theorem Matrix.congr {joined joined' : ℕ → Prop} (h : Matrix board joined ports)
    (hjoined : ∀ p, joined p ↔ joined' p) : Matrix board joined' ports := by
  have : joined = joined' := funext fun p => propext (hjoined p)
  exact this ▸ h

theorem Matrix.rejoin {p : ℕ} (hp : joined p) (h : Matrix board (fun q => joined q ∨ q = p) ports) :
    Matrix board joined ports :=
  h.congr fun _ => ⟨fun hq => hq.elim id fun hqp => hqp ▸ hp, .inl⟩

theorem Matrix.apply {ports next : ℕ → Port} {event : PortEvent} (h : Matrix board joined ports)
    (hevent : event.apply board ports = some next) :
    Matrix board (fun p => joined p ∨ event.Joins p) next := by
  have hsame : ∀ {next}, Matrix board joined next → (∀ p, ¬ event.Joins p) →
      Matrix board (fun p => joined p ∨ event.Joins p) next := fun hnext hnone =>
    hnext.congr fun p => ⟨.inl, fun hp => hp.resolve_right (hnone p)⟩
  cases event with
  | join port bridge =>
    simp only [PortEvent.apply] at hevent
    split at hevent
    case isFalse => cases hevent
    case isTrue hcan =>
      cases hevent
      apply h.update hcan.1
      · intro q hq
        rw [Function.update_of_ne hq, Function.update_of_ne hq]
      · exact ⟨rfl, by simp [hcan.2]⟩
  | leave port =>
    simp only [PortEvent.apply] at hevent
    split at hevent
    case h_2 => cases hevent
    case h_1 bridge hbridge =>
      cases hevent
      obtain ⟨hport, hjoined⟩ := h.member port (by simp [hbridge])
      apply hsame _ fun p hp => hp
      apply Matrix.rejoin hjoined
      apply h.update hport
      · intro q hq
        rw [Function.update_of_ne hq]
      · exact ⟨rfl, by simp [hbridge]⟩
  | flags port mask val =>
    simp only [PortEvent.apply] at hevent
    split at hevent
    case isFalse => cases hevent
    case isTrue hsome =>
      cases hevent
      obtain ⟨bridge, hbridge⟩ := Option.isSome_iff_exists.mp hsome
      obtain ⟨hport, hjoined⟩ := h.member port (by simp [hbridge])
      apply hsame _ fun p hp => hp
      unfold rtldsaPortBridgeFlags
      dsimp only
      split
      case isTrue =>
        apply Matrix.rejoin hjoined
        apply h.update hport
        · intro q hq
          rw [Function.update_of_ne hq]
        · exact ⟨hsome, by simp⟩
      case isFalse => exact h.touch rfl rfl rfl fun _ => h.current port hport
  | enable port =>
    simp only [PortEvent.apply] at hevent
    cases hevent
    apply hsame _ fun p hp => hp
    unfold rtldsaPortEnable
    dsimp only
    split
    case isTrue hcpu =>
      refine h.touch rfl rfl rfl fun hport => ?_
      exact absurd hcpu (Nat.ne_of_lt (Board.mem_userPorts hport).1)
    case isFalse => exact h.touch rfl rfl rfl fun _ _ => rfl
  | disable port =>
    simp only [PortEvent.apply] at hevent
    cases hevent
    apply hsame _ fun p hp => hp
    unfold rtldsaPortDisable
    split
    case isTrue => exact h.touch rfl rfl rfl fun _ henable => nomatch henable
    case isFalse => exact h

def Joined (events : List PortEvent) (p : ℕ) : Prop := ∃ event ∈ events, event.Joins p

theorem matrix_of_portRun {events : List PortEvent} (h : portRun board events = some ports) :
    Matrix board (Joined events) ports := by
  have hrun : ∀ (events : List PortEvent) (joined : ℕ → Prop) (start : ℕ → Port),
      Matrix board joined start → events.foldlM (PortEvent.apply board) start = some ports →
        Matrix board (fun p => joined p ∨ Joined events p) ports := by
    intro events
    induction events with
    | nil =>
      intro joined start hstart hrun
      cases hrun
      exact hstart.congr fun p => ⟨.inl, fun hp => hp.resolve_right (by simp [Joined])⟩
    | cons event events ih =>
      intro joined start hstart hrun
      rw [List.foldlM_cons] at hrun
      obtain ⟨next, hnext, hrest⟩ := Option.bind_eq_some_iff.mp hrun
      apply (ih _ next (hstart.apply hnext) hrest).congr
      intro p
      simp only [Joined, List.mem_cons, exists_eq_or_imp]
      tauto
  apply (hrun events _ _ matrix_setup h).congr
  simp

/-- After every run of events the masks are symmetric, and the mask last given to the
hardware for an enabled user port holds the user ports it may forward to, and the CPU port
if the port has a PHY or a PCS or has joined a bridge. -/
theorem traffic_of_portRun {events : List PortEvent} {ports : ℕ → Port}
    (h : portRun board events = some ports) :
    (∀ p ∈ board.userPorts, ∀ q ∈ board.userPorts,
      ((ports p).pm.getLsbD q ↔ (ports q).pm.getLsbD p)) ∧
    ∀ p ∈ board.userPorts, (ports p).enable → ∃ mask, (ports p).traffic = some mask ∧
      ∀ i, mask.getLsbD i ↔ (i = board.cpuPort ∧ (board.Wired p ∨ Joined events p)) ∨
        (i ∈ board.userPorts ∧ Connected ports p i) := by
  have hmatrix := matrix_of_portRun h
  refine ⟨fun p hp q hq => ?_, fun p hp henable => ⟨_, hmatrix.current p hp henable, fun i => ?_⟩⟩
  · rw [hmatrix.peer p hp q hq, hmatrix.peer q hq p hp]
    exact connected_comm
  · constructor
    · intro hi
      rcases hmatrix.only p hp i hi with rfl | huser
      · exact .inl ⟨rfl, (hmatrix.cpu p hp).mp hi⟩
      · exact .inr ⟨huser, (hmatrix.peer p hp i huser).mp hi⟩
    · rintro (⟨rfl, hreach⟩ | ⟨huser, hconnected⟩)
      · exact (hmatrix.cpu p hp).mpr hreach
      · exact (hmatrix.peer p hp i huser).mpr hconnected

/-- The masks do not depend on the way to a state: two runs after which the ports are in the same
bridges and isolated alike, and in which the same ports have joined a bridge, give the ports the
same masks. -/
theorem pm_unique {events events' : List PortEvent} {ports ports' : ℕ → Port}
    (h : portRun board events = some ports) (h' : portRun board events' = some ports')
    (hsame : ∀ p ∈ board.userPorts,
      (ports p).bridge = (ports' p).bridge ∧ (ports p).isolated = (ports' p).isolated)
    (hjoined : ∀ p ∈ board.userPorts, (Joined events p ↔ Joined events' p)) :
    ∀ p ∈ board.userPorts, (ports p).pm = (ports' p).pm := by
  intro p hp
  have hm := matrix_of_portRun h
  have hm' := matrix_of_portRun h'
  apply BitVec.eq_of_getLsbD_eq
  intro i _
  rw [Bool.eq_iff_iff]
  by_cases hi : i = board.cpuPort ∨ i ∈ board.userPorts
  · rcases hi with rfl | hi
    · rw [hm.cpu p hp, hm'.cpu p hp, hjoined p hp]
    · rw [hm.peer p hp i hi, hm'.peer p hp i hi]
      have hpair : ∀ r, r = p ∨ r = i → r ∈ board.userPorts := by
        rintro r (rfl | rfl) <;> assumption
      exact connected_congr (fun r hr => (hsame r (hpair r hr)).1) fun r hr =>
        (hsame r (hpair r hr)).2
  · exact iff_of_false (fun h => hi (hm.only p hp i h)) fun h => hi (hm'.only p hp i h)

end Matrix

/-! ## A board with a port of each kind -/

section Example

/-- Four user ports, of which the last has neither a PHY nor a PCS. -/
def fourPorts : Board where
  cpuPort := 28
  isUser port := port < 4
  phy port := port < 2
  hasPcs port := port == 2
  cpuPort_lt := by decide

theorem traffic_fourPorts :
    ∃ ports, portRun fourPorts [.enable 0, .enable 1, .join 0 1, .join 1 1] = some ports ∧
      ∃ mask, (ports 0).traffic = some mask ∧
        ∀ i, mask.getLsbD i ↔ (i = 28 ∧ (fourPorts.Wired 0 ∨
          Joined [.enable 0, .enable 1, .join 0 1, .join 1 1] 0)) ∨
          (i ∈ fourPorts.userPorts ∧ Connected ports 0 i) := by
  obtain ⟨ports, hports⟩ := Option.isSome_iff_exists.mp
    (show (portRun fourPorts [.enable 0, .enable 1, .join 0 1, .join 1 1]).isSome by decide)
  have henable : (portRun fourPorts [.enable 0, .enable 1, .join 0 1, .join 1 1]).map
      (fun ports => (ports 0).enable) = some true := by decide
  rw [hports] at henable
  exact ⟨ports, hports, (traffic_of_portRun hports).2 0 (by decide) (Option.some.inj henable)⟩

/-- Two ports join a bridge in either order, one of them twice. -/
theorem pm_unique_fourPorts :
    ∃ ports ports', portRun fourPorts [.join 0 1, .leave 0, .join 1 1, .join 0 1] = some ports ∧
      portRun fourPorts [.join 0 1, .join 1 1] = some ports' ∧
        ∀ p ∈ fourPorts.userPorts, (ports p).pm = (ports' p).pm := by
  refine ⟨_, _, rfl, rfl, @pm_unique fourPorts [.join 0 1, .leave 0, .join 1 1, .join 0 1]
    [.join 0 1, .join 1 1] _ _ rfl rfl (by decide) fun p _ => ?_⟩
  simp [Joined, PortEvent.Joins]
  tauto

/-- The last port is enabled in no bridge. Its mask lacks the CPU port. -/
theorem no_cpuPort_of_unwired :
    ∃ ports, portRun fourPorts [.enable 3] = some ports ∧ 3 ∈ fourPorts.userPorts ∧
      (ports 3).enable ∧ ¬ ∃ mask, (ports 3).traffic = some mask ∧
        ∀ i, mask.getLsbD i ↔ i = fourPorts.cpuPort ∨
          (i ∈ fourPorts.userPorts ∧ Connected ports 3 i) := by
  refine ⟨rtldsaPortEnable fourPorts (setup fourPorts) 3, rfl, by decide, by decide, ?_⟩
  rintro ⟨mask, hmask, hbits⟩
  have hzero : (rtldsaPortEnable fourPorts (setup fourPorts) 3 3).traffic = some 0 := by decide
  cases hmask.symm.trans hzero
  have hcpu := (hbits fourPorts.cpuPort).mpr (.inl rfl)
  simp at hcpu

end Example

end OpenWrt.Rtl83xx
