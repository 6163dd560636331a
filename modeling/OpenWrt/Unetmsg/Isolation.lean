/-
# Which events of a network reach the entries of another

The tables of remote publications and subscriptions are shared by all networks and keyed
by the name of the host, while connections are kept for each network. This module says
which places of the tables an event may write, and proves that the entries of another
network survive a sequence of events exactly when none of these places holds one.
-/

import OpenWrt.Lib.Run
import OpenWrt.Unetmsg.Remote

namespace OpenWrt.Unetmsg

/-- What happens to the receiving side in one network. -/
inductive Event (Id Token : Type) where
  | accept (host : String) (serial : ℕ) (id : Id)
  | receive (host : String) (serial : ℕ) (request : Request Id Token)
  | disconnect (host : String) (serial : ℕ)
  | timeout (host : String) (serial : ℕ)
  | connectPeers
  | networkOpen (peers : String → Option Peer)
  | networkClose
  | networkUpdate (peers : String → Option Peer)

section Isolation

variable {Id Token : Type}

namespace State

/-- The connection may close, and is the one whose state the tables hold. -/
def Closes (network host : String) (serial : ℕ) (s : State Id) : Prop :=
  ∃ sock, s.sock ⟨network, host, serial⟩ = some sock ∧ sock.isOpen = true ∧
    s.isCurrent ⟨network, host, serial⟩ = true

/-! ## What the handlers leave of the tables -/

section Tables

variable {s : State Id} {A network : String} {kind : Kind} {name host : String} {c : Conn}

@[simp]
theorem remote_modifySock (f : Sock Id → Sock Id) : (s.modifySock c f).remote = s.remote :=
  rfl

@[simp]
theorem remote_networkSocketClose : (s.networkSocketClose c).remote = s.remote :=
  rfl

@[simp]
theorem remote_setRx (h : String) (serial : Option ℕ) :
    (s.setRx network h serial).remote = s.remote :=
  rfl

theorem remote_networkRxCleanupState (h : String) :
    (s.networkRxCleanupState h).remote kind name host = some A ↔
      s.remote kind name host = some A ∧ host ≠ h := by
  change (if host = h then none else s.remote kind name host) = some A ↔ _
  split <;> simp_all

theorem remote_networkRxSocketClose :
    (s.networkRxSocketClose c).remote kind name host = some A ↔
      s.remote kind name host = some A ∧ ¬ (c.host = host ∧ s.isCurrent c = true) := by
  unfold networkRxSocketClose
  rw [remote_networkSocketClose]
  split
  case isTrue hcurrent =>
    rw [remote_networkRxCleanupState, remote_setRx]
    simp [hcurrent, eq_comm]
  case isFalse hcurrent => simp [hcurrent]

theorem remote_networkRxCloseWhere (p : String → Bool) :
    (s.networkRxCloseWhere network p).remote kind name host = some A ↔
      s.remote kind name host = some A ∧
        ¬ (p host = true ∧ s.peers network ≠ none ∧ s.rx network host ≠ none) := by
  change (if _ then none else s.remote kind name host) = some A ↔ _
  simp only [Option.isSome_iff_ne_none]
  split <;> simp_all

/-- An effective update sets the one entry to its own network, or clears it. -/
theorem remote_networkSocketHandleRequest (wildcard : String → String → Bool) {sock : Sock Id}
    {k : Kind} {n : String} {enabled : Bool} (hne : A ≠ c.network) :
    (s.networkSocketHandleRequest wildcard c sock k n enabled).remote kind name host = some A ↔
      s.remote kind name host = some A ∧
        ¬ (c.host = host ∧ k = kind ∧ n = name ∧
          isEffective wildcard c sock k n enabled s = true) := by
  unfold networkSocketHandleRequest
  split
  case isTrue heffective =>
    change (if kind = k ∧ name = n ∧ host = c.host then
      (if enabled then some c.network else none) else s.remote kind name host) = some A ↔ _
    have hnetwork : (if enabled then some c.network else none) ≠ some A := by
      split
      · simpa using Ne.symm hne
      · simp
    split
    case isTrue hplace =>
      obtain ⟨rfl, rfl, rfl⟩ := hplace
      simp [hnetwork, heffective]
    case isFalse hplace =>
      have hother : ¬ (c.host = host ∧ k = kind ∧ n = name ∧
          isEffective wildcard c sock k n enabled s = true) := by
        rintro ⟨rfl, rfl, rfl, -⟩
        exact hplace ⟨rfl, rfl, rfl⟩
      simp [hother]
  case isFalse hnone => simp [hnone]

theorem remote_disconnect :
    (s.disconnect c).remote kind name host = some A ↔
      s.remote kind name host = some A ∧ ¬ (c.host = host ∧ s.Closes c.network c.host c.serial) := by
  unfold disconnect Closes
  cases s.sock c with
  | none => simp
  | some sock =>
    by_cases hopen : sock.isOpen = true
    · simp [hopen, remote_networkRxSocketClose]
    · simp [hopen]

theorem remote_timeout : (s.timeout c).remote = s.remote := by
  unfold timeout
  split
  · split <;> rfl
  · rfl

theorem remote_networkConnectPeers :
    (s.networkConnectPeers network).remote kind name host = some A ↔
      s.remote kind name host = some A ∧
        ¬ ∃ peers, s.peers network = some peers ∧ peers host = none ∧
          s.rx network host ≠ none := by
  unfold networkConnectPeers
  cases hpeers : s.peers network with
  | none => simp
  | some peers => simp [remote_networkRxCloseWhere, hpeers]

theorem remote_networkClose :
    (s.networkClose network).remote kind name host = some A ↔
      s.remote kind name host = some A ∧
        ¬ (s.peers network ≠ none ∧ s.rx network host ≠ none) := by
  unfold networkClose
  dsimp only
  rw [remote_networkRxCloseWhere]
  simp

theorem remote_networkUpdate (peers : String → Option Peer) :
    (s.networkUpdate network peers).remote kind name host = some A ↔
      s.remote kind name host = some A ∧
        ¬ ∃ old peer, s.peers network = some old ∧ old host = some peer ∧
          peer.allowed ≠ (peers host).bind (·.allowed) ∧ s.rx network host ≠ none := by
  unfold networkUpdate
  cases hpeers : s.peers network with
  | none => simp
  | some old =>
    dsimp only
    rw [remote_networkRxCloseWhere]
    cases hold : old host with
    | none => simp [hold]
    | some peer => simp [hold, hpeers]

end Tables

variable [DecidableEq Id] (unetd : Unetd Id Token) (wildcard : String → String → Bool)

def apply (network : String) (s : State Id) : Event Id Token → State Id
  | .accept host serial id => s.networkAccept ⟨network, host, serial⟩ id
  | .receive host serial request => s.receive unetd wildcard ⟨network, host, serial⟩ request
  | .disconnect host serial => s.disconnect ⟨network, host, serial⟩
  | .timeout host serial => s.timeout ⟨network, host, serial⟩
  | .connectPeers => s.networkConnectPeers network
  | .networkOpen peers => s.networkOpen network peers
  | .networkClose => s.networkClose network
  | .networkUpdate peers => s.networkUpdate network peers

/-- The place of an event in the tables: everything under a host whose connection is
authenticated or closed, or the one entry that an update sets. -/
def Writes (network : String) (s : State Id) (kind : Kind) (name host : String) :
    Event Id Token → Prop
  | .accept _ _ _ | .timeout _ _ | .networkOpen _ => False
  | .disconnect h serial => h = host ∧ s.Closes network h serial
  | .connectPeers =>
    ∃ peers, s.peers network = some peers ∧ peers host = none ∧ s.rx network host ≠ none
  | .networkClose => s.peers network ≠ none ∧ s.rx network host ≠ none
  | .networkUpdate peers =>
    ∃ old peer, s.peers network = some old ∧ old host = some peer ∧
      peer.allowed ≠ (peers host).bind (·.allowed) ∧ s.rx network host ≠ none
  | .receive h serial request =>
    h = host ∧ ∃ sock, s.sock ⟨network, h, serial⟩ = some sock ∧ sock.isOpen = true ∧
      match sock.auth, request with
      | true, .update k n enabled =>
        k = kind ∧ n = name ∧
          isEffective wildcard ⟨network, h, serial⟩ sock k n enabled s = true
      | true, _ => False
      | false, .hello _ => False
      | false, .auth token =>
        accepts unetd ⟨network, h, serial⟩ sock token s = true ∨
          s.isCurrent ⟨network, h, serial⟩ = true
      | false, _ => s.isCurrent ⟨network, h, serial⟩ = true

/-! ## One event -/

section Step

variable {s : State Id} {A network : String} {kind : Kind} {name host : String} {c : Conn}

/-- The state of the connection before goes away with everything else of the host. -/
theorem remote_networkCheckAuth {sock : Sock Id} {token : Option Token}
    (haccepts : accepts unetd c sock token s = true) :
    (s.networkCheckAuth unetd c sock token).remote kind name host = some A ↔
      s.remote kind name host = some A ∧ c.host ≠ host := by
  unfold networkCheckAuth
  rw [if_pos haccepts, remote_setRx, remote_networkRxCleanupState, remote_modifySock]
  unfold networkRxClose
  split
  case h_1 serial hrx =>
    rw [remote_networkRxSocketClose]
    constructor
    · rintro ⟨⟨hold, -⟩, hhost⟩
      exact ⟨hold, Ne.symm hhost⟩
    · rintro ⟨hold, hhost⟩
      exact ⟨⟨hold, fun h => hhost h.1⟩, Ne.symm hhost⟩
  case h_2 hrx => simp only [ne_comm]

theorem remote_receive {request : Request Id Token} (hne : A ≠ c.network) :
    (s.receive unetd wildcard c request).remote kind name host = some A ↔
      s.remote kind name host = some A ∧
        ¬ Writes unetd wildcard c.network s kind name host
          (.receive c.host c.serial request) := by
  unfold receive Writes
  cases hsock : s.sock c with
  | none => simp [hsock]
  | some sock =>
    by_cases hopen : sock.isOpen = true
    case neg => simp [hsock, hopen]
    case pos =>
      cases hauth : sock.auth with
      | true =>
        cases request with
        | update k n enabled =>
          simp [hsock, hopen, hauth, remote_networkSocketHandleRequest wildcard hne]
        | hello id => simp [hsock, hauth]
        | auth token => simp [hsock, hauth]
        | data => simp [hsock, hauth]
      | false =>
        cases request with
        | hello id => simp [hsock, hopen, hauth]
        | auth token =>
          by_cases haccepts : accepts unetd c sock token s = true
          · simp [hsock, hopen, hauth, haccepts, remote_networkCheckAuth]
          · simp [hsock, hopen, hauth, haccepts, remote_networkRxSocketClose]
        | update k n enabled => simp [hsock, hopen, hauth, remote_networkRxSocketClose]
        | data => simp [hsock, hopen, hauth, remote_networkRxSocketClose]

/-- An entry of another network stays exactly when the event does not write its place. -/
theorem remote_apply {event : Event Id Token} (hne : A ≠ network) :
    (s.apply unetd wildcard network event).remote kind name host = some A ↔
      s.remote kind name host = some A ∧
        ¬ Writes unetd wildcard network s kind name host event := by
  cases event with
  | accept h serial id => simp [apply, Writes, networkAccept]
  | receive h serial request => exact remote_receive unetd wildcard hne
  | disconnect h serial => exact remote_disconnect
  | timeout h serial => simp [apply, Writes, remote_timeout]
  | connectPeers => exact remote_networkConnectPeers
  | networkOpen peers => simp [apply, Writes, networkOpen]
  | networkClose => exact remote_networkClose
  | networkUpdate peers => exact remote_networkUpdate peers

end Step

/-! ## A sequence of events -/

/-- A sequence of events of a network leaves the entries of another network as they are
exactly when no event, in the state it meets, writes a place that holds one of them. -/
theorem entries_kept_iff {A B : String} (hne : A ≠ B) (s : State Id)
    (events : List (Event Id Token)) :
    (∀ kind name host,
        (events.foldl (apply unetd wildcard B) s).remote kind name host = some A ↔
          s.remote kind name host = some A) ↔
      Lib.Along (apply unetd wildcard B)
        (fun state event => ∀ kind name host, Writes unetd wildcard B state kind name host event →
          state.remote kind name host ≠ some A)
        events s := by
  let holds (state : State Id) (place : Kind × String × String) : Prop :=
    state.remote place.1 place.2.1 place.2.2 = some A
  let touches (state : State Id) (event : Event Id Token) (place : Kind × String × String) : Prop :=
    Writes unetd wildcard B state place.1 place.2.1 place.2.2 event
  have hstep : ∀ state event place,
      holds (apply unetd wildcard B state event) place ↔
        holds state place ∧ ¬ touches state event place :=
    fun state event place => remote_apply unetd wildcard hne
  simpa only [holds, touches, Prod.forall] using Lib.foldl_keeps_iff hstep events s

end State

end Isolation

/-! ## Two networks with a host of the same name -/

section SharedHost

def plainUnetd : Unetd ℕ (TokenData ℕ) where
  tokenCreate _ _ id := some ⟨"self", "root", id⟩
  tokenParse token := some token

/-- The host with the address is found, and authenticates. -/
def joins (host : String) (serial id : ℕ) : List (Event ℕ (TokenData ℕ)) :=
  [.networkOpen fun h => if h = host then some ⟨none⟩ else none, .accept host serial id,
    .receive host serial (.auth (some ⟨host, "root", some id⟩))]

/-- A daemon that knows no network. -/
def started : State ℕ where
  sock _ := none
  peers _ := none
  rx _ _ := none
  remote _ _ _ := none

/-- Host `x` of network `a` publishes a topic. -/
def published : State ℕ :=
  (joins "x" 0 7 ++ [Event.receive "x" 0 (.update .publish "topic" true)]).foldl
    (State.apply plainUnetd (fun _ _ => true) "a") started

/-- A host of another name joins the second network, and leaves it. -/
theorem entries_kept_of_other_host :
    published.remote .publish "topic" "x" = some "a" ∧ ∀ kind name host,
      ((joins "y" 1 8 ++ [Event.disconnect "y" 1]).foldl
          (State.apply plainUnetd (fun _ _ => true) "b") published).remote kind name host =
        some "a" ↔ published.remote kind name host = some "a" := by
  refine ⟨rfl, (State.entries_kept_iff plainUnetd (fun _ _ => true) (A := "a") (B := "b") (by decide)
    published _).mpr ?_⟩
  have hjoins : ∀ kind name, published.remote kind name "y" ≠ some "a" := by
    intro kind name
    change (if kind = .publish ∧ name = "topic" ∧ "y" = "x" then some "a" else none) ≠ some "a"
    simp
  have hleaves : ∀ kind name, ((joins "y" 1 8).foldl
      (State.apply plainUnetd (fun _ _ => true) "b") published).remote kind name "y" ≠
        some "a" := by
    intro kind name
    change none ≠ some "a"
    nofun
  refine ⟨nofun, nofun, ?_, ?_, trivial⟩
  · rintro kind name host ⟨rfl, -⟩
    exact hjoins kind name
  · rintro kind name host ⟨rfl, -⟩
    exact hleaves kind name

/-- The second network has a host of the same name: it joins, and the entry of the first
is gone. -/
theorem not_entries_kept_of_same_host :
    published.remote .publish "topic" "x" = some "a" ∧
      ((joins "x" 1 8).foldl (State.apply plainUnetd (fun _ _ => true) "b") published).remote
        .publish "topic" "x" = none :=
  ⟨by decide, by decide⟩

end SharedHost

end OpenWrt.Unetmsg
