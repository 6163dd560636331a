/-
# The receiving side of unetmsgd

A daemon keeps, for every network it is in, the authenticated connections that other
hosts have opened to it, and two tables for all networks together: under the name of a
publication or subscription, which remote hosts have it. This module has the handlers of
these connections and of the changes of a network, in the words of the source.

An object `sock_data` of an accepted connection is known by its network, by the host whose
address it came from, and by a number. Left out are the notifications of local clients
about publications, which change none of this, and the addresses by which a connection
finds its host.
-/

import Mathlib.Data.Nat.Notation
import Mathlib.Logic.Function.Basic

namespace OpenWrt.Unetmsg

/-! ## Data -/

/-- The tables and the message types of the same names. -/
inductive Kind where
  | publish
  | subscribe
  deriving DecidableEq, Repr

/-- An accepted connection. -/
structure Conn where
  network : String
  host : String
  serial : ℕ
  deriving DecidableEq, Repr

/-- What a token says: who made it, and the data it was made for. -/
structure TokenData (Id : Type) where
  host : String
  user : String
  id : Option Id
  deriving DecidableEq, Repr

/-- The token calls of unetd. -/
structure Unetd (Id Token : Type) where
  /-- `token_create` for a network, a target host and an id. -/
  tokenCreate : String → String → Option Id → Option Token
  /-- `token_parse`, which refuses what no host of the network has made. -/
  tokenParse : Token → Option (TokenData Id)

/-- A peer; without a list of patterns every name is allowed. -/
structure Peer where
  allowed : Option (List String)
  deriving DecidableEq, Repr

/-- The fields of `sock_data` for an accepted connection. -/
structure Sock (Id : Type) where
  id : Option Id
  auth : Bool
  /-- The channel is not disconnected. -/
  isOpen : Bool
  /-- The lists `publish` and `subscribe`. -/
  names : Kind → String → Bool

/-- What the receiving side keeps. -/
structure State (Id : Type) where
  sock : Conn → Option (Sock Id)
  /-- The networks, with their peers. -/
  peers : String → Option (String → Option Peer)
  /-- `rx_channels` of a network, by host. -/
  rx : String → String → Option ℕ
  /-- `remote_publish[name][host]` and `remote_subscribe[name][host]`, by the network of
  the entry. -/
  remote : Kind → String → String → Option String

/-- What a channel may receive. -/
inductive Request (Id Token : Type) where
  | hello (id : Option Id)
  | auth (token : Option Token)
  | update (kind : Kind) (name : String) (enabled : Bool)
  /-- A request or a message for local clients. -/
  | data

namespace State

variable {Id Token : Type}

/-- Change the fields of a connection. -/
def modifySock (c : Conn) (f : Sock Id → Sock Id) (s : State Id) : State Id :=
  { s with sock := Function.update s.sock c ((s.sock c).map f) }

/-! ## Closing -/

/-- `network_socket_close`. -/
def networkSocketClose (c : Conn) (s : State Id) : State Id :=
  s.modifySock c fun sock => { sock with isOpen := false }

/-- `network_rx_cleanup_state`. -/
def networkRxCleanupState (host : String) (s : State Id) : State Id :=
  { s with remote := fun kind name h => if h = host then none else s.remote kind name h }

/-- The connection is the one in `rx_channels` of its network. -/
def isCurrent (s : State Id) (c : Conn) : Bool :=
  (s.peers c.network).isSome && s.rx c.network c.host == some c.serial

/-- Set the entry of a host in `rx_channels`. -/
def setRx (network host : String) (serial : Option ℕ) (s : State Id) : State Id :=
  { s with rx := fun n h => if n = network ∧ h = host then serial else s.rx n h }

/-- `network_rx_socket_close`. -/
def networkRxSocketClose (c : Conn) (s : State Id) : State Id :=
  (if s.isCurrent c then (s.setRx c.network c.host none).networkRxCleanupState c.host
    else s).networkSocketClose c

/-- `network_rx_socket_close` for the connection of a host in `rx_channels`, if any. -/
def networkRxClose (network host : String) (s : State Id) : State Id :=
  match s.rx network host with
  | some serial => s.networkRxSocketClose ⟨network, host, serial⟩
  | none => s

/-- The same for every host of a condition. Each turn of the loops of the source changes
only what is kept under its host. -/
def networkRxCloseWhere (network : String) (p : String → Bool) (s : State Id) : State Id where
  sock c :=
    if c.network = network ∧ p c.host = true ∧ s.isCurrent c = true then
      (s.sock c).map fun sock => { sock with isOpen := false }
    else s.sock c
  peers := s.peers
  rx n h := if n = network ∧ p h = true ∧ (s.peers n).isSome then none else s.rx n h
  remote kind name h :=
    if p h = true ∧ (s.peers network).isSome ∧ (s.rx network h).isSome then none
    else s.remote kind name h

/-! ## Requests -/

section Requests

variable [DecidableEq Id] (unetd : Unetd Id Token) (wildcard : String → String → Bool)

/-- `network_auth_valid`. -/
def networkAuthValid (host : String) (id : Option Id) (token : Option Token) : Bool :=
  match token.bind unetd.tokenParse with
  | some data => data.host == host && data.user == "root" && data.id == id
  | none => false

/-- The token authenticates the connection: it is valid for its host and its id, and the
host is a peer. -/
def accepts (c : Conn) (sock : Sock Id) (token : Option Token) (s : State Id) : Bool :=
  networkAuthValid unetd c.host sock.id token &&
    ((s.peers c.network).bind fun peers => peers c.host).isSome

/-- `network_check_auth`: the connection takes the place of the one before it. -/
def networkCheckAuth (c : Conn) (sock : Sock Id) (token : Option Token) (s : State Id) :
    State Id :=
  if accepts unetd c sock token s then
    ((s.networkRxClose c.network c.host).modifySock c fun sock => { sock with auth := true })
      |>.networkRxCleanupState c.host |>.setRx c.network c.host (some c.serial)
  else s

/-- The patterns of the peer let the name through. Without a peer the source fails. -/
def isAllowed (c : Conn) (name : String) (s : State Id) : Bool :=
  match (s.peers c.network).bind fun peers => peers c.host with
  | some ⟨none⟩ => true
  | some ⟨some patterns⟩ => patterns.any fun pattern => wildcard name pattern
  | none => false

/-- Set an entry of the tables. -/
def setRemote (kind : Kind) (name host : String) (network : Option String) (s : State Id) :
    State Id :=
  { s with
    remote := fun k n h =>
      if k = kind ∧ n = name ∧ h = host then network else s.remote k n h }

/-- Set an entry of the lists of a connection. -/
def setName (c : Conn) (kind : Kind) (name : String) (enabled : Bool) (s : State Id) : State Id :=
  s.modifySock c fun sock =>
    { sock with
      names := fun k n => if k = kind ∧ n = name then enabled else sock.names k n }

/-- An update changes something: a name that is new and allowed is added, one that is
there is removed. -/
def isEffective (c : Conn) (sock : Sock Id) (kind : Kind) (name : String) (enabled : Bool)
    (s : State Id) : Bool :=
  (s.peers c.network).isSome && name ≠ "" &&
    if enabled then !sock.names kind name && isAllowed wildcard c name s else sock.names kind name

/-- `network_socket_handle_request`, for a publication or a subscription. -/
def networkSocketHandleRequest (c : Conn) (sock : Sock Id) (kind : Kind) (name : String)
    (enabled : Bool) (s : State Id) : State Id :=
  if isEffective wildcard c sock kind name enabled s then
    (s.setRemote kind name c.host (if enabled then some c.network else none)).setName c kind name
      enabled
  else s

/-- The callback of an accepted channel. A connection that is not authenticated after
anything but a hello is closed. -/
def receive (c : Conn) (request : Request Id Token) (s : State Id) : State Id :=
  match s.sock c with
  | none => s
  | some sock =>
    if sock.isOpen = false then s
    else if sock.auth then
      match request with
      | .update kind name enabled =>
        networkSocketHandleRequest wildcard c sock kind name enabled s
      | _ => s
    else
      match request with
      | .hello id => s.modifySock c fun sock => { sock with id }
      | .auth token =>
        if accepts unetd c sock token s then networkCheckAuth unetd c sock token s
        else s.networkRxSocketClose c
      | _ => s.networkRxSocketClose c

end Requests

/-! ## Connections and networks -/

/-- `network_accept`, for a peer found by its address, with the id that `gen_id` makes. -/
def networkAccept (c : Conn) (id : Id) (s : State Id) : State Id :=
  { s with
    sock := Function.update s.sock c
      (some { id := some id, auth := false, isOpen := true, names := fun _ _ => false }) }

/-- The callback of a channel that the other side closed. -/
def disconnect (c : Conn) (s : State Id) : State Id :=
  match s.sock c with
  | some sock => if sock.isOpen then s.networkRxSocketClose c else s
  | none => s

def timeout (c : Conn) (s : State Id) : State Id :=
  match s.sock c with
  | some sock => if sock.auth then s else s.networkSocketClose c
  | none => s

/-- The receiving side of `network_connect_peers`. -/
def networkConnectPeers (network : String) (s : State Id) : State Id :=
  match s.peers network with
  | some peers => s.networkRxCloseWhere network fun host => (peers host).isNone
  | none => s

/-- `network_open`. -/
def networkOpen (network : String) (peers : String → Option Peer) (s : State Id) : State Id :=
  { s with
    peers := Function.update s.peers network (some peers)
    rx := fun n h => if n = network then none else s.rx n h }

/-- `network_close`. -/
def networkClose (network : String) (s : State Id) : State Id :=
  let s := s.networkRxCloseWhere network fun _ => true
  { s with peers := Function.update s.peers network none }

/-- `network_update`, for a network whose own address stays: the connections of peers
with other patterns are closed. -/
def networkUpdate (network : String) (peers : String → Option Peer) (s : State Id) : State Id :=
  match s.peers network with
  | none => s
  | some old =>
    let s := s.networkRxCloseWhere network fun host =>
      match old host with
      | some peer => peer.allowed != ((peers host).bind fun peer => peer.allowed)
      | none => false
    { s with peers := Function.update s.peers network (some peers) }

end State

end OpenWrt.Unetmsg
