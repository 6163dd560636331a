/-
# The sending side of unetmsgd

A daemon keeps the handles of its local clients in one table for publications and one for
subscriptions, and opens a channel to every peer. Once a channel is authenticated, all
names of the tables are announced on it, and from then on every change of a name. This
module has the tables with the handlers of the clients, and the handlers of the opened
channels, in the words of the source.

The messages that a channel is given to send are kept in their order. Left out are the
access lists of clients, the notifications of local clients about publications, and the
timer of a network that tries its peers again.
-/

import OpenWrt.Unetmsg.Remote

namespace OpenWrt.Unetmsg

/-! ## Data -/

/-- What a channel carries from one daemon to the other. -/
inductive Message (Id Token : Type) where
  | hello (id : Option Id)
  | auth (token : Option Token)
  /-- The answer to an auth request. -/
  | authReply (token : Option Token)
  /-- The end of an auth request. -/
  | authDone
  | update (kind : Kind) (name : String) (enabled : Bool)
  deriving DecidableEq, Repr

/-- A table of local handles: its names in the order of their first handles, and the
handles of each. -/
structure Table (Id : Type) where
  names : List String
  handles : String → List Id

/-- What a client has, by kind: names with their handles. -/
abbrev Client (Id : Type) := Kind → List (String × Id)

/-- The fields of `sock_data` for an opened channel. -/
structure TxSock where
  auth : Bool
  /-- The channel is not disconnected. -/
  isOpen : Bool
  /-- Auth requests that are not answered. -/
  requests : ℕ
  /-- `timer` is running. -/
  timer : Bool
  /-- A timer that `timer` took the place of is running. -/
  stray : Bool
  deriving DecidableEq, Repr

/-- What the sending side keeps. -/
structure Sender (Id Token : Type) where
  sock : Conn → Option TxSock
  /-- `tx_channels` of a network, by host. -/
  tx : String → String → Option ℕ
  /-- The tables `publish` and `subscribe`. -/
  table : Kind → Table Id
  clients : Id → Option (Client Id)
  /-- The messages given to a channel and not delivered. -/
  out : Conn → List (Message Id Token)

namespace Table

variable {Id : Type} [DecidableEq Id]

/-- `list[name] ??= {}`. -/
def addName (name : String) (t : Table Id) : Table Id :=
  { t with names := if name ∈ t.names then t.names else t.names ++ [name] }

/-- `new_handle`. -/
def newHandle (name : String) (id : Id) (t : Table Id) : Table Id :=
  { t.addName name with
    handles := Function.update t.handles name ((t.handles name).insert id) }

/-- The handle goes, the name stays. -/
def delete (name : String) (id : Id) (t : Table Id) : Table Id :=
  { t with handles := Function.update t.handles name ((t.handles name).filter (· ≠ id)) }

end Table

namespace Sender

variable {Id Token : Type}

/-- Change the fields of a channel. -/
def modifySock (c : Conn) (f : TxSock → TxSock) (s : Sender Id Token) : Sender Id Token :=
  { s with sock := Function.update s.sock c ((s.sock c).map f) }

@[simp]
theorem sock_modifySock_self (c : Conn) (f : TxSock → TxSock) (s : Sender Id Token) :
    (s.modifySock c f).sock c = (s.sock c).map f :=
  Function.update_self ..

theorem sock_modifySock_of_ne {c d : Conn} (hd : d ≠ c) (f : TxSock → TxSock)
    (s : Sender Id Token) : (s.modifySock c f).sock d = s.sock d :=
  Function.update_of_ne hd ..

/-- Give messages to a channel. -/
def send (c : Conn) (messages : List (Message Id Token)) (s : Sender Id Token) :
    Sender Id Token :=
  { s with out := Function.update s.out c (s.out c ++ messages) }

/-- The channel is the one in `tx_channels` of its network. -/
def isCurrent (s : Sender Id Token) (c : Conn) : Bool :=
  s.tx c.network c.host == some c.serial

/-- Set the entry of a host in `tx_channels`. -/
def setTx (network host : String) (serial : Option ℕ) (s : Sender Id Token) : Sender Id Token :=
  { s with tx := fun n h => if n = network ∧ h = host then serial else s.tx n h }

/-! ## Local clients -/

/-- `pubsub_set`: the change goes to every authenticated channel. -/
def pubsubSet (kind : Kind) (name : String) (enabled : Bool) (s : Sender Id Token) :
    Sender Id Token :=
  { s with
    out := fun c =>
      if s.isCurrent c && ((s.sock c).map (·.auth)).getD false then
        s.out c ++ [.update kind name enabled]
      else s.out c }

def setTable (kind : Kind) (t : Table Id) (s : Sender Id Token) : Sender Id Token :=
  { s with table := Function.update s.table kind t }

section Clients

variable [DecidableEq Id]

/-- `pubsub_add`. -/
def pubsubAdd (kind : Kind) (name : String) (id : Id) (s : Sender Id Token) : Sender Id Token :=
  let s :=
    if (s.table kind).handles name = [] ∨ kind = .publish then
      (s.setTable kind ((s.table kind).addName name)).pubsubSet kind name true
    else s
  s.setTable kind ((s.table kind).newHandle name id)

/-- `pubsub_del`. -/
def pubsubDel (kind : Kind) (name : String) (id : Id) (s : Sender Id Token) : Sender Id Token :=
  let t := (s.table kind).delete name id
  let s := s.setTable kind t
  if t.handles name = [] ∨ kind = .publish then s.pubsubSet kind name (!(t.handles name).isEmpty)
  else s

def setClient (client : Id) (lists : Option (Client Id)) (s : Sender Id Token) :
    Sender Id Token :=
  { s with clients := Function.update s.clients client lists }

/-- One turn of `client_pubsub`: a name that the client does not have gets a handle. -/
def clientPubsubName (client : Id) (kind : Kind) (s : Sender Id Token) (entry : String × Id) :
    Sender Id Token :=
  match s.clients client with
  | none => s
  | some lists =>
    if entry.1 ∈ (lists kind).map Prod.fst then s
    else
      (s.pubsubAdd kind entry.1 entry.2).setClient client
        (some (Function.update lists kind (lists kind ++ [entry])))

/-- `client_pubsub`, for names with the ids that `gen_id` makes. -/
def clientPubsub (client : Id) (kind : Kind) (entries : List (String × Id))
    (s : Sender Id Token) : Sender Id Token :=
  entries.foldl (clientPubsubName client kind) s

/-- `client_disconnect`. -/
def clientDisconnect (client : Id) (s : Sender Id Token) : Sender Id Token :=
  match s.clients client with
  | none => s
  | some lists =>
    let deleted := [Kind.publish, .subscribe].foldl
      (fun s kind =>
        (lists kind).foldl (fun s entry => s.pubsubDel kind entry.1 entry.2) s) s
    deleted.setClient client none

@[simp]
theorem sock_pubsubAdd (kind : Kind) (name : String) (id : Id) (s : Sender Id Token) :
    (s.pubsubAdd kind name id).sock = s.sock := by
  unfold pubsubAdd
  dsimp only
  split <;> rfl

@[simp]
theorem sock_pubsubDel (kind : Kind) (name : String) (id : Id) (s : Sender Id Token) :
    (s.pubsubDel kind name id).sock = s.sock := by
  unfold pubsubDel
  dsimp only
  split <;> rfl

variable {P : Sender Id Token → Prop}

/-- What adding a handle keeps, whatever is noted of the clients, a client's call keeps. -/
theorem clientPubsub_keeps (hadd : ∀ s kind name id, P s → P (pubsubAdd kind name id s))
    (hclient : ∀ s client lists, P s → P (setClient client lists s)) (client : Id) (kind : Kind)
    (entries : List (String × Id)) {s : Sender Id Token} (hs : P s) :
    P (s.clientPubsub client kind entries) := by
  unfold clientPubsub
  induction entries generalizing s with
  | nil => exact hs
  | cons entry entries ih =>
    refine ih ?_
    unfold clientPubsubName
    split
    · exact hs
    · split
      · exact hs
      · exact hclient _ _ _ (hadd _ _ _ _ hs)

/-- The same for what removing a handle keeps. -/
theorem clientDisconnect_keeps (hdel : ∀ s kind name id, P s → P (pubsubDel kind name id s))
    (hclient : ∀ s client lists, P s → P (setClient client lists s)) (client : Id)
    {s : Sender Id Token} (hs : P s) : P (s.clientDisconnect client) := by
  have hlist : ∀ (kind : Kind) (entries : List (String × Id)) (s : Sender Id Token), P s →
      P (entries.foldl (fun s entry => s.pubsubDel kind entry.1 entry.2) s) := by
    intro kind entries
    induction entries with
    | nil => exact fun s hs => hs
    | cons entry entries ih => exact fun s hs => ih _ (hdel _ _ _ _ hs)
  unfold clientDisconnect
  split
  · exact hs
  · exact hclient _ _ _ (hlist _ _ _ (hlist _ _ _ hs))

end Clients

/-! ## Channels -/

/-- `network_socket_close`. -/
def networkSocketClose (c : Conn) (s : Sender Id Token) : Sender Id Token :=
  s.modifySock c fun sock => { sock with isOpen := false, timer := false }

/-- `network_tx_socket_close`. -/
def networkTxSocketClose (c : Conn) (s : Sender Id Token) : Sender Id Token :=
  (if s.isCurrent c then s.setTx c.network c.host none else s).networkSocketClose c

/-- `network_tx_socket_close` for the channel of a host in `tx_channels`, if any. -/
def networkTxClose (network host : String) (s : Sender Id Token) : Sender Id Token :=
  match s.tx network host with
  | some serial => s.networkTxSocketClose ⟨network, host, serial⟩
  | none => s

/-- `network_open_channel`; without a serial no socket could be made. -/
def networkOpenChannel (network host : String) (serial : Option ℕ) (s : Sender Id Token) :
    Sender Id Token :=
  let s := s.networkTxClose network host
  match serial with
  | none => s
  | some n =>
    { s.setTx network host (some n) with
      sock := Function.update s.sock ⟨network, host, n⟩
        (some { auth := false, isOpen := true, requests := 0, timer := false, stray := false }) }

/-- The sending side of `network_connect_peers` for one of the peers. -/
def networkConnectPeer (network host : String) (serial : Option ℕ) (s : Sender Id Token) :
    Sender Id Token :=
  match s.tx network host with
  | some n =>
    if ((s.sock ⟨network, host, n⟩).map (·.auth)).getD false then s
    else s.networkOpenChannel network host serial
  | none => s.networkOpenChannel network host serial

def announcement (s : Sender Id Token) : List (Message Id Token) :=
  [Kind.publish, .subscribe].flatMap fun kind =>
    (s.table kind).names.map fun name => .update kind name true

section Messages

variable [DecidableEq Id] (unetd : Unetd Id Token)

/-- The callback of an opened channel. -/
def receive (c : Conn) (request : Request Id Token) (s : Sender Id Token) : Sender Id Token :=
  match s.sock c with
  | none => s
  | some sock =>
    if sock.isOpen = false ∨ sock.auth = true then s
    else
      match request with
      | .hello id =>
        match unetd.tokenCreate c.network c.host id with
        | none => s.networkTxSocketClose c
        | some token =>
          (s.send c [.auth (some token)]).modifySock c fun sock =>
            { sock with
              requests := sock.requests + 1
              stray := sock.stray || sock.timer
              timer := true }
      | _ => s.networkTxSocketClose c

/-- The reply authenticates the channel. No handler sets an `id` of an opened channel, so
the token is checked against none. -/
def acceptsReply (c : Conn) (sock : TxSock) (token : Option Token) : Bool :=
  sock.isOpen && sock.requests ≠ 0 && State.networkAuthValid unetd c.host none token

/-- `auth_data_cb`. -/
def authDataCb (c : Conn) (token : Option Token) (s : Sender Id Token) : Sender Id Token :=
  match s.sock c with
  | none => s
  | some sock =>
    if acceptsReply unetd c sock token then
      (s.modifySock c fun sock => { sock with auth := true, timer := false }).send c
        s.announcement
    else s

/-- `auth_cb`. -/
def authCb (c : Conn) (s : Sender Id Token) : Sender Id Token :=
  match s.sock c with
  | none => s
  | some sock =>
    if sock.isOpen = false ∨ sock.requests = 0 then s
    else
      let s := s.modifySock c fun sock => { sock with requests := sock.requests - 1 }
      if sock.auth then s else s.networkTxSocketClose c

end Messages

/-- The callback of a channel that the other side closed. -/
def disconnect (c : Conn) (s : Sender Id Token) : Sender Id Token :=
  match s.sock c with
  | some sock => if sock.isOpen then s.networkTxSocketClose c else s
  | none => s

def timeout (c : Conn) (s : Sender Id Token) : Sender Id Token :=
  match s.sock c with
  | some sock => if sock.timer || sock.stray then s.networkTxSocketClose c else s
  | none => s

end Sender

end OpenWrt.Unetmsg
