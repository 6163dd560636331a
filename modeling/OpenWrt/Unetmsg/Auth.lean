/-
# What authenticates a channel

The daemon makes an id for every connection it accepts, and a token authenticates the
connection when it binds that id. The other side is an adversary: any request may come at
any time, with any token ever made. This module keeps, beside the state, which id was made
for which channel and which token authenticated it, and proves that every token that was
let in binds the id made for its own channel, as long as no hello brings another id to an
accepted connection and no reply is let in on an opened channel. The first event of either
kind breaks it.
-/

import OpenWrt.Unetmsg.Isolation
import OpenWrt.Unetmsg.Sender

namespace OpenWrt.Unetmsg

section Auth

variable {Id Token : Type}

/-! ## The id and the authentication of a connection -/

namespace State

/-- What matters of the connections here. -/
def identity (s : State Id) (c : Conn) : Option (Option Id × Bool) :=
  (s.sock c).map fun sock => (sock.id, sock.auth)

section Identity

variable {s : State Id} {c : Conn} {network : String}

theorem identity_of_sock {t : State Id} (hsock : t.sock = s.sock) : t.identity = s.identity := by
  unfold identity
  rw [hsock]

theorem identity_modifySock_eq {f : Sock Id → Sock Id} :
    (s.modifySock c f).identity =
      Function.update s.identity c ((s.sock c).map fun sock => ((f sock).id, (f sock).auth)) := by
  funext d
  by_cases hd : d = c
  · subst hd
    simp [identity, modifySock, Function.comp_def]
  · simp [identity, modifySock, Function.update_of_ne hd]

theorem identity_modifySock {f : Sock Id → Sock Id} (hid : ∀ sock, (f sock).id = sock.id)
    (hauth : ∀ sock, (f sock).auth = sock.auth) : (s.modifySock c f).identity = s.identity := by
  rw [identity_modifySock_eq]
  simp only [hid, hauth]
  exact Function.update_eq_self c s.identity

@[simp]
theorem identity_networkSocketClose : (s.networkSocketClose c).identity = s.identity :=
  identity_modifySock (fun _ => rfl) fun _ => rfl

@[simp]
theorem identity_networkRxCleanupState (host : String) :
    (s.networkRxCleanupState host).identity = s.identity :=
  rfl

@[simp]
theorem identity_setRx (host : String) (serial : Option ℕ) :
    (s.setRx network host serial).identity = s.identity :=
  rfl

@[simp]
theorem identity_networkRxSocketClose : (s.networkRxSocketClose c).identity = s.identity := by
  unfold networkRxSocketClose
  split <;> simp

@[simp]
theorem identity_networkRxClose (host : String) :
    (s.networkRxClose network host).identity = s.identity := by
  unfold networkRxClose
  split <;> simp

@[simp]
theorem identity_networkRxCloseWhere (p : String → Bool) :
    (s.networkRxCloseWhere network p).identity = s.identity := by
  funext d
  unfold identity networkRxCloseWhere
  dsimp only
  split
  · simp only [Option.map_map]
    rfl
  · rfl

@[simp]
theorem identity_networkConnectPeers : (s.networkConnectPeers network).identity = s.identity := by
  unfold networkConnectPeers
  split <;> simp

@[simp]
theorem identity_networkUpdate (peers : String → Option Peer) :
    (s.networkUpdate network peers).identity = s.identity := by
  unfold networkUpdate
  split
  · rfl
  · funext d
    dsimp only [identity, networkRxCloseWhere]
    split
    · simp only [Option.map_map]
      rfl
    · rfl

@[simp]
theorem identity_networkClose : (s.networkClose network).identity = s.identity := by
  exact (identity_of_sock rfl).trans (identity_networkRxCloseWhere fun _ => true)

@[simp]
theorem identity_disconnect : (s.disconnect c).identity = s.identity := by
  unfold disconnect
  split
  · split <;> simp
  · rfl

@[simp]
theorem identity_timeout : (s.timeout c).identity = s.identity := by
  unfold timeout
  split
  · split <;> simp
  · rfl

@[simp]
theorem identity_networkSocketHandleRequest (wildcard : String → String → Bool) (sock : Sock Id)
    (kind : Kind) (name : String) (enabled : Bool) :
    (s.networkSocketHandleRequest wildcard c sock kind name enabled).identity = s.identity := by
  unfold networkSocketHandleRequest
  split
  · exact identity_modifySock (fun _ => rfl) fun _ => rfl
  · rfl

end Identity

def isPending (s : State Id) (c : Conn) : Bool :=
  match s.sock c with
  | some sock => sock.isOpen && !sock.auth
  | none => false

theorem sock_of_isPending {s : State Id} {c : Conn} (hpending : s.isPending c = true) :
    ∃ sock, s.sock c = some sock ∧ sock.isOpen = true ∧ sock.auth = false := by
  unfold isPending at hpending
  cases hsock : s.sock c with
  | none => simp [hsock] at hpending
  | some sock => exact ⟨sock, rfl, by simpa [hsock] using hpending⟩

section Requests

variable [DecidableEq Id] (unetd : Unetd Id Token) (wildcard : String → String → Bool)
  {s : State Id} {c : Conn}

def authenticates (s : State Id) (c : Conn) (token : Option Token) : Bool :=
  match s.sock c with
  | some sock => sock.isOpen && !sock.auth && accepts unetd c sock token s
  | none => false

theorem sock_of_authenticates {token : Option Token}
    (hauth : s.authenticates unetd c token = true) : ∃ sock, s.sock c = some sock := by
  unfold authenticates at hauth
  cases hsock : s.sock c with
  | none => simp [hsock] at hauth
  | some sock => exact ⟨sock, rfl⟩

theorem identity_receive_hello (id : Option Id) :
    (s.receive unetd wildcard c (.hello id)).identity =
      if s.isPending c then Function.update s.identity c (some (id, false)) else s.identity := by
  unfold receive isPending
  cases hsock : s.sock c with
  | none => rfl
  | some sock =>
    cases hopen : sock.isOpen <;> cases hauth : sock.auth <;>
      simp [hopen, hauth, identity_modifySock_eq, hsock]

theorem identity_networkCheckAuth {sock : Sock Id} {token : Option Token}
    (hsock : s.sock c = some sock) (haccepts : accepts unetd c sock token s = true) :
    (s.networkCheckAuth unetd c sock token).identity =
      Function.update s.identity c (some (sock.id, true)) := by
  have hold : (s.networkRxClose c.network c.host).identity = s.identity :=
    identity_networkRxClose c.host
  have hc : ((s.networkRxClose c.network c.host).sock c).map (·.id) = some sock.id := by
    have h := congrArg (Option.map Prod.fst) (congrFun hold c)
    simpa [identity, hsock, Function.comp_def] using h
  unfold networkCheckAuth
  rw [if_pos haccepts, identity_setRx, identity_networkRxCleanupState, identity_modifySock_eq, hold]
  obtain ⟨sock', hsock', hid⟩ := Option.map_eq_some_iff.mp hc
  simp [hsock', hid]

theorem identity_receive_auth {token : Option Token} {sock : Sock Id}
    (hsock : s.sock c = some sock) (hauth : s.authenticates unetd c token = true) :
    (s.receive unetd wildcard c (.auth token)).identity =
      Function.update s.identity c (some (sock.id, true)) := by
  simp only [authenticates, hsock, Bool.and_eq_true, Bool.not_eq_true'] at hauth
  obtain ⟨⟨hopen, hnot⟩, haccepts⟩ := hauth
  simpa [receive, hsock, hopen, hnot, haccepts] using identity_networkCheckAuth unetd hsock haccepts

theorem identity_receive_of_not {request : Request Id Token} (hhello : ∀ id, request ≠ .hello id)
    (hauth : ∀ token, request = .auth token → s.authenticates unetd c token = false) :
    (s.receive unetd wildcard c request).identity = s.identity := by
  unfold receive
  cases hsock : s.sock c with
  | none => rfl
  | some sock =>
    cases request with
    | hello id => exact absurd rfl (hhello id)
    | update kind name enabled =>
      cases hopen : sock.isOpen <;> cases hnot : sock.auth <;> simp [hopen, hnot]
    | data => cases hopen : sock.isOpen <;> cases hnot : sock.auth <;> simp [hopen, hnot]
    | auth token =>
      have hrefused := hauth token rfl
      simp only [authenticates, hsock] at hrefused
      cases hopen : sock.isOpen <;> cases hnot : sock.auth <;> simp_all

end Requests

end State

/-! ## The opened channels -/

namespace Sender

/-- No opened channel is authenticated. -/
def NoneAuth (s : Sender Id Token) : Prop :=
  ∀ c sock, s.sock c = some sock → sock.auth = false

section NoneAuth

variable {s : Sender Id Token} {c : Conn}

theorem NoneAuth.of_sock {t : Sender Id Token} (hs : s.NoneAuth) (hsock : t.sock = s.sock) :
    t.NoneAuth := by
  unfold NoneAuth
  rw [hsock]
  exact hs

theorem NoneAuth.modifySock (hs : s.NoneAuth) {f : TxSock → TxSock}
    (hf : ∀ sock, (f sock).auth = sock.auth) : (s.modifySock c f).NoneAuth := by
  intro d sock hsock
  by_cases hd : d = c
  · subst hd
    rw [sock_modifySock_self, Option.map_eq_some_iff] at hsock
    obtain ⟨old, hold, rfl⟩ := hsock
    rw [hf]
    exact hs d old hold
  · rw [sock_modifySock_of_ne hd] at hsock
    exact hs d sock hsock

theorem NoneAuth.networkTxSocketClose (hs : s.NoneAuth) : (s.networkTxSocketClose c).NoneAuth := by
  unfold Sender.networkTxSocketClose
  split
  · exact (hs.of_sock rfl).modifySock fun _ => rfl
  · exact hs.modifySock fun _ => rfl

theorem NoneAuth.networkTxClose (hs : s.NoneAuth) (network host : String) :
    (s.networkTxClose network host).NoneAuth := by
  unfold Sender.networkTxClose
  split
  · exact hs.networkTxSocketClose
  · exact hs

theorem NoneAuth.networkOpenChannel (hs : s.NoneAuth) (network host : String)
    (serial : Option ℕ) : (s.networkOpenChannel network host serial).NoneAuth := by
  have hclosed := hs.networkTxClose network host
  unfold Sender.networkOpenChannel
  cases serial with
  | none => exact hclosed
  | some n =>
    intro d sock hsock
    by_cases hd : d = ⟨network, host, n⟩
    · subst hd
      simp only [Function.update_self, Option.some.injEq] at hsock
      subst hsock
      rfl
    · simp only [Function.update_of_ne hd] at hsock
      exact hclosed d sock hsock

theorem NoneAuth.networkConnectPeer (hs : s.NoneAuth) (network host : String)
    (serial : Option ℕ) : (s.networkConnectPeer network host serial).NoneAuth := by
  unfold Sender.networkConnectPeer
  split
  · split
    · exact hs
    · exact hs.networkOpenChannel network host serial
  · exact hs.networkOpenChannel network host serial

theorem NoneAuth.receive (hs : s.NoneAuth) (unetd : Unetd Id Token) (request : Request Id Token) :
    (s.receive unetd c request).NoneAuth := by
  unfold Sender.receive
  split
  · exact hs
  · split
    · exact hs
    · split
      · split
        · exact hs.networkTxSocketClose
        · exact (hs.of_sock rfl).modifySock fun _ => rfl
      · exact hs.networkTxSocketClose

theorem NoneAuth.authCb (hs : s.NoneAuth) : (s.authCb c).NoneAuth := by
  unfold Sender.authCb
  split
  · exact hs
  · split
    · exact hs
    · have hdone : (s.modifySock c fun sock =>
          { sock with requests := sock.requests - 1 }).NoneAuth := hs.modifySock fun _ => rfl
      dsimp only
      split
      · exact hdone
      · exact hdone.networkTxSocketClose

theorem NoneAuth.disconnect (hs : s.NoneAuth) : (s.disconnect c).NoneAuth := by
  unfold Sender.disconnect
  split
  · split
    · exact hs.networkTxSocketClose
    · exact hs
  · exact hs

theorem NoneAuth.timeout (hs : s.NoneAuth) : (s.timeout c).NoneAuth := by
  unfold Sender.timeout
  split
  · split
    · exact hs.networkTxSocketClose
    · exact hs
  · exact hs

end NoneAuth

end Sender

/-! ## The daemon with what it generated -/

/-- The two roles of a channel. -/
inductive Role where
  | rx
  | tx
  deriving DecidableEq, Repr

/-- What happens to the opened channels and the tables. -/
inductive TxEvent (Id Token : Type) where
  | connect (network host : String) (serial : Option ℕ)
  | receive (c : Conn) (request : Request Id Token)
  | reply (c : Conn) (token : Option Token)
  | replyDone (c : Conn)
  | close (network host : String)
  | disconnect (c : Conn)
  | timeout (c : Conn)
  | clientPubsub (client : Id) (kind : Kind) (entries : List (String × Id))
  | clientDisconnect (client : Id)

/-- An event of either side. -/
inductive DaemonEvent (Id Token : Type) where
  | rx (network : String) (event : Event Id Token)
  | tx (event : TxEvent Id Token)

/-- Both sides of a daemon, with the id made for each channel and the token that
authenticated it. -/
structure Daemon (Id Token : Type) where
  rx : State Id
  tx : Sender Id Token
  generated : Role → Conn → Option Id
  proof : Role → Conn → Option (Option Token)

namespace Daemon

variable (unetd : Unetd Id Token)

/-- Note the id made for a channel. -/
def setGenerated (role : Role) (c : Conn) (id : Id) (m : Daemon Id Token) : Daemon Id Token :=
  { m with generated := fun r d => if r = role ∧ d = c then some id else m.generated r d }

/-- Note the token that authenticates a channel. -/
def setProof (role : Role) (c : Conn) (token : Option Token) (m : Daemon Id Token) :
    Daemon Id Token :=
  { m with proof := fun r d => if r = role ∧ d = c then some token else m.proof r d }

/-- A daemon that has no channel. -/
structure IsInit (m : Daemon Id Token) : Prop where
  rx : ∀ c, m.rx.sock c = none
  tx : ∀ c, m.tx.sock c = none
  generated : ∀ role c, m.generated role c = none
  proof : ∀ role c, m.proof role c = none

def Binds (token : Option Token) (id : Option Id) : Prop :=
  ∃ t data i, token = some t ∧ unetd.tokenParse t = some data ∧ data.id = some i ∧ id = some i

/-- Every channel is authenticated by a token that binds the id made for it. -/
structure Authentic (m : Daemon Id Token) : Prop where
  /-- No message chooses the id that the token will be checked against. -/
  chosen : ∀ c sock, m.rx.sock c = some sock → sock.isOpen = true → sock.auth = false →
    sock.id = m.generated .rx c
  rx : ∀ c sock, m.rx.sock c = some sock → sock.auth = true →
    ∃ token, m.proof .rx c = some token ∧ Binds unetd token (m.generated .rx c)
  tx : ∀ c sock, m.tx.sock c = some sock → sock.auth = true →
    ∃ token, m.proof .tx c = some token ∧ Binds unetd token (m.generated .tx c)
  /-- A token authenticates no second channel. -/
  once : ∀ role role' c c' token, m.proof role c = some token → m.proof role' c' = some token →
    role = role' ∧ c = c'

/-- What the clean events keep. -/
structure Inv (m : Daemon Id Token) : Prop where
  idle : ∀ c id, m.rx.identity c = some (id, false) →
    ∃ i, id = some i ∧ m.generated .rx c = some i
  known : ∀ c id, m.rx.identity c = some (id, true) → ∃ token, m.proof .rx c = some token
  binds : ∀ c token, m.proof .rx c = some token → Binds unetd token (m.generated .rx c)
  present : ∀ c, m.rx.identity c = none → m.generated .rx c = none
  fresh : ∀ c d i, m.generated .rx c = some i → m.generated .rx d = some i → c = d
  txGenerated : ∀ c, m.generated .tx c = none
  txProof : ∀ c, m.proof .tx c = none
  txAuth : m.tx.NoneAuth

section Invariant

variable {m : Daemon Id Token}

theorem Inv.authentic (hm : Inv unetd m) : Authentic unetd m where
  chosen c sock hsock _ hauth := by
    obtain ⟨i, hid, hgenerated⟩ := hm.idle c sock.id (by simp [State.identity, hsock, hauth])
    rw [hid, hgenerated]
  rx c sock hsock hauth := by
    obtain ⟨token, htoken⟩ := hm.known c sock.id (by simp [State.identity, hsock, hauth])
    exact ⟨token, htoken, hm.binds c token htoken⟩
  tx c sock hsock hauth := by
    rw [hm.txAuth c sock hsock] at hauth
    cases hauth
  once role role' c c' token hfirst hsecond := by
    cases role with
    | tx => simp [hm.txProof] at hfirst
    | rx =>
      cases role' with
      | tx => simp [hm.txProof] at hsecond
      | rx =>
        -- the token binds one id, which was made for one connection
        obtain ⟨t, data, i, rfl, hparse, hid, hc⟩ := hm.binds c token hfirst
        obtain ⟨t', data', i', ht', hparse', hid', hc'⟩ := hm.binds c' _ hsecond
        cases ht'
        rw [hparse] at hparse'
        cases hparse'
        rw [hid] at hid'
        cases hid'
        exact ⟨rfl, hm.fresh c c' i hc hc'⟩

theorem Inv.of_isInit (hinit : IsInit m) : Inv unetd m where
  idle c id h := by simp [State.identity, hinit.rx] at h
  known c id h := by simp [State.identity, hinit.rx] at h
  binds c token h := by simp [hinit.proof] at h
  present c _ := hinit.generated .rx c
  fresh c d i h := by simp [hinit.generated] at h
  txGenerated := hinit.generated .tx
  txProof := hinit.proof .tx
  txAuth c sock h := by simp [hinit.tx] at h

theorem Inv.of_identity (hm : Inv unetd m) {rx : State Id} (hrx : rx.identity = m.rx.identity) :
    Inv unetd { m with rx } where
  idle c id h := hm.idle c id (hrx ▸ h)
  known c id h := hm.known c id (hrx ▸ h)
  binds := hm.binds
  present c h := hm.present c (hrx ▸ h)
  fresh := hm.fresh
  txGenerated := hm.txGenerated
  txProof := hm.txProof
  txAuth := hm.txAuth

theorem Inv.of_tx (hm : Inv unetd m) {tx : Sender Id Token} (htx : tx.NoneAuth) :
    Inv unetd { m with tx } where
  idle := hm.idle
  known := hm.known
  binds := hm.binds
  present := hm.present
  fresh := hm.fresh
  txGenerated := hm.txGenerated
  txProof := hm.txProof
  txAuth := htx

/-- A connection gets an id that was made for none before. -/
theorem Inv.accept (hm : Inv unetd m) {rx : State Id} {c : Conn} {id : Id}
    (hnew : m.rx.sock c = none) (hfresh : ∀ role d, m.generated role d ≠ some id)
    (hrx : rx.identity = Function.update m.rx.identity c (some (some id, false))) :
    Inv unetd { m.setGenerated .rx c id with rx } where
  idle d i h := by
    dsimp only [setGenerated]
    rw [hrx] at h
    by_cases hd : d = c
    · subst hd
      simp only [Function.update_self, Option.some.injEq, Prod.mk.injEq, and_true] at h
      exact ⟨id, h.symm, if_pos ⟨rfl, rfl⟩⟩
    · rw [Function.update_of_ne hd] at h
      rw [if_neg fun hc => hd hc.2]
      exact hm.idle d i h
  known d i h := by
    rw [hrx] at h
    by_cases hd : d = c
    · subst hd
      simp at h
    · rw [Function.update_of_ne hd] at h
      exact hm.known d i h
  binds d token h := by
    obtain ⟨t, data, i, ht, hparse, hid, hgenerated⟩ := hm.binds d token h
    have hd : d ≠ c := by
      rintro rfl
      rw [hm.present d (by simp [State.identity, hnew])] at hgenerated
      cases hgenerated
    refine ⟨t, data, i, ht, hparse, hid, ?_⟩
    dsimp only [setGenerated]
    rwa [if_neg fun hc => hd hc.2]
  present d h := by
    dsimp only [setGenerated]
    rw [hrx] at h
    by_cases hd : d = c
    · subst hd
      simp at h
    · rw [Function.update_of_ne hd] at h
      rw [if_neg fun hc => hd hc.2]
      exact hm.present d h
  fresh d e i hd he := by
    dsimp only [setGenerated] at hd he
    split at hd <;> split at he
    case isTrue.isTrue h h' => exact h.2.trans h'.2.symm
    case isTrue.isFalse =>
      cases hd
      exact absurd he (hfresh _ _)
    case isFalse.isTrue =>
      cases he
      exact absurd hd (hfresh _ _)
    case isFalse.isFalse => exact hm.fresh d e i hd he
  txGenerated d := by
    dsimp only [setGenerated]
    rw [if_neg (by simp)]
    exact hm.txGenerated d
  txProof := hm.txProof
  txAuth := hm.txAuth

end Invariant

variable [DecidableEq Id] (wildcard : String → String → Bool)

/-- An event of the opened channels. -/
def applyTx (s : Sender Id Token) : TxEvent Id Token → Sender Id Token
  | .connect network host serial => s.networkConnectPeer network host serial
  | .receive c request => s.receive unetd c request
  | .reply c token => s.authDataCb unetd c token
  | .replyDone c => s.authCb c
  | .close network host => s.networkTxClose network host
  | .disconnect c => s.disconnect c
  | .timeout c => s.timeout c
  | .clientPubsub client kind entries => s.clientPubsub client kind entries
  | .clientDisconnect client => s.clientDisconnect client

/-- The reply authenticates the opened channel. -/
def acceptsReply (s : Sender Id Token) (c : Conn) (token : Option Token) : Bool :=
  match s.sock c with
  | some sock => Sender.acceptsReply unetd c sock token
  | none => false

def note (m : Daemon Id Token) : DaemonEvent Id Token → Daemon Id Token
  | .rx network (.accept host serial id) => m.setGenerated .rx ⟨network, host, serial⟩ id
  | .rx network (.receive host serial (.auth token)) =>
    if m.rx.authenticates unetd ⟨network, host, serial⟩ token then
      m.setProof .rx ⟨network, host, serial⟩ token
    else m
  | .tx (.reply c token) => if acceptsReply unetd m.tx c token then m.setProof .tx c token else m
  | _ => m

def apply (m : Daemon Id Token) (event : DaemonEvent Id Token) : Daemon Id Token :=
  match event with
  | .rx network e => { m.note unetd event with rx := m.rx.apply unetd wildcard network e }
  | .tx e => { m.note unetd event with tx := applyTx unetd m.tx e }

/-- A new channel is a new object, and `gen_id` makes no id twice. -/
def Fresh (m : Daemon Id Token) : DaemonEvent Id Token → Prop
  | .rx network (.accept host serial id) =>
    m.rx.sock ⟨network, host, serial⟩ = none ∧ ∀ role c, m.generated role c ≠ some id
  | .tx (.connect network host (some n)) => m.tx.sock ⟨network, host, n⟩ = none
  | _ => True

def system : Lib.System (Daemon Id Token) (DaemonEvent Id Token) :=
  (Lib.System.ofTotal IsInit (apply unetd wildcard)).restrict Fresh

/-- The events that leave the check of ids alone: a hello brings no id but the one made for
its connection, and no reply is let in on an opened channel. -/
def Clean (m : Daemon Id Token) : DaemonEvent Id Token → Prop
  | .rx network (.receive host serial (.hello id)) =>
    m.rx.isPending ⟨network, host, serial⟩ = true →
      id = m.generated .rx ⟨network, host, serial⟩
  | .tx (.reply c token) => acceptsReply unetd m.tx c token = false
  | _ => True

section Step

variable {m : Daemon Id Token}

theorem Inv.authenticate (hm : Inv unetd m) {rx : State Id} {c : Conn} {sock : Sock Id}
    {token : Option Token} (hsock : m.rx.sock c = some sock)
    (hauth : m.rx.authenticates unetd c token = true)
    (hrx : rx.identity = Function.update m.rx.identity c (some (sock.id, true))) :
    Inv unetd { m.setProof .rx c token with rx } where
  idle d i h := by
    rw [hrx] at h
    by_cases hd : d = c
    · subst hd
      simp at h
    · rw [Function.update_of_ne hd] at h
      exact hm.idle d i h
  known d i h := by
    dsimp only [setProof]
    rw [hrx] at h
    by_cases hd : d = c
    · exact ⟨token, if_pos ⟨rfl, hd⟩⟩
    · rw [Function.update_of_ne hd] at h
      rw [if_neg fun hc => hd hc.2]
      exact hm.known d i h
  binds d t h := by
    dsimp only [setProof] at h
    split at h
    case isTrue hc =>
      obtain ⟨-, rfl⟩ := hc
      cases h
      simp only [State.authenticates, hsock, Bool.and_eq_true, Bool.not_eq_true'] at hauth
      obtain ⟨⟨-, hnot⟩, haccepts⟩ := hauth
      obtain ⟨i, hid, hgenerated⟩ := hm.idle d sock.id (by simp [State.identity, hsock, hnot])
      simp only [State.accepts, State.networkAuthValid, Bool.and_eq_true] at haccepts
      cases htoken : token with
      | none => simp [htoken] at haccepts
      | some t =>
        cases hparse : unetd.tokenParse t with
        | none => simp [htoken, hparse] at haccepts
        | some data =>
          simp only [htoken, Option.bind_some, hparse, Bool.and_eq_true, beq_iff_eq] at haccepts
          exact ⟨t, data, i, rfl, hparse, haccepts.1.2.trans hid, hgenerated⟩
    case isFalse => exact hm.binds d t h
  present d h := by
    rw [hrx] at h
    by_cases hd : d = c
    · subst hd
      simp at h
    · rw [Function.update_of_ne hd] at h
      exact hm.present d h
  fresh := hm.fresh
  txGenerated := hm.txGenerated
  txProof d := by
    dsimp only [setProof]
    rw [if_neg (by simp)]
    exact hm.txProof d
  txAuth := hm.txAuth

/-- A clean event keeps the invariant. -/
theorem Inv.apply (hm : Inv unetd m) {event : DaemonEvent Id Token} (hfresh : Fresh m event)
    (hclean : Clean unetd m event) : Inv unetd (m.apply unetd wildcard event) := by
  cases event with
  | rx network event =>
    cases event with
    | accept host serial id =>
      refine hm.accept unetd hfresh.1 hfresh.2 ?_
      funext d
      by_cases hd : d = ⟨network, host, serial⟩
      · subst hd
        simp [State.apply, State.networkAccept, State.identity]
      · simp [State.apply, State.networkAccept, State.identity, Function.update_of_ne hd]
    | receive host serial request =>
      cases request with
      | hello id =>
        refine hm.of_identity unetd ?_
        rw [State.apply, State.identity_receive_hello]
        split
        case isTrue hpending =>
          -- the id is set to what it is
          obtain ⟨sock, hsock, -, hauth⟩ := State.sock_of_isPending hpending
          have hold : m.rx.identity ⟨network, host, serial⟩ = some (sock.id, false) := by
            simp [State.identity, hsock, hauth]
          obtain ⟨i, hi, hgenerated⟩ := hm.idle _ _ hold
          have hid : id = sock.id := by rw [hclean hpending, hi, hgenerated]
          rw [hid, ← hold, Function.update_eq_self]
        case isFalse => rfl
      | auth token =>
        cases hauth : m.rx.authenticates unetd ⟨network, host, serial⟩ token with
        | true =>
          obtain ⟨sock, hsock⟩ := State.sock_of_authenticates unetd hauth
          have hnew := hm.authenticate unetd hsock hauth
            (State.identity_receive_auth unetd wildcard hsock hauth)
          simpa [Daemon.apply, Daemon.note, State.apply, hauth] using hnew
        | false =>
          have hidentity : (m.rx.receive unetd wildcard ⟨network, host, serial⟩
              (.auth token)).identity = m.rx.identity :=
            State.identity_receive_of_not unetd wildcard (fun _ h => by cases h) fun t ht => by
              cases ht
              exact hauth
          have hsame := hm.of_identity unetd hidentity
          simpa [Daemon.apply, Daemon.note, State.apply, hauth] using hsame
      | update kind name enabled =>
        exact hm.of_identity unetd (State.identity_receive_of_not unetd wildcard (fun _ h => by cases h) (fun _ h => by cases h))
      | data =>
        exact hm.of_identity unetd (State.identity_receive_of_not unetd wildcard (fun _ h => by cases h) (fun _ h => by cases h))
    | disconnect host serial => exact hm.of_identity unetd State.identity_disconnect
    | timeout host serial => exact hm.of_identity unetd State.identity_timeout
    | connectPeers => exact hm.of_identity unetd State.identity_networkConnectPeers
    | networkOpen peers => exact hm.of_identity unetd rfl
    | networkClose => exact hm.of_identity unetd State.identity_networkClose
    | networkUpdate peers => exact hm.of_identity unetd (State.identity_networkUpdate peers)
  | tx event =>
    cases event with
    | connect network host serial =>
      exact hm.of_tx unetd (hm.txAuth.networkConnectPeer network host serial)
    | receive c request => exact hm.of_tx unetd (hm.txAuth.receive unetd request)
    | reply c token =>
      have hrefused : acceptsReply unetd m.tx c token = false := hclean
      have hnote : m.note unetd (.tx (.reply c token)) = m := by simp [note, hrefused]
      have hsame : m.tx.authDataCb unetd c token = m.tx := by
        unfold Sender.authDataCb
        unfold acceptsReply at hrefused
        split
        · rfl
        · rename_i sock hsock
          rw [hsock] at hrefused
          exact if_neg (by simp [hrefused])
      unfold Daemon.apply
      simp only [hnote, applyTx, hsame]
      exact hm
    | replyDone c => exact hm.of_tx unetd hm.txAuth.authCb
    | close network host => exact hm.of_tx unetd (hm.txAuth.networkTxClose network host)
    | disconnect c => exact hm.of_tx unetd hm.txAuth.disconnect
    | timeout c => exact hm.of_tx unetd hm.txAuth.timeout
    | clientPubsub client kind entries =>
      exact hm.of_tx unetd (Sender.clientPubsub_keeps
        (fun s kind name id hs => Sender.NoneAuth.of_sock hs (Sender.sock_pubsubAdd ..))
        (fun _ _ _ hs => Sender.NoneAuth.of_sock hs rfl) client kind entries hm.txAuth)
    | clientDisconnect client =>
      exact hm.of_tx unetd (Sender.clientDisconnect_keeps
        (fun s kind name id hs => Sender.NoneAuth.of_sock hs (Sender.sock_pubsubDel ..))
        (fun _ _ _ hs => Sender.NoneAuth.of_sock hs rfl) client hm.txAuth)

/-- The first event that is not clean breaks the authentication. -/
theorem Inv.not_authentic (hm : Inv unetd m) {event : DaemonEvent Id Token}
    (hclean : ¬ Clean unetd m event) : ¬ Authentic unetd (m.apply unetd wildcard event) := by
  intro hauthentic
  unfold Clean at hclean
  split at hclean
  case h_1 network host serial id =>
    obtain ⟨hpending, hid⟩ := Classical.not_imp.mp hclean
    obtain ⟨sock, hsock, hopen, hauth⟩ := State.sock_of_isPending hpending
    refine hid (hauthentic.chosen ⟨network, host, serial⟩ { sock with id } ?_ hopen hauth)
    simp [Daemon.apply, State.apply, State.receive, State.modifySock, hsock, hopen, hauth]
  case h_2 c token =>
    rw [Bool.not_eq_false] at hclean
    unfold acceptsReply at hclean
    cases hsock : m.tx.sock c with
    | none => simp [hsock] at hclean
    | some sock =>
      have haccepts : Sender.acceptsReply unetd c sock token = true := by simpa [hsock] using hclean
      have hnew : (m.apply unetd wildcard (.tx (.reply c token))).tx.sock c =
          some { sock with auth := true, timer := false } := by
        simp [Daemon.apply, applyTx, Sender.authDataCb, hsock, haccepts, Sender.send]
      have hnone : (m.apply unetd wildcard (.tx (.reply c token))).generated .tx c = none := by
        simp only [Daemon.apply, note, acceptsReply, hsock, haccepts, if_true]
        exact hm.txGenerated c
      -- no id is ever made for an opened channel
      obtain ⟨t, -, t', data, i, -, -, -, hid⟩ := hauthentic.tx c _ hnew rfl
      rw [hnone] at hid
      cases hid
  case h_3 => exact hclean trivial

/-- Along every run of clean events, every channel is authenticated by a token that binds
the id made for it, and for it alone; the next event keeps this exactly when it is clean. -/
theorem authentic_iff_clean {m : Daemon Id Token}
    (hreach : ((system unetd wildcard).restrict (Clean unetd)).Reachable m) :
    Authentic unetd m ∧ ∀ event m', (system unetd wildcard).step m event m' →
      (Authentic unetd m' ↔ Clean unetd m event) := by
  have hm : Inv unetd m := by
    refine hreach.invariant (fun m (hinit : IsInit m) => Inv.of_isInit unetd hinit) ?_
    rintro source event target hsource ⟨hclean, hfresh, rfl⟩
    exact hsource.apply unetd wildcard hfresh hclean
  refine ⟨hm.authentic, ?_⟩
  rintro event m' ⟨hfresh, rfl⟩
  constructor
  · intro hauthentic
    by_contra hclean
    exact hm.not_authentic unetd wildcard hclean hauthentic
  · exact fun hclean => (hm.apply unetd wildcard hfresh hclean).authentic

end Step

end Daemon

end Auth

/-! ## A recorded token -/

namespace Daemon

/-- A daemon that knows no network. -/
def atStart : Daemon ℕ (TokenData ℕ) where
  rx := started
  tx :=
    { sock := fun _ => none
      tx := fun _ _ => none
      table := fun _ => ⟨[], fun _ => []⟩
      clients := fun _ => none
      out := fun _ => [] }
  generated _ _ := none
  proof _ _ := none

def after (m : Daemon ℕ (TokenData ℕ)) (events : List (DaemonEvent ℕ (TokenData ℕ))) :
    Daemon ℕ (TokenData ℕ) :=
  events.foldl (apply plainUnetd fun _ _ => true) m

/-- Host `x` connects and authenticates with a token for the id it was given. -/
def joined : Daemon ℕ (TokenData ℕ) :=
  atStart.after ((joins "x" 0 7).map (.rx "a"))

/-- Someone connects from the same host, brings the id of the first connection and the
token that was sent on it. -/
def replayed : Daemon ℕ (TokenData ℕ) :=
  joined.after ([.accept "x" 1 8, .receive "x" 1 (.hello (some 7)),
    .receive "x" 1 (.auth (some ⟨"x", "root", some 7⟩))].map (.rx "a"))

/-- The daemon connects to host `x`, and the answer has a token for no id. -/
def answered : Daemon ℕ (TokenData ℕ) :=
  atStart.after ([.connect "a" "x" (some 0), .receive ⟨"a", "x", 0⟩ (.hello (some 9)),
    .reply ⟨"a", "x", 0⟩ (some ⟨"x", "root", none⟩)].map .tx)

theorem atStart_isInit : IsInit atStart :=
  ⟨fun _ => rfl, fun _ => rfl, fun _ _ => rfl, fun _ _ => rfl⟩

theorem reachable_after {m : Daemon ℕ (TokenData ℕ)} {events : List (DaemonEvent ℕ (TokenData ℕ))}
    (hm : (system plainUnetd fun _ _ => true).Reachable m)
    (hfresh : Lib.Along (apply plainUnetd fun _ _ => true) Fresh events m) :
    (system plainUnetd fun _ _ => true).Reachable (m.after events) := by
  have hstep : ∀ (m : Daemon ℕ (TokenData ℕ)) event, Fresh m event →
      (system plainUnetd fun _ _ => true).step m event
        (m.apply plainUnetd (fun _ _ => true) event) := fun _ _ h => ⟨h, rfl⟩
  exact Lib.System.reachable_of_along hstep hm hfresh

/-- The first connection is authenticated as it should be. -/
theorem authentic_of_joined :
    Authentic plainUnetd joined ∧ joined.rx.identity ⟨"a", "x", 0⟩ = some (some 7, true) := by
  have hclean : Lib.Along (apply plainUnetd fun _ _ => true)
      (fun m event => Clean plainUnetd m event ∧ Fresh m event)
      ((joins "x" 0 7).map (.rx "a")) atStart :=
    ⟨⟨trivial, trivial⟩, ⟨trivial, rfl, nofun⟩, ⟨trivial, trivial⟩, trivial⟩
  have hstep : ∀ (m : Daemon ℕ (TokenData ℕ)) event, Clean plainUnetd m event ∧ Fresh m event →
      ((system plainUnetd fun _ _ => true).restrict (Clean plainUnetd)).step m event
        (m.apply plainUnetd (fun _ _ => true) event) := fun _ _ h => ⟨h.1, h.2, rfl⟩
  refine ⟨(authentic_iff_clean plainUnetd (fun _ _ => true)
    (Lib.System.reachable_of_along hstep (.start atStart_isInit) hclean)).1, by decide⟩

/-- The recorded token authenticates the second connection, and a token for no id
authenticates the opened channel. -/
theorem not_authentic_of_replay :
    ((system plainUnetd fun _ _ => true).Reachable replayed ∧ ¬ Authentic plainUnetd replayed) ∧
      (system plainUnetd fun _ _ => true).Reachable answered ∧
        ¬ Authentic plainUnetd answered := by
  have hjoined : (system plainUnetd fun _ _ => true).Reachable joined :=
    reachable_after (.start atStart_isInit) ⟨trivial, ⟨rfl, nofun⟩, trivial, trivial⟩
  refine ⟨⟨reachable_after hjoined ⟨⟨by rfl, ?_⟩, trivial, trivial, trivial⟩, fun h => ?_⟩,
    reachable_after (.start atStart_isInit) ⟨rfl, trivial, trivial, trivial⟩, fun h => ?_⟩
  · intro role c hid
    change (if role = .rx ∧ c = ⟨"a", "x", 0⟩ then some 7 else none) = some 8 at hid
    split at hid <;> simp at hid
  · have hsame := (h.once .rx .rx ⟨"a", "x", 0⟩ ⟨"a", "x", 1⟩ (some ⟨"x", "root", some 7⟩)
      (by decide) (by decide)).2
    exact absurd hsame (by decide)
  · obtain ⟨token, -, t, data, i, -, -, -, hid⟩ := h.tx ⟨"a", "x", 0⟩ ⟨true, true, 1, false, false⟩
      (by decide) rfl
    cases hid

end Daemon

end OpenWrt.Unetmsg
