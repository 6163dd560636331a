/-
# The fan-out of a request

A request for a name is handed to all handles that publish it: those of local clients, and,
unless it came from a remote host itself, those of remote hosts. The requester gets the
answers as they come and one final reply, for which the daemon counts the sub-requests that
are not finished. A sub-request can fail while the loop that starts them is still running.

Requests arrive with the tables and channels that the daemon has at that moment; the
sub-requests of all of them finish in any order. A call of `chan.defer` runs its callback
once, at once or later.
-/

import Mathlib.Data.Int.Notation
import OpenWrt.Lib.Run
import OpenWrt.Unetmsg.Remote

namespace OpenWrt.Unetmsg

open OpenWrt.Lib

/-! ## Handles -/

/-- A handle of a table: of a local client, under its id, or of a remote host. -/
inductive Handle (Id : Type) where
  | client (id client : Id)
  | host (network name : String)
  deriving DecidableEq

/-- The `handle` of whoever sends: the fields that `get_handles` looks at. -/
structure SenderHandle (Id : Type) where
  id : Option Id
  client : Option Id

/-- What the daemon has when something is sent. -/
structure Core (Id Chan : Type) where
  /-- `publish[name]` and `subscribe[name]`: the ids of the handles with their clients. -/
  locals : Kind → String → List (Id × Id)
  /-- `remote_publish[name]` and `remote_subscribe[name]`: the hosts with their networks. -/
  remotes : Kind → String → Option (List (String × String))
  /-- The channel of a client. -/
  clients : Id → Option Chan
  /-- The channel in `tx_channels` of a network, by host. -/
  txChannels : String → String → Option Chan

namespace Core

variable {Id Chan : Type} [DecidableEq Id] (core : Core Id Chan)

/-- `get_handles` -/
def getHandles (handle : Option (SenderHandle Id)) (locals : List (Id × Id))
    (remote : Option (List (String × String))) (host : Option String) : List (Handle Id) :=
  let remote := if host = some "" then some [] else remote
  let locals := if host ≠ some "" ∧ host ≠ none then [] else locals
  let handles := locals.filterMap fun cur =>
    if handle.any fun handle =>
      decide (handle.id = some cur.1) ||
        handle.client.any fun client => decide (client = cur.2) then none
    else some (Handle.client cur.1 cur.2)
  match remote with
  | none => handles
  | some remote =>
    handles ++ (remote.filter fun cur => host.all fun host => decide (cur.1 = host)).map
      fun cur => Handle.host cur.2 cur.1

/-- `get_channel` of both kinds of handles. -/
def getChannel : Handle Id → Option Chan
  | .client _ client => core.clients client
  | .host network name => core.txChannels network name

def handles (kind : Kind) (handle : Option (SenderHandle Id)) (name : String) (remote : Bool)
    (host : Option String) : List (Handle Id) :=
  getHandles handle (core.locals kind name) (if remote then core.remotes kind name else none)
    host

end Core

/-! ## One request -/

/-- What the daemon does for a request: call a handle, pass an answer on, end it. -/
inductive Action (Id Chan Data : Type) where
  | call (cur : Handle Id) (chan : Chan)
  | reply (data : Data)
  | final (status : ℕ)

/-- `context` with the sub-requests whose callback has not run. -/
structure Context (Id Chan Data : Type) where
  pending : ℤ
  inFlight : List (ℕ × Handle Id)
  trace : List (Action Id Chan Data)

namespace Context

variable {Id Chan Data : Type} [DecidableEq Id] (core : Core Id Chan)

/-- `cb` -/
def cb (context : Context Id Chan Data) : Context Id Chan Data :=
  let context := { context with pending := context.pending - 1 }
  if 0 < context.pending then context
  else { context with trace := context.trace ++ [.final 0] }

/-- `get_response_data`, where the handle has it: the answer of a host is marked with its
network and name. -/
def getResponseData (mark : String → String → Data → Data) : Handle Id → Data → Data
  | .client _ _, data => data
  | .host network name, data => mark network name data

/-- One turn of the loop of `handle_request`. `atOnce` are the calls of `chan.defer` that run
the callback before they return. -/
def callHandle (atOnce : ℕ → Bool) (context : Context Id Chan Data) (entry : Handle Id × ℕ) :
    Context Id Chan Data :=
  match core.getChannel entry.1 with
  | none => context.cb
  | some chan =>
    let context : Context Id Chan Data :=
      { context with trace := context.trace ++ [.call entry.1 chan] }
    if atOnce entry.2 then context.cb
    else { context with inFlight := context.inFlight ++ [(entry.2, entry.1)] }

/-- `handle_request`: the context it leaves and the status it returns, which is none when
the reply is deferred. -/
def handleRequest (atOnce : ℕ → Bool) (handle : Option (SenderHandle Id)) (name : String)
    (remote : Bool) (host : Option String) : Context Id Chan Data × Option ℕ :=
  let handles := core.handles .publish handle name remote host
  if handles.length = 0 then (⟨0, [], []⟩, some 0)
  else (handles.zipIdx.foldl (callHandle core atOnce) ⟨handles.length, [], []⟩, none)

/-- A request that is not deferred ends with the status that its handler returns. -/
def conclude (result : Context Id Chan Data × Option ℕ) : Context Id Chan Data :=
  match result.2 with
  | none => result.1
  | some status => { result.1 with trace := result.1.trace ++ [.final status] }

end Context

/-! ## Where requests come from -/

/-- `STATUS_INVALID_ARGUMENT`, `STATUS_NO_DATA` and `STATUS_PERMISSION_DENIED`. -/
def statusInvalidArgument : ℕ := 2

@[inherit_doc statusInvalidArgument]
def statusNoData : ℕ := 5

@[inherit_doc statusInvalidArgument]
def statusPermissionDenied : ℕ := 6

/-- The arguments of a request. What has not the type that is asked for is `none`. -/
structure Args (Data : Type) where
  name : Option String
  type : Option String
  data : Option Data
  host : Option String

/-- The client of a request: its id, the id of its subscription to the name, and whether its
access list lets it subscribe to the name. -/
structure Requester (Id : Type) where
  id : Id
  subscription : Option Id
  allowed : Bool

/-- A request reaches the daemon from a client, from a remote host, whose network the daemon
may have left, or by a call of its ubus method. -/
inductive Origin (Id : Type) where
  | client (requester : Requester Id)
  | remote (host : String) (known : Bool)
  | method

/-- A request with what the daemon has when it comes. -/
structure Arrival (Id Chan Data : Type) where
  core : Core Id Chan
  origin : Origin Id
  args : Args Data
  /-- The calls of `chan.defer` that run the callback before they return. -/
  atOnce : ℕ → Bool

namespace Arrival

variable {Id Chan Data : Type} [DecidableEq Id]

/-- `client_request` for a request. The handle is the client's subscription or one made up,
and has the client's id either way. -/
def clientRequest (arrival : Arrival Id Chan Data) (requester : Requester Id) :
    Context Id Chan Data :=
  match arrival.args.name, arrival.args.type, arrival.args.data with
  | some name, some _, some _ =>
    if requester.subscription = none ∧ requester.allowed = false then
      Context.conclude (⟨0, [], []⟩, some statusPermissionDenied)
    else
      Context.conclude (Context.handleRequest arrival.core arrival.atOnce
        (some ⟨none, some requester.id⟩) name true arrival.args.host)
  | _, _, _ => Context.conclude (⟨0, [], []⟩, some statusInvalidArgument)

/-- `network_socket_handle_request` for a request. A name that is missing is looked up as
`null`. -/
def remoteRequest (arrival : Arrival Id Chan Data) (known : Bool) : Context Id Chan Data :=
  if known then
    Context.conclude (Context.handleRequest arrival.core arrival.atOnce none
      (arrival.args.name.getD "null") false none)
  else Context.conclude (⟨0, [], []⟩, some statusNoData)

/-- The ubus method `request`, which returns nothing whatever `handle_request` returns. -/
def methodRequest (arrival : Arrival Id Chan Data) : Context Id Chan Data :=
  let result := Context.handleRequest arrival.core arrival.atOnce none
    (arrival.args.name.getD "null") true arrival.args.host
  Context.conclude (result.1, result.2.map fun _ => statusNoData)

/-- What the daemon does when the request comes. -/
def start (arrival : Arrival Id Chan Data) : Context Id Chan Data :=
  match arrival.origin with
  | .client requester => arrival.clientRequest requester
  | .remote _ known => arrival.remoteRequest known
  | .method => arrival.methodRequest

end Arrival

/-! ## All requests -/

/-- What can happen: a request comes, a sub-request answers, a sub-request finishes. -/
inductive Label (Id Chan Data : Type) where
  | arrive (arrival : Arrival Id Chan Data)
  | answer (request index : ℕ) (data : Data)
  | finish (request index : ℕ)

section System

variable {Id Chan Data : Type} [DecidableEq Id] (mark : String → String → Data → Data)

/-- `data_cb` of a sub-request that is not finished. -/
def Context.dataCb (index : ℕ) (data : Data) (context : Context Id Chan Data) :
    Option (Context Id Chan Data) :=
  (context.inFlight.lookup index).map fun cur =>
    { context with trace := context.trace ++ [.reply (getResponseData mark cur data)] }

/-- The end of a sub-request that is not finished. -/
def Context.finish (index : ℕ) (context : Context Id Chan Data) :
    Option (Context Id Chan Data) :=
  (context.inFlight.lookup index).map fun _ =>
    { context with inFlight := context.inFlight.eraseP fun entry => entry.1 = index }.cb

/-- The requests with their contexts, in the order in which they came. -/
abbrev World (Id Chan Data : Type) := List (Arrival Id Chan Data × Context Id Chan Data)

def World.modify (request : ℕ)
    (change : Context Id Chan Data → Option (Context Id Chan Data))
    (world : World Id Chan Data) : Option (World Id Chan Data) :=
  world[request]?.bind fun entry =>
    (change entry.2).map fun context => world.set request (entry.1, context)

/-- One step of the daemon. -/
def World.next (world : World Id Chan Data) :
    Label Id Chan Data → Option (World Id Chan Data)
  | .arrive arrival => some (world ++ [(arrival, arrival.start)])
  | .answer request index data => world.modify request (Context.dataCb mark index data)
  | .finish request index => world.modify request (Context.finish index)

/-- The daemon without requests and its steps. -/
def requests : System (World Id Chan Data) (Label Id Chan Data) :=
  .ofFn (fun world => world = []) (World.next mark)

end System

/-! ## Which handles are called -/

section Handles

variable {Id Chan : Type} [DecidableEq Id]

/-- The filter of a host lets the handle through: none lets all through, the empty one local
clients, and any other the host itself. -/
def HostAllows {Id : Type} (host : Option String) (cur : Handle Id) : Prop :=
  match host with
  | none => True
  | some "" => ∃ id client, cur = .client id client
  | some name => ∃ network, cur = .host network name

/-- A handle that is given out is in the tables, passes the filter of the host, is remote only
if remote handles are asked for, and is not the sender's. -/
theorem mem_handles {core : Core Id Chan} {kind : Kind} {handle : Option (SenderHandle Id)}
    {name : String} {remote : Bool} {host : Option String} {cur : Handle Id}
    (h : cur ∈ core.handles kind handle name remote host) :
    HostAllows host cur ∧
      match cur with
      | .client id client => (id, client) ∈ core.locals kind name ∧
          ∀ sender ∈ handle, sender.id ≠ some id ∧ sender.client ≠ some client
      | .host network hostName => remote = true ∧
          ∃ table, core.remotes kind name = some table ∧ (hostName, network) ∈ table := by
  have hlocal : ∀ {cur : Handle Id},
      cur ∈ ((if host ≠ some "" ∧ host ≠ none then [] else core.locals kind name).filterMap
        fun entry =>
          if handle.any fun handle =>
            decide (handle.id = some entry.1) ||
              handle.client.any fun client => decide (client = entry.2) then none
          else some (Handle.client entry.1 entry.2)) →
      HostAllows host cur ∧ ∃ id client, cur = .client id client ∧
        (id, client) ∈ core.locals kind name ∧
          ∀ sender ∈ handle, sender.id ≠ some id ∧ sender.client ≠ some client := by
    intro cur hcur
    obtain ⟨⟨id, client⟩, hmem, hsome⟩ := List.mem_filterMap.mp hcur
    by_cases hhost : host ≠ some "" ∧ host ≠ none
    · rw [if_pos hhost] at hmem
      exact absurd hmem List.not_mem_nil
    · rw [if_neg hhost] at hmem
      split at hsome
      · exact absurd hsome (by simp)
      · rename_i hother
        obtain rfl : Handle.client id client = cur := by simpa using hsome
        refine ⟨?_, id, client, rfl, hmem, fun sender hsender => ⟨?_, ?_⟩⟩
        · by_cases hnone : host = none
          · rw [hnone]
            trivial
          · have hempty : host = some "" := by
              by_contra hne
              exact hhost ⟨hne, hnone⟩
            rw [hempty]
            exact ⟨id, client, rfl⟩
        · intro hid
          apply hother
          rw [Option.mem_def.mp hsender]
          simp [hid]
        · intro hclient
          apply hother
          rw [Option.mem_def.mp hsender]
          simp [hclient]
  unfold Core.handles Core.getHandles at h
  dsimp only at h
  by_cases hempty : host = some ""
  · rw [if_pos hempty] at h
    dsimp only at h
    rw [List.filter_nil, List.map_nil, List.append_nil] at h
    obtain ⟨hhost, id, client, rfl, hrest⟩ := hlocal h
    exact ⟨hhost, hrest⟩
  · rw [if_neg hempty] at h
    cases hremote : (if remote = true then core.remotes kind name else none) with
    | none =>
      rw [hremote] at h
      obtain ⟨hhost, id, client, rfl, hrest⟩ := hlocal h
      exact ⟨hhost, hrest⟩
    | some table =>
      rw [hremote] at h
      rcases List.mem_append.mp h with h | h
      · obtain ⟨hhost, id, client, rfl, hrest⟩ := hlocal h
        exact ⟨hhost, hrest⟩
      · obtain ⟨⟨hostName, network⟩, hentry, rfl⟩ := List.mem_map.mp h
        obtain ⟨hmem, hname⟩ := List.mem_filter.mp hentry
        have htrue : remote = true := by
          by_contra hfalse
          rw [if_neg hfalse] at hremote
          exact absurd hremote (by simp)
        rw [if_pos htrue] at hremote
        refine ⟨?_, htrue, table, hremote, hmem⟩
        cases host with
        | none => trivial
        | some name =>
          have hne : name ≠ "" := fun hnil => hempty (by rw [hnil])
          have hsame : hostName = name := by simpa using hname
          subst hsame
          unfold HostAllows
          split
          · trivial
          · rename_i heq
            exact absurd (Option.some.inj heq) hne
          · rename_i heq
            exact ⟨network, by rw [Option.some.inj heq]⟩

end Handles

/-! ## How a request ends -/

section Ending

variable {Id Chan Data : Type}

/-- The action ends the request. -/
def Action.isFinal : Action Id Chan Data → Bool
  | .final _ => true
  | _ => false

namespace Context

/-- No final reply is sent. -/
def Silent (context : Context Id Chan Data) : Prop :=
  ∀ action ∈ context.trace, action.isFinal = false

/-- One final reply is sent, and nothing after it. -/
def Answered (context : Context Id Chan Data) : Prop :=
  ∃ before status, context.trace = before ++ [.final status] ∧
    ∀ action ∈ before, action.isFinal = false

/-- The counter is at `n`: above zero the request is silent, at zero it is answered. -/
structure CountsTo (n : ℕ) (context : Context Id Chan Data) : Prop where
  pending : context.pending = n
  silent : n ≠ 0 → context.Silent
  answered : n = 0 → context.Answered

def CallsOnly (P : Handle Id → Prop) (context : Context Id Chan Data) : Prop :=
  ∀ cur chan, Action.call cur chan ∈ context.trace → P cur

variable {core : Core Id Chan} {atOnce : ℕ → Bool} {context : Context Id Chan Data} {n : ℕ}
  {P : Handle Id → Prop}

@[simp]
theorem inFlight_cb (context : Context Id Chan Data) : context.cb.inFlight = context.inFlight := by
  unfold cb
  dsimp only
  split <;> rfl

theorem Silent.append {action : Action Id Chan Data} (h : context.Silent)
    (haction : action.isFinal = false) :
    Silent { context with trace := context.trace ++ [action] } := by
  intro other hother
  rcases List.mem_append.mp hother with hother | hother
  · exact h other hother
  · rw [List.mem_singleton.mp hother]
    exact haction

/-- The callback takes one from the counter, and ends the request at zero. -/
theorem CountsTo.cb (h : context.CountsTo (n + 1)) : context.cb.CountsTo n := by
  have hsilent := h.silent (Nat.succ_ne_zero n)
  have hpending := h.pending
  unfold Context.cb
  dsimp only
  by_cases hn : n = 0
  · rw [if_neg (by omega)]
    refine ⟨by dsimp only; omega, fun h => absurd hn h, fun _ => ?_⟩
    exact ⟨context.trace, 0, rfl, hsilent⟩
  · rw [if_pos (by omega)]
    exact ⟨by dsimp only; omega, fun _ => hsilent, fun h => absurd h hn⟩

theorem CountsTo.append {action : Action Id Chan Data} (h : context.CountsTo n) (hn : n ≠ 0)
    (haction : action.isFinal = false) :
    CountsTo n { context with trace := context.trace ++ [action] } :=
  ⟨h.pending, fun _ => (h.silent hn).append haction, fun hzero => absurd hzero hn⟩

/-- One turn of the loop: what is counted are the sub-requests that run and the handles that
are left. -/
theorem CountsTo.callHandle {left : ℕ} {entry : Handle Id × ℕ}
    (h : context.CountsTo (context.inFlight.length + (left + 1))) :
    (Context.callHandle core atOnce context entry).CountsTo
      ((Context.callHandle core atOnce context entry).inFlight.length + left) := by
  unfold Context.callHandle
  cases hchan : core.getChannel entry.1 with
  | none =>
    dsimp only
    rw [inFlight_cb]
    exact h.cb
  | some chan =>
    have hcalled := h.append (Nat.succ_ne_zero _) (show (Action.call entry.1 chan).isFinal = false
      from rfl)
    dsimp only
    by_cases honce : atOnce entry.2 = true
    · rw [if_pos honce, inFlight_cb]
      exact hcalled.cb
    · rw [if_neg honce]
      have hlength : (context.inFlight ++ [(entry.2, entry.1)]).length + left =
          context.inFlight.length + (left + 1) := by
        rw [List.length_append, List.length_singleton, Nat.add_assoc, Nat.add_comm left]
      dsimp only
      rw [hlength]
      exact ⟨hcalled.pending, hcalled.silent, hcalled.answered⟩

theorem CountsTo.foldl {entries : List (Handle Id × ℕ)}
    (h : context.CountsTo (context.inFlight.length + entries.length)) :
    (entries.foldl (Context.callHandle core atOnce) context).CountsTo
      (entries.foldl (Context.callHandle core atOnce) context).inFlight.length := by
  induction entries generalizing context with
  | nil => exact h
  | cons entry entries ih =>
    rw [List.foldl_cons]
    exact ih h.callHandle

theorem CallsOnly.cb (h : context.CallsOnly P) : context.cb.CallsOnly P := by
  unfold Context.cb
  dsimp only
  split
  · exact h
  · intro cur chan hmem
    rcases List.mem_append.mp hmem with hmem | hmem
    · exact h cur chan hmem
    · exact absurd (List.mem_singleton.mp hmem) (by simp)

theorem CallsOnly.callHandle {entry : Handle Id × ℕ} (h : context.CallsOnly P)
    (hentry : P entry.1) : (Context.callHandle core atOnce context entry).CallsOnly P := by
  unfold Context.callHandle
  split
  · exact h.cb
  · rename_i chan hchan
    have hcalled : CallsOnly P
        { context with trace := context.trace ++ [.call entry.1 chan] } := by
      intro cur other hmem
      rcases List.mem_append.mp hmem with hmem | hmem
      · exact h cur other hmem
      · obtain ⟨rfl, -⟩ := Action.call.inj (List.mem_singleton.mp hmem)
        exact hentry
    dsimp only
    split
    · exact hcalled.cb
    · exact hcalled

theorem CallsOnly.foldl {entries : List (Handle Id × ℕ)} (h : context.CallsOnly P)
    (hentries : ∀ entry ∈ entries, P entry.1) :
    (entries.foldl (Context.callHandle core atOnce) context).CallsOnly P := by
  induction entries generalizing context with
  | nil => exact h
  | cons entry entries ih =>
    rw [List.foldl_cons]
    exact ih (h.callHandle (hentries entry List.mem_cons_self))
      fun other hother => hentries other (List.mem_cons_of_mem _ hother)

end Context

end Ending

namespace Context

variable {Id Chan Data : Type} {P : Handle Id → Prop}

/-- The request is counted right and calls such handles only. -/
structure Right (P : Handle Id → Prop) (context : Context Id Chan Data) : Prop where
  counts : context.CountsTo context.inFlight.length
  calls : context.CallsOnly P

theorem right_conclude_status (status : ℕ) :
    (conclude (⟨0, [], []⟩, some status) : Context Id Chan Data).Right P := by
  refine ⟨⟨rfl, fun h => absurd rfl h, fun _ => ⟨[], status, rfl, ?_⟩⟩, ?_⟩
  · exact fun action haction => absurd haction List.not_mem_nil
  · intro cur chan hmem
    exact absurd (List.mem_singleton.mp hmem) (by simp)

/-- `handle_request`, with any status for a request that nobody is there for. -/
theorem right_handleRequest [DecidableEq Id] {core : Core Id Chan} {atOnce : ℕ → Bool}
    {handle : Option (SenderHandle Id)} {name : String} {remote : Bool} {host : Option String}
    {context : Context Id Chan Data} {returned status : Option ℕ}
    (hresult : handleRequest core atOnce handle name remote host = (context, returned))
    (hstatus : status.isSome = returned.isSome)
    (hcalls : ∀ cur ∈ core.handles .publish handle name remote host, P cur) :
    (conclude (context, status)).Right P := by
  unfold handleRequest at hresult
  dsimp only at hresult
  by_cases hnone : (core.handles .publish handle name remote host).length = 0
  · rw [if_pos hnone] at hresult
    obtain ⟨rfl, rfl⟩ := Prod.mk.inj hresult
    obtain ⟨value, rfl⟩ := Option.isSome_iff_exists.mp hstatus
    exact right_conclude_status value
  · rw [if_neg hnone] at hresult
    obtain ⟨rfl, rfl⟩ := Prod.mk.inj hresult
    obtain rfl : status = none := by simpa using hstatus
    refine ⟨CountsTo.foldl ?_, CallsOnly.foldl ?_ fun entry hentry => hcalls entry.1 ?_⟩
    · rw [List.length_zipIdx, List.length_nil, Nat.zero_add]
      refine ⟨rfl, fun _ => ?_, fun hzero => absurd hzero hnone⟩
      exact fun action haction => absurd haction List.not_mem_nil
    · exact fun cur chan hmem => absurd hmem List.not_mem_nil
    · obtain ⟨hlt, heq⟩ := List.mem_zipIdx' hentry
      exact heq ▸ List.getElem_mem hlt

variable {mark : String → String → Data → Data} {context next : Context Id Chan Data} {index : ℕ}

theorem lookup_ne_nil {β : Type*} {entries : List (ℕ × β)} {cur : β}
    (h : entries.lookup index = some cur) : entries ≠ [] := by
  rintro rfl
  exact absurd h (by simp)

theorem Right.dataCb {data : Data} (h : context.Right P)
    (hnext : context.dataCb mark index data = some next) : next.Right P := by
  unfold Context.dataCb at hnext
  obtain ⟨cur, hlookup, rfl⟩ := Option.map_eq_some_iff.mp hnext
  have hpos : context.inFlight.length ≠ 0 := fun hzero =>
    lookup_ne_nil hlookup (List.eq_nil_of_length_eq_zero hzero)
  refine ⟨h.counts.append hpos rfl, fun other chan hmem => ?_⟩
  rcases List.mem_append.mp hmem with hmem | hmem
  · exact h.calls other chan hmem
  · exact absurd (List.mem_singleton.mp hmem) (by simp)

/-- A sub-request that is in flight is one of those that are counted. -/
theorem length_eraseP_lookup {β : Type*} {entries : List (ℕ × β)} {cur : β}
    (h : entries.lookup index = some cur) :
    entries.length = (entries.eraseP fun entry => entry.1 = index).length + 1 := by
  induction entries with
  | nil => exact absurd h (by simp)
  | cons entry entries ih =>
    by_cases hfirst : entry.1 = index
    · rw [List.eraseP_cons_of_pos (by simpa using hfirst)]
      rfl
    · rw [List.eraseP_cons_of_neg (by simpa using hfirst), List.length_cons, List.length_cons,
        ← ih ?_]
      rw [List.lookup_cons, beq_false_of_ne (Ne.symm hfirst)] at h
      exact h

theorem Right.finish (h : context.Right P) (hnext : context.finish index = some next) :
    next.Right P := by
  unfold Context.finish at hnext
  obtain ⟨cur, hlookup, rfl⟩ := Option.map_eq_some_iff.mp hnext
  have hlength := length_eraseP_lookup hlookup
  have hcounts := h.counts
  rw [hlength] at hcounts
  refine ⟨?_, CallsOnly.cb h.calls⟩
  rw [inFlight_cb]
  exact CountsTo.cb ⟨hcounts.pending, hcounts.silent, hcounts.answered⟩

end Context

/-! ## Every run -/

section Runs

variable {Id Chan Data : Type}

/-- What a request may call: the filter of the host lets it through, a handle of the
requester is not called, and a request of a remote host goes to local clients only. -/
def Arrival.Permits (arrival : Arrival Id Chan Data) (cur : Handle Id) : Prop :=
  match arrival.origin with
  | .client requester =>
    HostAllows arrival.args.host cur ∧ ∀ id, cur ≠ .client id requester.id
  | .remote _ _ => ∃ id client, cur = .client id client
  | .method => HostAllows arrival.args.host cur

/-- A request that has just come. -/
theorem Arrival.right_start [DecidableEq Id] (arrival : Arrival Id Chan Data) :
    arrival.start.Right arrival.Permits := by
  unfold Arrival.start Arrival.Permits
  cases horigin : arrival.origin with
  | client requester =>
    dsimp only
    unfold Arrival.clientRequest
    split
    · rename_i name type data hname htype hdata
      split
      · exact Context.right_conclude_status _
      · refine Context.right_handleRequest rfl rfl fun cur hcur => ?_
        obtain ⟨hhost, hcur⟩ := mem_handles hcur
        refine ⟨hhost, ?_⟩
        rintro handleId rfl
        exact (hcur.2 _ rfl).2 rfl
    · exact Context.right_conclude_status _
  | remote host known =>
    dsimp only
    unfold Arrival.remoteRequest
    split
    · refine Context.right_handleRequest rfl rfl fun cur hcur => ?_
      obtain ⟨-, hcur⟩ := mem_handles hcur
      cases cur with
      | client id client => exact ⟨id, client, rfl⟩
      | host network name => exact absurd hcur.1 Bool.false_ne_true
    · exact Context.right_conclude_status _
  | method =>
    dsimp only
    exact Context.right_handleRequest rfl (Option.isSome_map ..) fun cur hcur =>
      (mem_handles hcur).1

variable {mark : String → String → Data → Data} {world : World Id Chan Data}

/-- Every request is counted right and calls what it may. -/
def World.Right (world : World Id Chan Data) : Prop :=
  ∀ entry ∈ world, entry.2.Right entry.1.Permits

theorem World.Right.modify {request : ℕ}
    {change : Context Id Chan Data → Option (Context Id Chan Data)} {target : World Id Chan Data}
    (h : world.Right)
    (hchange : ∀ {P : Handle Id → Prop} {context next}, Context.Right P context →
      change context = some next → Context.Right P next)
    (htarget : world.modify request change = some target) : target.Right := by
  unfold World.modify at htarget
  obtain ⟨entry, hentry, htarget⟩ := Option.bind_eq_some_iff.mp htarget
  obtain ⟨context, hcontext, rfl⟩ := Option.map_eq_some_iff.mp htarget
  intro other hother
  rcases List.mem_or_eq_of_mem_set hother with hother | rfl
  · exact h other hother
  · exact hchange (h entry (List.mem_of_getElem? hentry)) hcontext

theorem right_of_reachable [DecidableEq Id] (h : (requests mark).Reachable world) : world.Right := by
  refine h.invariant ?_ fun source label target hright hstep => ?_
  · rintro world rfl entry hentry
    exact absurd hentry List.not_mem_nil
  · cases label with
    | arrive arrival =>
      obtain rfl := Option.some.inj hstep
      intro entry hentry
      rcases List.mem_append.mp hentry with hentry | hentry
      · exact hright entry hentry
      · rw [List.mem_singleton.mp hentry]
        exact arrival.right_start
    | answer request index data =>
      exact hright.modify (fun hcontext => hcontext.dataCb) hstep
    | finish request index =>
      exact hright.modify (fun hcontext => hcontext.finish) hstep

/-- Whatever has come and in whatever order sub-requests fail and finish, a request has
exactly one final reply when none of its sub-requests is left and none before, nothing is
done for it afterwards, and it calls only what it may. -/
theorem fanOut_right [DecidableEq Id] (h : (requests mark).Reachable world) :
    ∀ entry ∈ world,
      (entry.2.trace.filter Action.isFinal).length =
        (if entry.2.inFlight = [] then 1 else 0) ∧
      (∀ before action after, entry.2.trace = before ++ action :: after →
        action.isFinal = true → after = []) ∧
      ∀ cur chan, Action.call cur chan ∈ entry.2.trace → entry.1.Permits cur := by
  intro entry hentry
  obtain ⟨hcounts, hcalls⟩ := right_of_reachable h entry hentry
  by_cases hnone : entry.2.inFlight = []
  · obtain ⟨before, status, htrace, hsilent⟩ := hcounts.answered (by rw [hnone]; rfl)
    have hfilter : before.filter Action.isFinal = [] :=
      List.filter_eq_nil_iff.mpr fun action haction => by simp [hsilent action haction]
    refine ⟨?_, fun earlier action after heq hfinal => ?_, hcalls⟩
    · rw [if_pos hnone, htrace, List.filter_append, hfilter]
      rfl
    · rw [htrace, List.append_eq_append_iff] at heq
      rcases heq with ⟨rest, -, hlast⟩ | ⟨rest, hbefore, hlast⟩
      · cases rest with
        | nil => exact (List.cons.inj hlast).2.symm
        | cons other rest => exact absurd (List.cons.inj hlast).2 (by simp)
      · cases rest with
        | nil => exact (List.cons.inj hlast).2
        | cons other rest =>
          have hother := hsilent other (hbefore ▸ List.mem_append_right _ List.mem_cons_self)
          rw [← (List.cons.inj hlast).1, hfinal] at hother
          exact absurd hother.symm Bool.false_ne_true
  · have hsilent := hcounts.silent fun hzero => hnone (List.eq_nil_of_length_eq_zero hzero)
    refine ⟨?_, fun earlier action after heq hfinal => ?_, hcalls⟩
    · rw [if_neg hnone, List.length_eq_zero_iff, List.filter_eq_nil_iff]
      exact fun action haction => by simp [hsilent action haction]
    · have hmem : action ∈ entry.2.trace := heq ▸ List.mem_append_right _ List.mem_cons_self
      rw [hsilent action hmem] at hfinal
      exact absurd hfinal Bool.false_ne_true

end Runs

/-! ## A request of a client -/

/-- A client asks for a name that it publishes itself; so do a client that is there, one
whose channel is gone, and a host whose channel fails at once. -/
def sampleArrival : Arrival ℕ ℕ ℕ where
  core :=
    { locals := fun _ _ => [(4, 1), (5, 2), (6, 3)]
      remotes := fun _ _ => some [("peer", "net")]
      clients := fun client => if client = 3 then none else some (10 * client)
      txChannels := fun _ _ => some 40 }
  origin := .client ⟨1, none, true⟩
  args := ⟨some "name", some "type", some 0, none⟩
  atOnce := fun index => index = 2

/-- The request after the client that is there has answered. -/
def sampleWorld : World ℕ ℕ ℕ :=
  [(sampleArrival, ⟨0, [], [.call (.client 5 2) 20, .call (.host "net" "peer") 40, .reply 7,
    .final 0]⟩)]

theorem reachable_sampleWorld :
    (requests fun _ _ (data : ℕ) => data).Reachable sampleWorld :=
  System.reachable_of_foldlM (.start rfl)
    [.arrive sampleArrival, .answer 0 0 7, .finish 0 0] rfl

/-- It gets the answer and one final reply. -/
theorem fanOut_right_sample :
    (requests fun _ _ (data : ℕ) => data).Reachable sampleWorld ∧
      ∀ entry ∈ sampleWorld,
        (entry.2.trace.filter Action.isFinal).length =
          (if entry.2.inFlight = [] then 1 else 0) ∧
        (∀ before action after, entry.2.trace = before ++ action :: after →
          action.isFinal = true → after = []) ∧
        ∀ cur chan, Action.call cur chan ∈ entry.2.trace → entry.1.Permits cur :=
  ⟨reachable_sampleWorld, fanOut_right reachable_sampleWorld⟩

end OpenWrt.Unetmsg
