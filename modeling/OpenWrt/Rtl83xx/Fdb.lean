/-
# The forwarding database of the rtl83xx switches

An entry is added to the first place of its hash bucket that is free or already its own,
and to the CAM when the bucket is full. Deleting passes over the places that are not valid.
The index of the place is made from the key again before the write, by another way than
the one the read takes.
-/

import OpenWrt.Rtl83xx.Rtl838x
import OpenWrt.Rtl83xx.Rtl839x
import OpenWrt.Rtl83xx.Rtl930x
import OpenWrt.Rtl83xx.Rtl931x

namespace OpenWrt.Rtl83xx

def families : List Family := [Rtl838x.cfg, Rtl839x.cfg, Rtl930x.cfg, Rtl931x.cfg]

theorem exists_layout {F : Family} (hF : F ∈ families) : Nonempty (Layout F) := by
  simp only [families, List.mem_cons, List.not_mem_nil, or_false] at hF
  rcases hF with rfl | rfl | rfl | rfl
  · exact ⟨Rtl838x.layout⟩
  · exact ⟨Rtl839x.layout⟩
  · exact ⟨Rtl930x.layout⟩
  · exact ⟨Rtl931x.layout⟩

/-- The part of `struct rtl838x_switch_priv` that is read here, and the control register
that selects the hash algorithms. -/
structure Priv where
  r : Family
  l2Ctrl : U32
  lagmembers : U64
  lagNonPrimary : U64
  lagsPortMembers : ℕ → U64

/-- The loop over the hash bucket, from place `i` on. -/
def findL2HashEntryFrom (F : Family) (t : Tables) (key : U32) (seed : U64) (mustExist : Bool) :
    ℕ → ℕ → L2Entry → Option U32 × L2Entry
  | 0, _, e => (none, e)
  | left + 1, i, e =>
    let (e, entry) := F.readL2EntryUsingHash t key (BitVec.ofNat 32 i) e
    if mustExist && !e.valid then
      findL2HashEntryFrom F t key seed mustExist left (i + 1) e
    else if !e.valid || entry &&& seedMask == seed then
      (some (slotIndex key (BitVec.ofNat 32 i)), e)
    else findL2HashEntryFrom F t key seed mustExist left (i + 1) e

/-- `rtldsa_find_l2_hash_entry`. -/
def rtldsaFindL2HashEntry (priv : Priv) (t : Tables) (seed : U64) (mustExist : Bool)
    (e : L2Entry) : Option U32 × L2Entry :=
  findL2HashEntryFrom priv.r t (priv.r.l2HashKey priv.l2Ctrl seed) seed mustExist
    priv.r.l2BucketSize 0 e

/-- The loop over the CAM, from row `i` on. -/
def findL2CamEntryFrom (F : Family) (t : Tables) (seed : U64) (mustExist : Bool) :
    ℕ → ℕ → L2Entry → Option U32 × L2Entry
  | 0, _, e => (none, e)
  | left + 1, i, e =>
    let (e, entry) := F.readCam t (BitVec.ofNat 32 i) e
    if !mustExist && !e.valid then (some (BitVec.ofNat 32 i), e)
    else if entry &&& seedMask == seed then (some (BitVec.ofNat 32 i), e)
    else findL2CamEntryFrom F t seed mustExist left (i + 1) e

/-- Number of rows of the CAM. -/
def camSize : ℕ := 64

/-- `rtldsa_find_l2_cam_entry`. -/
def rtldsaFindL2CamEntry (priv : Priv) (t : Tables) (seed : U64) (mustExist : Bool)
    (e : L2Entry) : Option U32 × L2Entry :=
  findL2CamEntryFrom priv.r t seed mustExist camSize 0 e

/-- `MAX_LAGS`. -/
def maxLags : ℕ := 16

/-- `rtldsa_find_lag_group_from_port`. -/
def rtldsaFindLagGroupFromPort (priv : Priv) (port : ℕ) : Option ℕ :=
  if !priv.lagmembers.getLsbD port then none
  else (List.range maxLags).find? fun lagGroup => (priv.lagsPortMembers lagGroup).getLsbD port

/-- Mark the entry of a port in a LAG, where the family can. -/
def prepareLag (priv : Priv) (port : ℕ) (e : L2Entry) : Option L2Entry := do
  let lagGroup ← rtldsaFindLagGroupFromPort priv port
  let prepareLagFdb ← priv.r.prepareLagFdb
  some (prepareLagFdb e lagGroup)

/-- `-ENOTSUPP`. -/
def enotsupp : Int := -524

/-- `-ENOENT`. -/
def enoent : Int := -2

/-- The part of `rtldsa_port_fdb_add` under the register mutex. -/
def fdbAddLocked (priv : Priv) (t : Tables) (e : L2Entry) (port : ℕ) (mac : U64) (vid : U16) :
    Tables × Int :=
  let seed := priv.r.l2HashSeed mac (vid.setWidth 32)
  match rtldsaFindL2HashEntry priv t seed false e with
  | (some idx, _) =>
    (priv.r.writeL2EntryUsingHash priv.l2Ctrl t (idx >>> 2) (idx &&& 0x3)
      (rtldsaSetupL2UcEntry port vid mac), 0)
  | (none, e) =>
    -- hash buckets full, try CAM
    match rtldsaFindL2CamEntry priv t seed false e with
    | (some idx, _) => (priv.r.writeCam t idx (rtldsaSetupL2UcEntry port vid mac), 0)
    | (none, _) => (t, enotsupp)

/-- `rtldsa_port_fdb_add`; `e` is what the stack held in place of the entry. -/
def rtldsaPortFdbAdd (priv : Priv) (t : Tables) (e : L2Entry) (port : ℕ) (addr : Mac)
    (vid : U16) : Tables × Int :=
  let mac := etherAddrToU64 addr
  match prepareLag priv port e with
  | some e => fdbAddLocked priv t e port mac vid
  | none =>
    if priv.lagNonPrimary.getLsbD port then (t, 0)
    else fdbAddLocked priv t e port mac vid

/-- `rtldsa_port_fdb_del`. -/
def rtldsaPortFdbDel (priv : Priv) (t : Tables) (e : L2Entry) (port : ℕ) (addr : Mac)
    (vid : U16) : Tables × Int :=
  let seed := priv.r.l2HashSeed (etherAddrToU64 addr) (vid.setWidth 32)
  let e := (prepareLag priv port e).getD e
  match rtldsaFindL2HashEntry priv t seed true e with
  | (some idx, e) =>
    (priv.r.writeL2EntryUsingHash priv.l2Ctrl t (idx >>> 2) (idx &&& 0x3)
      { e with valid := false }, 0)
  | (none, e) =>
    -- check CAM for spillover from hash buckets
    match rtldsaFindL2CamEntry priv t seed true e with
    | (some idx, e) => (priv.r.writeCam t idx { e with valid := false }, 0)
    | (none, _) => (t, enoent)

/-- What is asked of the database. -/
inductive Request where
  | add
  | del
deriving DecidableEq

/-- One call, with what the stack held in place of the entry. -/
structure Call where
  request : Request
  port : ℕ
  key : Key
  stack : L2Entry

def Call.run (priv : Priv) (t : Tables) (call : Call) : Tables × Int :=
  match call.request with
  | .add => rtldsaPortFdbAdd priv t call.stack call.port call.key.addr call.key.vid
  | .del => rtldsaPortFdbDel priv t call.stack call.port call.key.addr call.key.vid

def apply (priv : Priv) (t : Tables) (call : Call) : Tables := (call.run priv t).1

def Call.NonLag (priv : Priv) (call : Call) : Prop :=
  call.port ≤ priv.r.cpuPort ∧ priv.lagmembers.getLsbD call.port = false ∧
    priv.lagNonPrimary.getLsbD call.port = false

end OpenWrt.Rtl83xx
