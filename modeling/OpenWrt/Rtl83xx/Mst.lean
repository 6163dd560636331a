/-
# Slots of spanning tree instances

The switch keeps port states for a few spanning trees, in slots. Slot 0 is the common
tree, each other slot is assigned to an instance and counts the VLANs that use it. The
slot of a VLAN is the `fid` in its row of the VLAN table. An instance that finds no free
slot may take over the one its VLAN has, when no other VLAN uses that.
-/

import OpenWrt.Rtl83xx.PortMatrix
import OpenWrt.Rtl83xx.Lag

namespace OpenWrt.Rtl83xx

/-! ## State -/

/-- `struct rtldsa_mst`: the instance of a slot, 0 for none, and its users. -/
structure MstSlot where
  msti : ℕ
  refcount : ℕ
deriving DecidableEq

/-- `struct rtldsa_vlan_info`. -/
structure VlanInfo where
  memberPorts : U64
  untaggedPorts : U64
  fid : ℕ
  hashMcFid : Bool
  hashUcFid : Bool
  profileId : ℕ
deriving DecidableEq

/-- `MAX_VLANS`. -/
def maxVlans : ℕ := 4096

instance : NeZero maxVlans := ⟨by decide⟩

abbrev Vid := Fin maxVlans

/-- The slots from 1 on, the VLAN table, the PVIDs, and the state of each port in each
slot. -/
structure Msts where
  msts : ℕ → MstSlot
  vlans : Vid → VlanInfo
  pvid : ℕ → ℕ
  stp : ℕ → ℕ → ℕ

/-- The states of a bridge port. -/
inductive BrState where
  | disabled
  | listening
  | learning
  | forwarding
  | blocking
deriving DecidableEq

/-- What is known of the user ports when a call is made: which are in a bridge, and their
states. -/
structure PortStates where
  bridge : ℕ → Bool
  stpState : ℕ → BrState

/-! ## Slots -/

section Slots

variable (board : Board) (nMst : ℕ)

/-- `rtldsa_port_xstp_state_set`. -/
def rtldsaPortXstpStateSet (stp : ℕ → ℕ → ℕ) (port : ℕ) (state : BrState) (mstSlot : ℕ) :
    ℕ → ℕ → ℕ :=
  if board.cpuPort ≤ port then stp
  else
    let hwState :=
      match state with
      | .disabled => 0
      | .blocking | .listening => 1
      | .learning => 2
      | .forwarding => 3
    Function.update stp mstSlot (Function.update (stp mstSlot) port hwState)

/-- `rtldsa_mst_init`. -/
def rtldsaMstInit (ports : PortStates) (stp : ℕ → ℕ → ℕ) (mstSlot : ℕ) : ℕ → ℕ → ℕ :=
  board.userPorts.foldl
    (fun stp port =>
      let state := if ports.bridge port then BrState.disabled else ports.stpState port
      rtldsaPortXstpStateSet board stp port state mstSlot)
    stp

/-- `rtldsa_mst_find`. -/
def rtldsaMstFind (s : Msts) (msti : ℕ) : Except ℤ ℕ :=
  if msti = 0 then .ok 0
  else if 4095 < msti then .error einval
  else
    match (List.range (nMst - 1)).find? fun i => (s.msts i).msti = msti with
    | some i => .ok (i + 1)
    | none => .error enoent

/-- `rtldsa_mst_get`. -/
def rtldsaMstGet (s : Msts) (msti : ℕ) (ports : PortStates) : Except ℤ ℕ × Msts :=
  match rtldsaMstFind nMst s msti with
  | .ok 0 => (.ok 0, s)
  | .ok (index + 1) =>
    (.ok (index + 1), { s with
      msts := Function.update s.msts index
        { s.msts index with refcount := (s.msts index).refcount + 1 } })
  | .error err =>
    if err ≠ enoent then (.error err, s)
    else
      match (List.range (nMst - 1)).find? fun i => (s.msts i).msti = 0 with
      | some i =>
        (.ok (i + 1), { s with
          msts := Function.update s.msts i ⟨msti, 1⟩
          stp := rtldsaMstInit board ports s.stp (i + 1) })
      | none => (.error enospc, s)

/-- `rtldsa_mst_recycle_slot`. -/
def rtldsaMstRecycleSlot (s : Msts) (msti oldMstSlot : ℕ) : Except ℤ ℕ × Msts :=
  if msti = 0 then (.ok 0, s)
  else if oldMstSlot = 0 then (.error enospc, s)
  else if 4095 < msti then (.error einval, s)
  else if nMst ≤ oldMstSlot then (.error einval, s)
  else
    let index := oldMstSlot - 1
    if (s.msts index).msti = 0 then (.error einval, s)
    else if (s.msts index).refcount ≠ 1 then (.error enospc, s)
    else
      (.ok oldMstSlot, { s with
        msts := Function.update s.msts index { s.msts index with msti := msti } })

/-- `rtldsa_mst_put_slot`, what it does; the last user of a slot frees it. -/
def rtldsaMstPutSlot (s : Msts) (mstSlot : ℕ) : Msts :=
  if mstSlot = 0 then s
  else if nMst ≤ mstSlot then s
  else
    let index := mstSlot - 1
    if (s.msts index).msti = 0 then s
    else
      let refcount := (s.msts index).refcount - 1
      { s with
        msts := Function.update s.msts index
          ⟨if refcount = 0 then 0 else (s.msts index).msti, refcount⟩ }

/-- `rtldsa_mst_replace`. -/
def rtldsaMstReplace (s : Msts) (msti oldMstSlot : ℕ) (ports : PortStates) :
    Except ℤ ℕ × Msts :=
  match rtldsaMstGet board nMst s msti ports with
  | (.ok mstSlotNew, s) => (.ok mstSlotNew, rtldsaMstPutSlot nMst s oldMstSlot)
  | (.error err, s) =>
    if err = enospc then rtldsaMstRecycleSlot nMst s msti oldMstSlot else (.error err, s)

end Slots

/-! ## Calls -/

section Calls

variable (board : Board) (nMst : ℕ)

/-- `vlan_set_untagged` of a family. -/
def vlanSetUntagged (s : Msts) (vid : Vid) (ports : U64) : Msts :=
  { s with vlans := Function.update s.vlans vid { s.vlans vid with untaggedPorts := ports } }

/-- `vlan_set_tagged` of a family: everything but the untagged ports. -/
def vlanSetTagged (s : Msts) (vid : Vid) (info : VlanInfo) : Msts :=
  { s with
    vlans := Function.update s.vlans vid
      { info with untaggedPorts := (s.vlans vid).untaggedPorts } }

/-- `rtldsa_vlan_set_pvid`. -/
def rtldsaVlanSetPvid (s : Msts) (port pvid : ℕ) : Msts :=
  { s with pvid := Function.update s.pvid port pvid }

/-- `rtldsa_vlan_prepare`: writes the row of VLAN 1 again. -/
def rtldsaVlanPrepare (s : Msts) : Msts :=
  let info := s.vlans 1
  vlanSetTagged (vlanSetUntagged s 1 info.untaggedPorts) 1 info

/-- `rtldsa_vlan_add`; the flags are those of a PVID and of an untagged VLAN. -/
def rtldsaVlanAdd (s : Msts) (port : ℕ) (vid : Vid) (pvid untagged : Bool) : Msts :=
  if vid = 0 then s
  else
    let s := rtldsaVlanPrepare s
    let s :=
      if port ≠ board.cpuPort then
        if pvid then rtldsaVlanSetPvid s port vid
        else if s.pvid port = vid then rtldsaVlanSetPvid s port 0
        else s
      else s
    let info := s.vlans vid
    -- new VLAN?
    let info :=
      if info.memberPorts = 0 then
        { info with fid := 0, hashMcFid := false, hashUcFid := false, profileId := 0 }
      else info
    let untaggedPorts :=
      if info.untaggedPorts &&& ~~~ info.memberPorts ≠ 0 then 0 else info.untaggedPorts
    let info := { info with
      memberPorts := info.memberPorts ||| bitUll port
      untaggedPorts := if untagged then untaggedPorts ||| bitUll port
        else untaggedPorts &&& ~~~ bitUll port }
    vlanSetTagged (vlanSetUntagged s vid info.untaggedPorts) vid info

/-- `rtldsa_vlan_del`. -/
def rtldsaVlanDel (s : Msts) (port : ℕ) (vid : Vid) : Msts :=
  if vid = 0 then s
  else
    let s := if s.pvid port = vid then rtldsaVlanSetPvid s port 0 else s
    let info := s.vlans vid
    let info := { info with
      untaggedPorts := info.untaggedPorts &&& ~~~ bitUll port
      memberPorts := info.memberPorts &&& ~~~ bitUll port }
    if info.memberPorts = 0 then
      let s := rtldsaMstPutSlot nMst s info.fid
      let info := { info with fid := 0 }
      vlanSetTagged (vlanSetUntagged s vid info.untaggedPorts) vid info
    else vlanSetTagged (vlanSetUntagged s vid info.untaggedPorts) vid info

/-- `rtldsa_vlan_msti_set`. -/
def rtldsaVlanMstiSet (s : Msts) (vid : Vid) (msti : ℕ) (ports : PortStates) : ℤ × Msts :=
  let info := s.vlans vid
  match rtldsaMstReplace board nMst s msti info.fid ports with
  | (.error err, s) => (err, s)
  | (.ok mstSlot, s) => (0, vlanSetTagged s vid { info with fid := mstSlot })

/-- The state after setup: no slot is in use, and no VLAN but the special one has members. -/
def Msts.probed : Msts where
  msts _ := ⟨0, 0⟩
  vlans vid :=
    { memberPorts := if vid = 0 then (List.range (board.cpuPort + 1)).foldl
        (fun mask port => mask ||| bitUll port) 0 else 0
      untaggedPorts := 0
      fid := 0
      hashMcFid := false
      hashUcFid := false
      profileId := 0 }
  pvid _ := 0
  stp _ _ := 0

/-- A call into the driver. -/
inductive MstCall where
  | vlanAdd (port : Fin 64) (vid : Vid) (pvid untagged : Bool)
  | vlanDel (port : Fin 64) (vid : Vid)
  | mstiSet (vid : Vid) (msti : Fin 4096) (ports : PortStates)

/-- What a call returns and the state after it. -/
def MstCall.run (s : Msts) : MstCall → ℤ × Msts
  | .vlanAdd port vid pvid untagged => (0, rtldsaVlanAdd board s port vid pvid untagged)
  | .vlanDel port vid => (0, rtldsaVlanDel nMst s port vid)
  | .mstiSet vid msti ports => rtldsaVlanMstiSet board nMst s vid msti ports

end Calls

end OpenWrt.Rtl83xx
