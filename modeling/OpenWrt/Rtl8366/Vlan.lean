/-
# The VLAN tables of the RTL8366 switches

A switch has a table of the 4096 VLANs, and a small table of member configurations. A port is not
given its PVID itself but the index of a member configuration, whose entry has the VLAN. Entries
are filled from the large table when a port needs them.

The registers store what is written. Whether VLANs are enabled is left out, and the fields of an
entry are not checked against the masks of a chip.
-/

import Mathlib.Data.Nat.Notation
import Mathlib.Logic.Function.Basic

namespace OpenWrt.Rtl8366

/-- What both tables say of a VLAN. -/
structure Membership where
  untag : UInt16
  member : UInt16
  fid : UInt8
deriving DecidableEq, Repr

/-- `struct rtl8366_vlan_mc` -/
structure VlanMc extends Membership where
  vid : UInt16
  priority : UInt8
deriving DecidableEq, Repr

/-- `struct rtl8366_vlan_4k` -/
structure Vlan4k extends Membership where
  vid : UInt16
deriving DecidableEq, Repr

/-- The errors that are returned. -/
inductive Errno
  | einval
  | enospc
deriving DecidableEq, Repr

/-- The data of a chip. -/
structure Smi where
  numPorts : ℕ
  numVlanMc : ℕ
  cpuPort : ℕ

/-- The registers. -/
structure Switch where
  /-- The member configurations. -/
  vlanMc : ℕ → VlanMc
  /-- The table of the VLANs. -/
  vlan4k : ℕ → Membership
  /-- The index of each port. -/
  mcIndex : ℕ → ℕ

/-- What a function returns, and the registers after it. -/
structure Outcome where
  err : Option Errno
  switch : Switch

/-- Go on unless there was an error. -/
def Outcome.andThen (outcome : Outcome) (f : Switch → Outcome) : Outcome :=
  match outcome.err with
  | some _ => outcome
  | none => f outcome.switch

namespace Switch

variable (smi : Smi) (switch : Switch)

/-! ## The operations of a chip -/

/-- `set_vlan_mc` -/
def setVlanMc (index : ℕ) (vlanmc : VlanMc) : Switch :=
  { switch with vlanMc := Function.update switch.vlanMc index vlanmc }

/-- `get_vlan_4k`; there are 4096 VLANs. -/
def getVlan4k (vid : ℕ) : Option Vlan4k :=
  if vid < 4096 then some { switch.vlan4k vid with vid := UInt16.ofNat vid } else none

/-- `set_vlan_4k` -/
def setVlan4k (vlan4k : Vlan4k) : Switch :=
  { switch with
    vlan4k := Function.update switch.vlan4k vlan4k.vid.toNat vlan4k.toMembership }

/-- `set_mc_index` -/
def setMcIndex (port index : ℕ) : Outcome :=
  if smi.numPorts ≤ port ∨ smi.numVlanMc ≤ index then ⟨some .einval, switch⟩
  else ⟨none, { switch with mcIndex := Function.update switch.mcIndex port index }⟩

/-! ## The functions of the driver -/

/-- `rtl8366_mc_is_used` -/
def mcIsUsed (index : ℕ) : Bool :=
  (List.range smi.numPorts).any fun port => index = switch.mcIndex port

/-- The first member configuration of a kind. -/
def findMc (p : ℕ → Bool) : Option ℕ := (List.range smi.numVlanMc).find? p

/-- The member configuration of a VLAN. -/
def mcOf (vid : ℕ) : Option ℕ := findMc smi fun index => vid = (switch.vlanMc index).vid.toNat

def emptyMc : Option ℕ :=
  findMc smi fun index => (switch.vlanMc index).vid = 0 ∧ (switch.vlanMc index).member = 0

/-- A member configuration that is no port's. -/
def unusedMc : Option ℕ := findMc smi fun index => !mcIsUsed smi switch index

/-- `rtl8366_set_vlan` -/
def setVlan (vid : ℕ) (member untag fid : UInt32) : Outcome :=
  match switch.getVlan4k vid with
  | none => ⟨some .einval, switch⟩
  | some vlan4k =>
    let membership : Membership := ⟨untag.toUInt16, member.toUInt16, fid.toUInt8⟩
    let switch := switch.setVlan4k { vlan4k with toMembership := membership }
    match mcOf smi switch vid with
    | none => ⟨none, switch⟩
    | some index =>
      ⟨none, switch.setVlanMc index
        { switch.vlanMc index with toMembership := membership }⟩

/-- `rtl8366_get_pvid` -/
def getPvid (port : ℕ) : Option ℕ :=
  if port < smi.numPorts ∧ switch.mcIndex port < smi.numVlanMc then
    some (switch.vlanMc (switch.mcIndex port)).vid.toNat
  else none

/-- An entry is updated from the table of the VLANs, and given to the port. The priority is that of
the entry that was read last. -/
def fillMc (port vid index : ℕ) (priority : UInt8) : Outcome :=
  match switch.getVlan4k vid with
  | none => ⟨some .einval, switch⟩
  | some vlan4k =>
    (switch.setVlanMc index { vlan4k.toMembership with vid := vlan4k.vid, priority }).setMcIndex
      smi port index

/-- `rtl8366_set_pvid` -/
def setPvid (port vid : ℕ) : Outcome :=
  match mcOf smi switch vid with
  | some index => (switch.setVlanMc index (switch.vlanMc index)).setMcIndex smi port index
  | none =>
    match emptyMc smi switch with
    | some index => switch.fillMc smi port vid index (switch.vlanMc index).priority
    | none =>
      match unusedMc smi switch with
      | some index =>
        switch.fillMc smi port vid index (switch.vlanMc (smi.numVlanMc - 1)).priority
      | none => ⟨some .enospc, switch⟩

/-- `rtl8366_smi_reset_vlan` -/
def resetVlan : Switch :=
  { switch with
    vlanMc := fun index =>
      if index < smi.numVlanMc then ⟨⟨0, 0, 0⟩, 0, 0⟩ else switch.vlanMc index }

/-- The ports that `rtl8366_init_vlan` lets a port reach. -/
def initMask (port : ℕ) : UInt32 :=
  if port = smi.cpuPort then (1 <<< UInt32.ofNat smi.numPorts) - 1
  else (1 <<< UInt32.ofNat port) ||| (1 <<< UInt32.ofNat smi.cpuPort)

/-- One port of `rtl8366_init_vlan`. -/
def initPort (port : ℕ) : Outcome :=
  (switch.setVlan smi (port + 1) (initMask smi port) (initMask smi port) 0).andThen
    fun switch => switch.setPvid smi port (port + 1)

/-- `rtl8366_init_vlan` -/
def initVlan : Outcome :=
  (List.range smi.numPorts).foldl
    (fun outcome port => outcome.andThen fun switch => switch.initPort smi port)
    ⟨none, switch.resetVlan smi⟩

end Switch

/-- The calls of the driver. -/
inductive Call
  | setVlan (vid : ℕ) (member untag fid : UInt32)
  | setPvid (port vid : ℕ)
  | resetVlan
  | initVlan

def Switch.call (smi : Smi) (switch : Switch) : Call → Outcome
  | .setVlan vid member untag fid => switch.setVlan smi vid member untag fid
  | .setPvid port vid => switch.setPvid smi port vid
  | .resetVlan => ⟨none, switch.resetVlan smi⟩
  | .initVlan => switch.initVlan smi

end OpenWrt.Rtl8366
