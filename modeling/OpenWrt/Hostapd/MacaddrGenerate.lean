/-
# The addresses of a radio

A radio has a base address, a mask of the bits that may differ, and a list of addresses. From these
an address is made for each number: one of the list, the base plus the number, or the base with its
first or its last octet changed.
-/

import OpenWrt.Hostapd.Macaddr

namespace OpenWrt.Hostapd

/-- An address that was read: the octets of `macaddr_split`. The texts are the ones that
`macaddr_join` writes. -/
structure MacAddr where
  octets : List ℕ
  length_octets : octets.length = 6
  lt_of_mem : ∀ octet ∈ octets, octet < 256
deriving DecidableEq

/-- The files of the phy, its radio, and the options of `macaddr_init`. -/
structure MacSource where
  /-- `macaddress`, where it can be read. -/
  macaddress : Option MacAddr
  /-- `address_mask`, where it can be read. -/
  addressMask : Option MacAddr
  addresses : List MacAddr
  radio : Option ℕ
  mbssid : Bool
  numGlobal : ℤ
  macaddrBase : Option MacAddr

/-- `ff:ff:ff:ff:ff:ff` -/
def fullMask : List ℕ := List.replicate 6 255

/-- A mask without bits stands for the full one. -/
def baseMask (mask : MacAddr) : List ℕ :=
  if mask.octets = List.replicate 6 0 then fullMask else mask.octets

/-- What an address is made from: it is one of the list, or a base and an index. -/
inductive MacStart
  | listed (addr : MacAddr)
  | base (base : MacAddr) (idx : ℕ)

/-- The ways to change the base: its first octet, its last one, or an addition. -/
inductive MacType
  | b1
  | b5
  | add
deriving DecidableEq

/-- The first lines of `macaddr_generate`: where it starts. -/
def macStart (source : MacSource) (base : MacAddr) (mask : List ℕ) (id : ℕ) : MacStart :=
  match source.macaddrBase with
  | some base => .base base id
  | none =>
    if mask = fullMask ∧ (0 < source.radio.getD 0 ∨ source.numGlobal ≤ id) then
      match source.radio with
      | some radio =>
        match radio, source.addresses[radio]? with
        | _ + 1, some addr => .base addr id
        | _, _ => .base base (id + radio * 16)
      | none =>
        match source.addresses[id]? with
        | some addr => .listed addr
        | none => .base base id
    else .base base id

def macType (source : MacSource) (mask : List ℕ) (id : ℕ) : MacType :=
  if source.mbssid then .b5
  else if (id : ℤ) < source.numGlobal then .add
  else if 0 < mask.headD 0 then .b1
  else if mask.getLastD 0 < 255 then .b5
  else .add

/-- The loop of the addition over the octets, the last one first. What is carried is the index
again. -/
def addIdx (idx : ℕ) : List ℕ → List ℕ
  | [] => []
  | octet :: rest =>
    if octet + idx < 256 then (octet + idx) :: rest
    else (octet + idx) % 256 :: addIdx idx rest

/-- The octets after a change; the addition leaves the first one. -/
def changeMac (mbssid : Bool) (idx : ℕ) (addr : List ℕ) : MacType → List ℕ
  | .b1 =>
    let idx := if addr.headD 0 &&& 2 = 0 then idx - 1 else idx
    addr.modify 0 fun octet => (octet ||| 2) ^^^ (idx <<< 2)
  | .b5 =>
    (if mbssid then addr.modify 0 (· ||| 2) else addr).modify 5 (· ^^^ idx)
  | .add => addr.take 1 ++ (addIdx idx (addr.drop 1).reverse).reverse

/-- `macaddr_generate`, by octets. -/
def macaddrGenerate (source : MacSource) (id : ℕ) : Option (List ℕ) :=
  match source.macaddress, source.addressMask with
  | some base, some mask =>
    match macStart source base (baseMask mask) id with
    | .listed addr => some addr.octets
    | .base base idx =>
      if idx = 0 ∧ source.mbssid = false then some base.octets
      else some (changeMac source.mbssid idx base.octets (macType source (baseMask mask) id))
  | _, _ => none

/-- `%02x` -/
def hexOctet (octet : ℕ) : String :=
  String.ofList (if octet < 16 then '0' :: Nat.toDigits 16 octet else Nat.toDigits 16 octet)

/-- `macaddr_join` -/
def macaddrJoin (octets : List ℕ) : String :=
  ":".intercalate (octets.map hexOctet)

/-- The radio with the addresses that are made for it. -/
def MacSource.phydev (source : MacSource) (wdevMacaddrs : List String) : PhyDev where
  radio := source.radio
  macaddrGenerate := fun id => (macaddrGenerate source id).map macaddrJoin
  wdevMacaddrs := wdevMacaddrs

end OpenWrt.Hostapd
