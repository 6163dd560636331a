/-
# Entries of the L2 table of the Realtek switches

The forwarding database of the rtl83xx switch driver is kept in rows of three or four
32 bit registers. A row is filled from, and filled into, one `rtl838x_l2_entry`. The
four supported families lay the row out in their own way; what they share, the
entry, the two tables and the table of operations of a family, stands here.
-/

import Mathlib.Tactic.Common

namespace OpenWrt.Rtl83xx

/-- The `u8` of the driver. -/
abbrev U8 := BitVec 8

/-- The `u16` of the driver. -/
abbrev U16 := BitVec 16

/-- The `u32` of the driver. -/
abbrev U32 := BitVec 32

/-- The `u64` of the driver. -/
abbrev U64 := BitVec 64

/-- The value with one bit set. -/
def bit (n : ℕ) : U32 := .twoPow 32 n

/-- A register value that is there only when the flag is set. -/
def flag (b : Bool) (v : U32) : U32 := if b then v else 0

/-- Test one bit of a register, as `!!(r & BIT(n))`. -/
def test (r : U32) (n : ℕ) : Bool := r &&& bit n != 0

/-- The six bytes of an Ethernet address. -/
structure Mac where
  b0 : U8
  b1 : U8
  b2 : U8
  b3 : U8
  b4 : U8
  b5 : U8
deriving DecidableEq, Repr

/-- `ether_addr_to_u64`. -/
def etherAddrToU64 (addr : Mac) : U64 :=
  let u := addr.b0.setWidth 64
  let u := u <<< 8 ||| addr.b1.setWidth 64
  let u := u <<< 8 ||| addr.b2.setWidth 64
  let u := u <<< 8 ||| addr.b3.setWidth 64
  let u := u <<< 8 ||| addr.b4.setWidth 64
  u <<< 8 ||| addr.b5.setWidth 64

/-- `u64_to_ether_addr`. -/
def u64ToEtherAddr (u : U64) : Mac where
  b0 := (u >>> 40).setWidth 8
  b1 := (u >>> 32).setWidth 8
  b2 := (u >>> 24).setWidth 8
  b3 := (u >>> 16).setWidth 8
  b4 := (u >>> 8).setWidth 8
  b5 := u.setWidth 8

/-- The group bit of an address. -/
def Mac.isMulticast (addr : Mac) : Bool := addr.b0 &&& 1 != 0

/-- `enum l2_entry_type`. -/
inductive L2EntryType where
  | invalid
  | unicast
  | multicast
  | ip4Multicast
  | ip6Multicast
deriving DecidableEq, Repr

/-- `struct rtl838x_l2_entry`. -/
structure L2Entry where
  mac : Mac
  vid : U16
  rvid : U16
  port : U8
  type : L2EntryType
  valid : Bool
  isStatic : Bool
  isIpMc : Bool
  isIpv6Mc : Bool
  blockDa : Bool
  blockSa : Bool
  suspended : Bool
  nextHop : Bool
  isTrunk : Bool
  nhVlanTarget : Bool
  age : U32
  trunk : U8
  stackDev : U8
  mcPortmaskIndex : U16
  mcGip : U32
  mcMacIndex : U16
  nhRouteId : U16
  isOpenFlow : Bool
  isPeForward : Bool
  isLocalForward : Bool
  isRemoteForward : Bool
  isL2Tunnel : Bool
  hashMsb : Bool
  l2TunnelId : U32
  l2TunnelListId : U32
deriving DecidableEq, Repr

/-- An entry whose memory was cleared. -/
def L2Entry.zero : L2Entry where
  mac := ⟨0, 0, 0, 0, 0, 0⟩
  vid := 0
  rvid := 0
  port := 0
  type := .invalid
  valid := false
  isStatic := false
  isIpMc := false
  isIpv6Mc := false
  blockDa := false
  blockSa := false
  suspended := false
  nextHop := false
  isTrunk := false
  nhVlanTarget := false
  age := 0
  trunk := 0
  stackDev := 0
  mcPortmaskIndex := 0
  mcGip := 0
  mcMacIndex := 0
  nhRouteId := 0
  isOpenFlow := false
  isPeForward := false
  isLocalForward := false
  isRemoteForward := false
  isL2Tunnel := false
  hashMsb := false
  l2TunnelId := 0
  l2TunnelListId := 0

/-- The data registers of one table row. Only RTL931x has the fourth. -/
structure Row where
  r0 : U32
  r1 : U32
  r2 : U32
  r3 : U32
deriving DecidableEq, Repr

/-- A row of cleared registers. -/
def Row.zero : Row := ⟨0, 0, 0, 0⟩

/-- The hash table and the CAM. -/
structure Tables where
  /-- The rows of the L2 table in SRAM. -/
  l2 : U32 → Row
  /-- The rows of the CAM. -/
  cam : U32 → Row

/-- Write one row of the SRAM. -/
def Tables.setL2 (t : Tables) (idx : U32) (row : Row) : Tables :=
  { t with l2 := fun i => if i = idx then row else t.l2 i }

def Tables.setCam (t : Tables) (idx : U32) (row : Row) : Tables :=
  { t with cam := fun i => if i = idx then row else t.cam i }

/-- The tables of a switch that was just reset. -/
def Tables.empty : Tables := ⟨fun _ => Row.zero, fun _ => Row.zero⟩

/-- Fill an entry from a row; an invalid one is reported with the key 0. -/
def readEntry (fillL2Entry : Row → L2Entry → L2Entry) (key : Row → L2Entry → U64)
    (row : Row) (e : L2Entry) : L2Entry × U64 :=
  let e := fillL2Entry row e
  if !e.valid then (e, 0) else (e, key row e)

/-- `rtldsa_setup_l2_uc_entry`. -/
def rtldsaSetupL2UcEntry (port : ℕ) (vid : U16) (mac : U64) : L2Entry :=
  { L2Entry.zero with
    type := .unicast
    valid := true
    age := 3
    isStatic := true
    port := BitVec.ofNat 8 port
    rvid := vid
    vid := vid
    isIpMc := false
    isIpv6Mc := false
    mac := u64ToEtherAddr mac }

/-- The part of `struct rtldsa_config` that the forwarding database uses. The
operations that read a control register are given its value. -/
structure Family where
  cpuPort : ℕ
  l2BucketSize : ℕ
  l2HashSeed : U64 → U32 → U64
  l2HashKey : U32 → U64 → U32
  fillL2Entry : Row → L2Entry → L2Entry
  readL2EntryUsingHash : Tables → U32 → U32 → L2Entry → L2Entry × U64
  writeL2EntryUsingHash : U32 → Tables → U32 → U32 → L2Entry → Tables
  readCam : Tables → U32 → L2Entry → L2Entry × U64
  writeCam : Tables → U32 → L2Entry → Tables
  /-- Only the RTL93xx families have it. -/
  prepareLagFdb : Option (L2Entry → ℕ → L2Entry)

/-- `rtldsa_93xx_prepare_lag_fdb`. -/
def rtldsa93xxPrepareLagFdb (e : L2Entry) (lagGroup : ℕ) : L2Entry :=
  { e with isTrunk := true, trunk := BitVec.ofNat 8 lagGroup }

/-- Row index of a place in a bucket, the key being the bucket. -/
def bucketIndex (hash pos : U32) : U32 := 0 <<< 14 ||| hash <<< 2 ||| pos

/-- Row index of a place in the two buckets of the RTL93xx families: the key has one
bucket in each half, and places from 4 on are in the second one. -/
def splitBucketIndex (hash pos : U32) : U32 :=
  if pos ≥ 4 then bucketIndex (hash >>> 16) (pos - 4) else bucketIndex (hash &&& 0xffff) pos

end OpenWrt.Rtl83xx
