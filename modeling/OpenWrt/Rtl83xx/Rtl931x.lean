/-
# The L2 table of RTL931x

The rows have four registers; the lookup is the one of RTL930x, over a table of twice the
size. A write to the hash table also notes the bit of the VID that the hash algorithm of
its half drops.
-/

import OpenWrt.Rtl83xx.Layout

namespace OpenWrt.Rtl83xx.Rtl931x

/-- `rtldsa_931x_l2_hash_seed`. -/
def l2HashSeed (mac : U64) (vid : U32) : U64 :=
  vid.setWidth 64 <<< 48 ||| mac

/-- `rtl931x_l2_hash_key`. -/
def l2HashKey (l2Ctrl : U32) (seed : U64) : U32 :=
  let word (n : ℕ) : U32 := ((seed >>> n) &&& 0xfff).setWidth 32
  let h0 := word 0
  let h1 := word 12
  let h2 := word 24
  let h3 := word 36
  let h4 := word 48
  let h4 := ((h4 &&& 0x7) <<< 9) ||| ((h4 >>> 3) &&& 0x1ff)
  let k0 := h0 ^^^ h1 ^^^ h2 ^^^ h3 ^^^ h4
  let h0 := word 0
  let h0 := ((h0 &&& 0x1ff) <<< 3) ||| ((h0 >>> 9) &&& 0x7)
  let h1 := word 12
  let h1 := ((h1 &&& 0x3f) <<< 6) ||| ((h1 >>> 6) &&& 0x3f)
  let h2 := word 24
  let h3 := word 36
  let h3 := ((h3 &&& 0x3f) <<< 6) ||| ((h3 >>> 6) &&& 0x3f)
  let h4 := word 48
  let k1 := h0 ^^^ h1 ^^^ h2 ^^^ h3 ^^^ h4
  let h := if test l2Ctrl 0 then k1 else k0
  h ||| (if test l2Ctrl 1 then (k1 + 4096) <<< 16 else (k0 + 4096) <<< 16)

/-- `rtl931x_fill_l2_entry`. -/
def fillL2Entry (r : Row) (e : L2Entry) : L2Entry :=
  let e := { e with valid := test r.r0 31 }
  if !e.valid then e
  else
    let e := { e with
      isIpMc := false
      isIpv6Mc := false
      mac := {
        b0 := (r.r0 >>> 8).setWidth 8
        b1 := r.r0.setWidth 8
        b2 := (r.r1 >>> 24).setWidth 8
        b3 := (r.r1 >>> 16).setWidth 8
        b4 := (r.r1 >>> 8).setWidth 8
        b5 := r.r1.setWidth 8 }
      isOpenFlow := test r.r0 30
      isPeForward := test r.r0 29
      nextHop := test r.r2 30
      rvid := ((r.r0 >>> 16) &&& 0xfff).setWidth 16 }
    -- is it a unicast entry?
    if !e.mac.isMulticast then
      let e := { e with
        type := .unicast
        isL2Tunnel := test r.r2 31
        isStatic := test r.r2 13
        port := ((r.r2 >>> 19) &&& 0x3ff).setWidth 8 }
      let e := if test r.r2 29 then
          { e with isTrunk := true, trunk := e.port &&& 0xff }
        else
          { e with
            isTrunk := false
            stackDev := (e.port >>> 6) &&& 0xf
            port := e.port &&& 0x3f }
      let e := { e with
        blockDa := test r.r2 14
        blockSa := test r.r2 15
        suspended := test r.r2 12
        age := (r.r2 >>> 16) &&& 7
        vid := ((r.r0 >>> 16) &&& 0xfff).setWidth 16 }
      if e.isL2Tunnel then
        { e with l2TunnelId := (r.r2 &&& 0xff) <<< 4 ||| r.r3 >>> 28 }
      else e
    else
      { e with
        type := .multicast
        isLocalForward := test r.r2 31
        isRemoteForward := test r.r2 17
        mcPortmaskIndex := ((r.r2 >>> 18) &&& 0xfff).setWidth 16
        l2TunnelListId := (r.r2 >>> 4) &&& 0x1fff }

/-- `rtl931x_fill_l2_row`. -/
def fillL2Row (e : L2Entry) : Row :=
  if !e.valid then Row.zero
  else
    let r0 : U32 := bit 31 ||| e.mac.b0.setWidth 32 <<< 8 ||| e.mac.b1.setWidth 32
    let r1 : U32 := e.mac.b2.setWidth 32 <<< 24 ||| e.mac.b3.setWidth 32 <<< 16 |||
      e.mac.b4.setWidth 32 <<< 8 ||| e.mac.b5.setWidth 32
    let r0 := r0 ||| flag e.isOpenFlow (bit 30) ||| flag e.isPeForward (bit 29) |||
      flag e.hashMsb (bit 28)
    let r2 := flag e.nextHop (bit 30)
    let r0 := r0 ||| (e.rvid.setWidth 32 &&& 0xfff) <<< 16
    if e.type = .unicast then
      let r2 := r2 ||| flag e.isL2Tunnel (bit 31) ||| flag e.isStatic (bit 13) |||
        flag e.isTrunk (bit 29)
      let port : U32 :=
        if e.isTrunk then e.trunk.setWidth 32 &&& 0xff
        else (e.port.setWidth 32 &&& 0x3f) ||| (e.stackDev.setWidth 32 &&& 0xf) <<< 6
      let r2 := r2 ||| (port &&& 0x3ff) <<< 19 ||| flag e.blockDa (bit 14) |||
        flag e.blockSa (bit 15) ||| flag e.suspended (bit 12) ||| (e.age &&& 0x7) <<< 16
      { r0 := r0
        r1 := r1
        r2 := r2 ||| flag e.isL2Tunnel ((e.l2TunnelId >>> 4) &&& 0xff)
        r3 := flag e.isL2Tunnel ((e.l2TunnelId &&& 0xf) <<< 28) }
    else
      { r0 := r0
        r1 := r1
        r2 := r2 ||| (e.mcPortmaskIndex.setWidth 32 &&& 0xfff) <<< 18
        r3 := 0 }

def rowKey (_ : Row) (e : L2Entry) : U64 :=
  l2HashSeed (etherAddrToU64 e.mac) (e.rvid.setWidth 32)

/-- The address of a row of the CAM with the VID concatenated. -/
def camKey (r : Row) (e : L2Entry) : U64 :=
  ((r.r0 &&& 0xffff).setWidth 64 <<< 32 ||| r.r1.setWidth 64) <<< 12 ||| e.vid.setWidth 64

/-- `rtl931x_read_l2_entry_using_hash`. -/
def readL2EntryUsingHash (t : Tables) (hash pos : U32) (e : L2Entry) : L2Entry × U64 :=
  readEntry fillL2Entry rowKey (t.l2 (splitBucketIndex hash pos)) e

/-- The bit of the VID that the hash algorithm of the half drops. -/
def hashMsb (l2Ctrl idx : U32) (e : L2Entry) : Bool :=
  let hashAlgoId : U32 := if idx < 0x4000 then l2Ctrl &&& bit 0 else (l2Ctrl &&& bit 1) >>> 1
  if hashAlgoId = 0 then (e.rvid >>> 2) &&& 1 != 0 else (e.rvid >>> 11) &&& 1 != 0

/-- `rtl931x_write_l2_entry_using_hash`. -/
def writeL2EntryUsingHash (l2Ctrl : U32) (t : Tables) (hash pos : U32) (e : L2Entry) : Tables :=
  let idx := bucketIndex hash pos
  let e := { e with hashMsb := hashMsb l2Ctrl idx e }
  t.setL2 idx (fillL2Row e)

/-- `rtl931x_read_cam`. -/
def readCam (t : Tables) (idx : U32) (e : L2Entry) : L2Entry × U64 :=
  readEntry fillL2Entry camKey (t.cam idx) e

/-- `rtl931x_write_cam`. -/
def writeCam (t : Tables) (idx : U32) (e : L2Entry) : Tables :=
  t.setCam idx (fillL2Row e)

/-- `rtldsa_931x_cfg`. -/
def cfg : Family where
  cpuPort := 56
  l2BucketSize := 8
  l2HashSeed := l2HashSeed
  l2HashKey := l2HashKey
  fillL2Entry := fillL2Entry
  readL2EntryUsingHash := readL2EntryUsingHash
  writeL2EntryUsingHash := writeL2EntryUsingHash
  readCam := readCam
  writeCam := writeCam
  prepareLagFdb := some rtldsa93xxPrepareLagFdb

section Rows

variable (k : Key) (port : ℕ) (msb : Bool)

theorem fillL2Row_entry :
    fillL2Row { k.entry port with hashMsb := msb } =
      { r0 := bit 31 ||| k.addr.b0.setWidth 32 <<< 8 ||| k.addr.b1.setWidth 32 |||
          flag msb (bit 28) ||| (k.vid.setWidth 32 &&& 0xfff) <<< 16
        r1 := k.addr.b2.setWidth 32 <<< 24 ||| k.addr.b3.setWidth 32 <<< 16 |||
          k.addr.b4.setWidth 32 <<< 8 ||| k.addr.b5.setWidth 32
        r2 := bit 13 ||| (((BitVec.ofNat 8 port).setWidth 32 &&& 0x3f) &&& 0x3ff) <<< 19 |||
          (bit 16 ||| bit 17)
        r3 := 0 } := by
  have hage : bit 16 ||| bit 17 = ((3 : U32) &&& 0x7) <<< 16 := by decide
  rw [hage]
  simp [fillL2Row, Key.entry, rtldsaSetupL2UcEntry, L2Entry.zero, flag]

variable {port}

/-- The row of a pair is read as the entry of the pair. -/
theorem shows_fillL2Row (hport : port ≤ 56) :
    (fillL2Row { k.entry port with hashMsb := msb }).Shows fillL2Entry k port := by
  have hvid : ∀ i, 12 ≤ i → k.vid.getLsbD i = false := fun i hi => k.getLsbD_vid hi
  have hports : ∀ i, 6 ≤ i → (BitVec.ofNat 8 port).getLsbD i = false :=
    fun i hi => getLsbD_port (show port < 2 ^ 6 by omega) hi
  have hmsb : ∀ i, i ≠ 28 → (flag msb (bit 28)).getLsbD i = false := by
    intro i hi
    cases msb <;> simp [flag, getLsbD_bit, Ne.symm hi]
  rw [fillL2Row_entry]
  generalize hflag : flag msb (bit 28) = f at hmsb ⊢
  generalize hr0 : bit 31 ||| k.addr.b0.setWidth 32 <<< 8 ||| k.addr.b1.setWidth 32 ||| f |||
    (k.vid.setWidth 32 &&& 0xfff) <<< 16 = r0
  generalize hr1 : k.addr.b2.setWidth 32 <<< 24 ||| k.addr.b3.setWidth 32 <<< 16 |||
    k.addr.b4.setWidth 32 <<< 8 ||| k.addr.b5.setWidth 32 = r1
  generalize hr2 : bit 13 ||| (((BitVec.ofNat 8 port).setWidth 32 &&& 0x3f) &&& 0x3ff) <<< 19 |||
    (bit 16 ||| bit 17) = r2
  have hvalid : test r0 31 = true := by
    simp [test_eq, ← hr0]
  have htrunk : test r2 29 = false := by
    simp [test_eq, ← hr2]
  have htunnel : test r2 31 = false := by
    simp [test_eq, ← hr2]
  have hmac : Mac.mk ((r0 >>> 8).setWidth 8) (r0.setWidth 8) ((r1 >>> 24).setWidth 8)
      ((r1 >>> 16).setWidth 8) ((r1 >>> 8).setWidth 8) (r1.setWidth 8) = k.addr := by
    rw [← hr0, ← hr1]
    cases k.addr
    rw [Mac.mk.injEq]
    refine ⟨?_, ?_, ?_, ?_, ?_, ?_⟩ <;> (apply BitVec.eq_of_getLsbD_eq; intro i hi) <;>
      simp [getLsbD_bit] <;> grind
  have hrvid : ((r0 >>> 16) &&& 0xfff).setWidth 16 = k.vid := by
    apply BitVec.eq_of_getLsbD_eq
    intro i hi
    simp [← hr0, getLsbD_bit]
    grind
  have hportread : ((r2 >>> 19) &&& 0x3ff).setWidth 8 &&& 0x3f = BitVec.ofNat 8 port := by
    apply BitVec.eq_of_getLsbD_eq
    intro i hi
    simp [← hr2, getLsbD_bit]
    grind
  constructor <;> intro e <;>
    simp only [fillL2Entry, hvalid, htrunk, hmac, k.unicast, hrvid, hportread, htunnel] <;>
    simp

end Rows

theorem keyFits_l2HashKey (l2Ctrl : U32) (seed : U64) : KeyFits (l2HashKey l2Ctrl seed) := by
  unfold l2HashKey
  simp only
  split <;> split <;> refine keyFits_pair ?_ ?_ (by decide) <;> intro i hi <;> simp <;> grind

def layout : Layout cfg where
  index := splitBucketIndex
  rowKey := rowKey
  camKey := camKey
  l2Row l2Ctrl idx e := fillL2Row { e with hashMsb := hashMsb l2Ctrl idx e }
  camRow := fillL2Row
  read_l2 _ _ _ _ := rfl
  write_l2 _ _ _ _ _ := rfl
  read_cam _ _ _ := rfl
  write_cam _ _ _ := rfl
  l2Row_invalid _ _ e he := by simp [fillL2Row, he]
  camRow_invalid e he := by simp [fillL2Row, he]
  fill_zero e := by simp [cfg, fillL2Entry, Row.zero, test]
  size_le := by decide
  shows_l2 _ _ k _ hport := shows_fillL2Row k _ hport
  shows_cam k _ hport := shows_fillL2Row k false hport
  rowKey_l2 l2Ctrl idx k port e hport := by
    have hshows := shows_fillL2Row k (hashMsb l2Ctrl idx (k.entry port)) hport
    rw [rowKey, show cfg.fillL2Entry = fillL2Entry from rfl, hshows.mac, hshows.rvid]
    rfl
  camKey_cam k _ e e' hport := by
    have hshows := shows_fillL2Row k false hport
    rw [camKey, camKey, show cfg.fillL2Entry = fillL2Entry from rfl, show
      Key.entry k _ = { k.entry _ with hashMsb := false } from rfl, hshows.vid, hshows.vid]
  seed_mask k := k.vidMac_mask
  seed_injective _ _ h := Key.vidMac_injective h
  slotIndex_eq ctrl k _ _ hplace :=
    splitBucketIndex_slotIndex (keyFits_l2HashKey ctrl (k.seed cfg)) hplace

end OpenWrt.Rtl83xx.Rtl931x
