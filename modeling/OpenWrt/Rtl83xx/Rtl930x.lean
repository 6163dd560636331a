/-
# The L2 table of RTL930x

Rows have a valid bit. Two hash algorithms give a pair two buckets, one in each half of
the table: both hashes are kept in one key and the places of a pair count from 0 to 7.
The key of a row of the CAM is put together in another order than the one of a row of
the hash table.
-/

import OpenWrt.Rtl83xx.Layout

namespace OpenWrt.Rtl83xx.Rtl930x

/-- `rtl930x_l2_hash_seed`. -/
def l2HashSeed (mac : U64) (vid : U32) : U64 :=
  vid.setWidth 64 <<< 48 ||| mac

/-- `rtl930x_l2_hash_key`. -/
def l2HashKey (l2Ctrl : U32) (seed : U64) : U32 :=
  let k0 : U32 := (((seed >>> 55) &&& 0x1f) ^^^ ((seed >>> 44) &&& 0x7ff) ^^^
    ((seed >>> 33) &&& 0x7ff) ^^^ ((seed >>> 22) &&& 0x7ff) ^^^
    ((seed >>> 11) &&& 0x7ff) ^^^ (seed &&& 0x7ff)).setWidth 32
  let h1 : U32 := ((seed >>> 11) &&& 0x7ff).setWidth 32
  let h1 := ((h1 &&& 0x1f) <<< 6) ||| ((h1 >>> 5) &&& 0x3f)
  let h2 : U32 := ((seed >>> 33) &&& 0x7ff).setWidth 32
  let h2 := ((h2 &&& 0x3f) <<< 5) ||| ((h2 >>> 6) &&& 0x3f)
  -- the first term is shifted to the left, and always 0
  let k1 : U32 := (((seed <<< 55) &&& 0x1f) ^^^ ((seed >>> 44) &&& 0x7ff) ^^^
    h2.setWidth 64 ^^^ ((seed >>> 22) &&& 0x7ff) ^^^ h1.setWidth 64 ^^^
    (seed &&& 0x7ff)).setWidth 32
  let h := if test l2Ctrl 0 then k1 else k0
  h ||| (if test l2Ctrl 1 then (k1 + 2048) <<< 16 else (k0 + 2048) <<< 16)

/-- `rtl930x_fill_l2_entry`. -/
def fillL2Entry (r : Row) (e : L2Entry) : L2Entry :=
  let e := { e with valid := test r.r2 31 }
  if !e.valid then e
  else
    let e := { e with
      isIpMc := false
      isIpv6Mc := false
      mac := {
        b0 := (r.r0 >>> 24).setWidth 8
        b1 := (r.r0 >>> 16).setWidth 8
        b2 := (r.r0 >>> 8).setWidth 8
        b3 := r.r0.setWidth 8
        b4 := (r.r1 >>> 24).setWidth 8
        b5 := (r.r1 >>> 16).setWidth 8 }
      nextHop := test r.r2 12
      rvid := (r.r1 &&& 0xfff).setWidth 16 }
    -- is it a unicast entry?
    if !e.mac.isMulticast then
      let e := { e with
        type := .unicast
        isStatic := test r.r2 14
        port := ((r.r2 >>> 20) &&& 0x3ff).setWidth 8 }
      let e := if test r.r2 30 then
          { e with
            isTrunk := true
            stackDev := (e.port >>> 9) &&& 1
            trunk := e.port &&& 0x3f }
        else
          { e with
            isTrunk := false
            stackDev := (e.port >>> 6) &&& 0xf
            port := e.port &&& 0x3f }
      let e := { e with
        blockDa := test r.r2 15
        blockSa := test r.r2 16
        suspended := test r.r2 13
        age := (r.r2 >>> 17) &&& 3
        valid := true }
      if e.nextHop then
        { e with nhRouteId := (r.r2 &&& 0x7ff).setWidth 16, vid := 0 }
      else
        { e with vid := (r.r2 &&& 0xfff).setWidth 16, nhRouteId := 0 }
    else
      { e with
        valid := true
        type := .multicast
        mcPortmaskIndex := ((r.r2 >>> 16) &&& 0x3ff).setWidth 16 }

/-- `rtl930x_fill_l2_row`. -/
def fillL2Row (e : L2Entry) : Row :=
  if !e.valid then Row.zero
  else
    let r2 := bit 31
    let r0 : U32 := e.mac.b0.setWidth 32 <<< 24 ||| e.mac.b1.setWidth 32 <<< 16 |||
      e.mac.b2.setWidth 32 <<< 8 ||| e.mac.b3.setWidth 32
    let r1 : U32 := e.mac.b4.setWidth 32 <<< 24 ||| e.mac.b5.setWidth 32 <<< 16
    let r2 := r2 ||| flag e.nextHop (bit 12)
    if e.type = .unicast then
      let r2 := r2 ||| flag e.isStatic (bit 14)
      let r1 := r1 ||| (e.rvid.setWidth 32 &&& 0xfff)
      let r2 := r2 ||| (e.port.setWidth 32 &&& 0x3ff) <<< 20
      let r2 := r2 ||| flag e.isTrunk (bit 30)
      let port : U32 :=
        if e.isTrunk then e.stackDev.setWidth 32 <<< 9 ||| (e.port.setWidth 32 &&& 0x3f)
        else (e.stackDev.setWidth 32 &&& 0xf) <<< 6 ||| (e.port.setWidth 32 &&& 0x3f)
      let r2 := r2 ||| port <<< 20 ||| flag e.blockDa (bit 15) ||| flag e.blockSa (bit 17) |||
        flag e.suspended (bit 13) ||| (e.age &&& 0x3) <<< 17
      { r0 := r0
        r1 := r1
        r2 := r2 ||| (if e.nextHop then e.nhRouteId.setWidth 32 &&& 0x7ff
          else e.vid.setWidth 32 &&& 0xfff)
        r3 := 0 }
    else
      { r0 := r0
        r1 := r1
        r2 := r2 ||| (e.mcPortmaskIndex.setWidth 32 &&& 0x3ff) <<< 16 |||
          (e.mcMacIndex.setWidth 32 &&& 0x7ff)
        r3 := 0 }

def rowKey (_ : Row) (e : L2Entry) : U64 :=
  l2HashSeed (etherAddrToU64 e.mac) (e.rvid.setWidth 32)

/-- The address of a row of the CAM with the VID concatenated. -/
def camKey (r : Row) (e : L2Entry) : U64 :=
  r.r0.setWidth 64 <<< 28 ||| ((r.r1 &&& 0xffff0000) >>> 4).setWidth 64 |||
    e.vid.setWidth 64

/-- `rtl930x_read_l2_entry_using_hash`. -/
def readL2EntryUsingHash (t : Tables) (hash pos : U32) (e : L2Entry) : L2Entry × U64 :=
  readEntry fillL2Entry rowKey (t.l2 (splitBucketIndex hash pos)) e

/-- `rtl930x_write_l2_entry_using_hash`. -/
def writeL2EntryUsingHash (_ : U32) (t : Tables) (hash pos : U32) (e : L2Entry) : Tables :=
  t.setL2 (bucketIndex hash pos) (fillL2Row e)

/-- `rtl930x_read_cam`. -/
def readCam (t : Tables) (idx : U32) (e : L2Entry) : L2Entry × U64 :=
  readEntry fillL2Entry camKey (t.cam idx) e

/-- `rtl930x_write_cam`. -/
def writeCam (t : Tables) (idx : U32) (e : L2Entry) : Tables :=
  t.setCam idx (fillL2Row e)

/-- `rtldsa_930x_cfg`. -/
def cfg : Family where
  cpuPort := 28
  l2BucketSize := 8
  l2HashSeed := l2HashSeed
  l2HashKey := l2HashKey
  fillL2Entry := fillL2Entry
  readL2EntryUsingHash := readL2EntryUsingHash
  writeL2EntryUsingHash := writeL2EntryUsingHash
  readCam := readCam
  writeCam := writeCam
  prepareLagFdb := some rtldsa93xxPrepareLagFdb

section Rows

variable (k : Key) (port : ℕ)

theorem fillL2Row_entry :
    fillL2Row (k.entry port) =
      { r0 := k.addr.b0.setWidth 32 <<< 24 ||| k.addr.b1.setWidth 32 <<< 16 |||
          k.addr.b2.setWidth 32 <<< 8 ||| k.addr.b3.setWidth 32
        r1 := k.addr.b4.setWidth 32 <<< 24 ||| k.addr.b5.setWidth 32 <<< 16 |||
          (k.vid.setWidth 32 &&& 0xfff)
        r2 := bit 31 ||| bit 14 ||| ((BitVec.ofNat 8 port).setWidth 32 &&& 0x3ff) <<< 20 |||
          ((BitVec.ofNat 8 port).setWidth 32 &&& 0x3f) <<< 20 ||| (bit 17 ||| bit 18) |||
          (k.vid.setWidth 32 &&& 0xfff)
        r3 := 0 } := by
  have hage : bit 17 ||| bit 18 = ((3 : U32) &&& 0x3) <<< 17 := by decide
  rw [hage]
  simp [fillL2Row, Key.entry, rtldsaSetupL2UcEntry, L2Entry.zero, flag]

variable {port}

/-- The row of a pair is read as the entry of the pair. -/
theorem shows_fillL2Row (hport : port ≤ 28) :
    (fillL2Row (k.entry port)).Shows fillL2Entry k port := by
  have hvid : ∀ i, 12 ≤ i → k.vid.getLsbD i = false := fun i hi => k.getLsbD_vid hi
  have hports : ∀ i, 5 ≤ i → (BitVec.ofNat 8 port).getLsbD i = false :=
    fun i hi => getLsbD_port (show port < 2 ^ 5 by omega) hi
  rw [fillL2Row_entry]
  generalize hr0 : k.addr.b0.setWidth 32 <<< 24 ||| k.addr.b1.setWidth 32 <<< 16 |||
    k.addr.b2.setWidth 32 <<< 8 ||| k.addr.b3.setWidth 32 = r0
  generalize hr1 : k.addr.b4.setWidth 32 <<< 24 ||| k.addr.b5.setWidth 32 <<< 16 |||
    (k.vid.setWidth 32 &&& 0xfff) = r1
  generalize hr2 : bit 31 ||| bit 14 |||
    ((BitVec.ofNat 8 port).setWidth 32 &&& 0x3ff) <<< 20 |||
    ((BitVec.ofNat 8 port).setWidth 32 &&& 0x3f) <<< 20 ||| (bit 17 ||| bit 18) |||
    (k.vid.setWidth 32 &&& 0xfff) = r2
  have hvalid : test r2 31 = true := by
    simp [test_eq, ← hr2]
  have htrunk : test r2 30 = false := by
    simp [test_eq, ← hr2]
  have hnext : test r2 12 = false := by
    simp [test_eq, ← hr2]
  have hmac : Mac.mk ((r0 >>> 24).setWidth 8) ((r0 >>> 16).setWidth 8) ((r0 >>> 8).setWidth 8)
      (r0.setWidth 8) ((r1 >>> 24).setWidth 8) ((r1 >>> 16).setWidth 8) = k.addr := by
    rw [← hr0, ← hr1]
    cases k.addr
    rw [Mac.mk.injEq]
    refine ⟨?_, ?_, ?_, ?_, ?_, ?_⟩ <;> (apply BitVec.eq_of_getLsbD_eq; intro i hi) <;>
      simp <;> grind
  have hrvid : (r1 &&& 0xfff).setWidth 16 = k.vid := by
    apply BitVec.eq_of_getLsbD_eq
    intro i hi
    simp [← hr1]
    grind
  have hvidread : (r2 &&& 0xfff).setWidth 16 = k.vid := by
    apply BitVec.eq_of_getLsbD_eq
    intro i hi
    simp [← hr2, getLsbD_bit]
    grind
  have hportread : ((r2 >>> 20) &&& 0x3ff).setWidth 8 &&& 0x3f = BitVec.ofNat 8 port := by
    apply BitVec.eq_of_getLsbD_eq
    intro i hi
    simp [← hr2, getLsbD_bit]
    grind
  constructor <;> intro e <;>
    simp only [fillL2Entry, hvalid, htrunk, hmac, k.unicast, hrvid, hvidread, hportread, hnext] <;>
    simp

end Rows

theorem keyFits_l2HashKey (l2Ctrl : U32) (seed : U64) : KeyFits (l2HashKey l2Ctrl seed) := by
  unfold l2HashKey
  simp only
  split <;> split <;> refine keyFits_pair ?_ ?_ (by decide) <;> intro i hi <;> simp <;> grind

def layout : Layout cfg where
  index := splitBucketIndex
  rowKey := rowKey
  camKey := camKey
  l2Row _ _ := fillL2Row
  camRow := fillL2Row
  read_l2 _ _ _ _ := rfl
  write_l2 _ _ _ _ _ := rfl
  read_cam _ _ _ := rfl
  write_cam _ _ _ := rfl
  l2Row_invalid _ _ e he := by simp [fillL2Row, he]
  camRow_invalid e he := by simp [fillL2Row, he]
  fill_zero e := by simp [cfg, fillL2Entry, Row.zero, test]
  size_le := by decide
  shows_l2 _ _ k _ hport := shows_fillL2Row k hport
  shows_cam k _ hport := shows_fillL2Row k hport
  rowKey_l2 _ _ k port e hport := by
    have hshows := shows_fillL2Row k hport
    rw [rowKey, show cfg.fillL2Entry = fillL2Entry from rfl, hshows.mac, hshows.rvid]
    rfl
  camKey_cam k _ e e' hport := by
    have hshows := shows_fillL2Row k hport
    rw [camKey, camKey, show cfg.fillL2Entry = fillL2Entry from rfl, hshows.vid, hshows.vid]
  seed_mask k := k.vidMac_mask
  seed_injective _ _ h := Key.vidMac_injective h
  slotIndex_eq ctrl k _ _ hplace :=
    splitBucketIndex_slotIndex (keyFits_l2HashKey ctrl (k.seed cfg)) hplace

end OpenWrt.Rtl83xx.Rtl930x
