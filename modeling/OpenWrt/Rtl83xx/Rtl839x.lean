/-
# The L2 table of RTL839x

As on RTL838x there is no valid bit. The row holds the bytes of the address apart from
each other and the key of a row is made from the entry that was read.
-/

import OpenWrt.Rtl83xx.Layout

namespace OpenWrt.Rtl83xx.Rtl839x

/-- `rtl839x_l2_hash_seed`. -/
def l2HashSeed (mac : U64) (vid : U32) : U64 :=
  vid.setWidth 64 <<< 48 ||| mac

/-- `rtl839x_l2_hash_key`. -/
def l2HashKey (l2Ctrl0 : U32) (seed : U64) : U32 :=
  if l2Ctrl0 &&& 1 != 0 then
    let h1 : U32 := (((seed >>> 60) &&& 0x3f) ^^^ ((seed >>> 54) &&& 0x3f) ^^^
      ((seed >>> 36) &&& 0x3f) ^^^ ((seed >>> 30) &&& 0x3f) ^^^
      ((seed >>> 12) &&& 0x3f) ^^^ ((seed >>> 6) &&& 0x3f)).setWidth 32
    let h2 : U32 := (((seed >>> 48) &&& 0x3f) ^^^ ((seed >>> 42) &&& 0x3f) ^^^
      ((seed >>> 24) &&& 0x3f) ^^^ ((seed >>> 18) &&& 0x3f) ^^^ (seed &&& 0x3f)).setWidth 32
    h1 <<< 6 ||| h2
  else
    ((seed >>> 60) ^^^ ((((seed >>> 48) &&& 0x3f) <<< 6) ||| ((seed >>> 54) &&& 0x3f)) ^^^
      ((seed >>> 36) &&& 0xfff) ^^^ ((seed >>> 24) &&& 0xfff) ^^^
      ((seed >>> 12) &&& 0xfff) ^^^ (seed &&& 0xfff)).setWidth 32

/-- `rtl839x_fill_l2_entry`. -/
def fillL2Entry (r : Row) (e : L2Entry) : L2Entry :=
  let e := { e with isIpMc := test r.r2 31, isIpv6Mc := test r.r2 30, type := .invalid }
  let e :=
    if !e.isIpMc && !e.isIpv6Mc then
      let e := { e with
        mac := {
          b0 := (r.r0 >>> 12).setWidth 8
          b1 := (r.r0 >>> 4).setWidth 8
          b2 := (r.r1 >>> 28 ||| r.r0 <<< 4).setWidth 8
          b3 := (r.r1 >>> 20).setWidth 8
          b4 := (r.r1 >>> 12).setWidth 8
          b5 := (r.r1 >>> 4).setWidth 8 }
        vid := ((r.r2 >>> 4) &&& 0xfff).setWidth 16
        rvid := ((r.r0 >>> 20) &&& 0xfff).setWidth 16 }
      -- is it a unicast entry?
      if !e.mac.isMulticast then
        let e := { e with
          isStatic := (r.r2 >>> 18) &&& 1 != 0
          port := ((r.r2 >>> 24) &&& 0x3f).setWidth 8
          blockDa := test r.r2 19
          blockSa := test r.r2 20
          suspended := test r.r2 17
          nextHop := test r.r2 16 }
        let e := if e.nextHop then
            { e with
              nhVlanTarget := test r.r2 15
              nhRouteId := ((r.r2 >>> 4) &&& 0x1ff).setWidth 16
              vid := e.rvid }
          else e
        let e := { e with age := (r.r2 >>> 21) &&& 3, valid := true }
        if r.r2 &&& 0xc0fd0000 == 0 then { e with valid := false }
        else { e with type := .unicast }
      else
        { e with
          valid := true
          type := .multicast
          mcPortmaskIndex := ((r.r2 >>> 6) &&& 0xfff).setWidth 16
          vid := e.rvid }
    else
      { e with
        vid := ((r.r0 <<< 20) &&& 0xfff).setWidth 16
        rvid := ((r.r0 <<< 20) &&& 0xfff).setWidth 16
        mcGip := r.r1
        mcPortmaskIndex := ((r.r2 >>> 6) &&& 0xfff).setWidth 16 }
  let e := if e.isIpMc then { e with valid := true, type := .ip4Multicast } else e
  if e.isIpv6Mc then { e with valid := true, type := .ip6Multicast } else e

/-- `rtl839x_fill_l2_row`. -/
def fillL2Row (e : L2Entry) : Row :=
  if !e.valid then Row.zero
  else
    let r2 := flag e.isIpMc (bit 31) ||| flag e.isIpv6Mc (bit 30)
    if !e.isIpMc && !e.isIpv6Mc then
      let r0 : U32 := e.mac.b0.setWidth 32 <<< 12 ||| e.mac.b1.setWidth 32 <<< 4 |||
        e.mac.b2.setWidth 32 >>> 4
      let r1 : U32 := e.mac.b2.setWidth 32 <<< 28 ||| e.mac.b3.setWidth 32 <<< 20 |||
        e.mac.b4.setWidth 32 <<< 12 ||| e.mac.b5.setWidth 32 <<< 4
      if !e.mac.isMulticast then
        let r2 := r2 ||| flag e.isStatic (bit 18)
        let r0 := r0 ||| e.rvid.setWidth 32 <<< 20
        let r2 := r2 ||| e.port.setWidth 32 <<< 24 ||| flag e.blockDa (bit 19) |||
          flag e.blockSa (bit 20) ||| flag e.suspended (bit 17) ||| e.age <<< 21
        let r2 := if e.nextHop then
            r2 ||| bit 16 ||| flag e.nhVlanTarget (bit 15) |||
              (e.nhRouteId.setWidth 32 &&& 0x7ff) <<< 4
          else r2 ||| e.vid.setWidth 32 <<< 4
        { r0 := r0, r1 := r1, r2 := r2, r3 := 0 }
      else
        { r0 := r0 ||| e.rvid.setWidth 32 <<< 20
          r1 := r1
          r2 := r2 ||| e.mcPortmaskIndex.setWidth 32 <<< 6
          r3 := 0 }
    else
      { r0 := e.rvid.setWidth 32 <<< 20
        r1 := e.mcGip
        r2 := r2 ||| e.mcPortmaskIndex.setWidth 32 <<< 6
        r3 := 0 }

def rowKey (_ : Row) (e : L2Entry) : U64 :=
  l2HashSeed (etherAddrToU64 e.mac) (e.rvid.setWidth 32)

/-- `rtl839x_read_l2_entry_using_hash`. -/
def readL2EntryUsingHash (t : Tables) (hash pos : U32) (e : L2Entry) : L2Entry × U64 :=
  readEntry fillL2Entry rowKey (t.l2 (bucketIndex hash pos)) e

/-- `rtl839x_write_l2_entry_using_hash`. -/
def writeL2EntryUsingHash (_ : U32) (t : Tables) (hash pos : U32) (e : L2Entry) : Tables :=
  t.setL2 (bucketIndex hash pos) (fillL2Row e)

/-- `rtl839x_read_cam`. -/
def readCam (t : Tables) (idx : U32) (e : L2Entry) : L2Entry × U64 :=
  readEntry fillL2Entry rowKey (t.cam idx) e

/-- `rtl839x_write_cam`. -/
def writeCam (t : Tables) (idx : U32) (e : L2Entry) : Tables :=
  t.setCam idx (fillL2Row e)

/-- `rtldsa_839x_cfg`. -/
def cfg : Family where
  cpuPort := 52
  l2BucketSize := 4
  l2HashSeed := l2HashSeed
  l2HashKey := l2HashKey
  fillL2Entry := fillL2Entry
  readL2EntryUsingHash := readL2EntryUsingHash
  writeL2EntryUsingHash := writeL2EntryUsingHash
  readCam := readCam
  writeCam := writeCam
  prepareLagFdb := none

section Rows

variable (k : Key) (port : ℕ)

theorem fillL2Row_entry :
    fillL2Row (k.entry port) =
      { r0 := k.addr.b0.setWidth 32 <<< 12 ||| k.addr.b1.setWidth 32 <<< 4 |||
          k.addr.b2.setWidth 32 >>> 4 ||| k.vid.setWidth 32 <<< 20
        r1 := k.addr.b2.setWidth 32 <<< 28 ||| k.addr.b3.setWidth 32 <<< 20 |||
          k.addr.b4.setWidth 32 <<< 12 ||| k.addr.b5.setWidth 32 <<< 4
        r2 := bit 18 ||| (BitVec.ofNat 8 port).setWidth 32 <<< 24 ||| (bit 21 ||| bit 22) |||
          k.vid.setWidth 32 <<< 4
        r3 := 0 } := by
  have hage : bit 21 ||| bit 22 = (3 : U32) <<< 21 := by decide
  rw [hage]
  simp [fillL2Row, Key.entry, rtldsaSetupL2UcEntry, L2Entry.zero, k.unicast, flag]

variable {port}

/-- The row of a pair is read as the entry of the pair. -/
theorem shows_fillL2Row (hport : port ≤ 52) :
    (fillL2Row (k.entry port)).Shows fillL2Entry k port := by
  have hvid : ∀ i, 12 ≤ i → k.vid.getLsbD i = false := fun i hi => k.getLsbD_vid hi
  have hports : ∀ i, 6 ≤ i → (BitVec.ofNat 8 port).getLsbD i = false :=
    fun i hi => getLsbD_port (show port < 2 ^ 6 by omega) hi
  rw [fillL2Row_entry]
  generalize hr0 : k.addr.b0.setWidth 32 <<< 12 ||| k.addr.b1.setWidth 32 <<< 4 |||
    k.addr.b2.setWidth 32 >>> 4 ||| k.vid.setWidth 32 <<< 20 = r0
  generalize hr1 : k.addr.b2.setWidth 32 <<< 28 ||| k.addr.b3.setWidth 32 <<< 20 |||
    k.addr.b4.setWidth 32 <<< 12 ||| k.addr.b5.setWidth 32 <<< 4 = r1
  generalize hr2 : bit 18 ||| (BitVec.ofNat 8 port).setWidth 32 <<< 24 ||| (bit 21 ||| bit 22) |||
    k.vid.setWidth 32 <<< 4 = r2
  have hipmc : test r2 31 = false := by
    have := hports 7 (by decide)
    simpa [test_eq, ← hr2] using this
  have hipv6 : test r2 30 = false := by
    have := hports 6 (by decide)
    simpa [test_eq, ← hr2] using this
  have hnext : test r2 16 = false := by
    have := hvid 12 (by decide)
    simpa [test_eq, ← hr2] using this
  have hvalid : (r2 &&& 0xc0fd0000 == 0) = false :=
    and_beq_zero_of_getLsbD 18 (by simp [← hr2]) (by decide)
  have hmac : Mac.mk ((r0 >>> 12).setWidth 8) ((r0 >>> 4).setWidth 8)
      ((r1 >>> 28 ||| r0 <<< 4).setWidth 8) ((r1 >>> 20).setWidth 8) ((r1 >>> 12).setWidth 8)
      ((r1 >>> 4).setWidth 8) = k.addr := by
    rw [← hr0, ← hr1]
    cases k.addr
    rw [Mac.mk.injEq]
    refine ⟨?_, ?_, ?_, ?_, ?_, ?_⟩ <;> (apply BitVec.eq_of_getLsbD_eq; intro i hi) <;>
      simp <;> grind
  have hrvid : ((r0 >>> 20) &&& 0xfff).setWidth 16 = k.vid := by
    apply BitVec.eq_of_getLsbD_eq
    intro i hi
    simp [← hr0]
    grind
  have hvidread : ((r2 >>> 4) &&& 0xfff).setWidth 16 = k.vid := by
    apply BitVec.eq_of_getLsbD_eq
    intro i hi
    simp [← hr2, getLsbD_bit]
    grind
  have hportread : ((r2 >>> 24) &&& 0x3f).setWidth 8 = BitVec.ofNat 8 port := by
    apply BitVec.eq_of_getLsbD_eq
    intro i hi
    simp [← hr2, getLsbD_bit]
    grind
  constructor <;> intro e <;>
    simp only [fillL2Entry, hipmc, hipv6, hmac, k.unicast, hvalid, hrvid, hvidread, hportread, hnext] <;>
    simp

end Rows

theorem getLsbD_l2HashKey (l2Ctrl0 : U32) (seed : U64) {i : ℕ} (hi : 12 ≤ i) :
    (l2HashKey l2Ctrl0 seed).getLsbD i = false := by
  unfold l2HashKey
  split
  · simp
    grind
  · simp
    grind

theorem fillL2Row_of_invalid {e : L2Entry} (h : e.valid = false) : fillL2Row e = .zero := by
  simp [fillL2Row, h]

theorem bucketIndex_l2HashKey (ctrl : U32) (k : Key) (i : ℕ) (hi : i < 4) :
    bucketIndex (slotIndex (l2HashKey ctrl (k.seed cfg)) (BitVec.ofNat 32 i) >>> 2)
        (slotIndex (l2HashKey ctrl (k.seed cfg)) (BitVec.ofNat 32 i) &&& 3) =
      bucketIndex (l2HashKey ctrl (k.seed cfg)) (BitVec.ofNat 32 i) :=
  bucketIndex_slotIndex_low (fun j hj => getLsbD_l2HashKey ctrl _ (by omega)) (by omega)

def layout : Layout cfg where
  index := bucketIndex
  rowKey := rowKey
  camKey := rowKey
  l2Row _ _ := fillL2Row
  camRow := fillL2Row
  read_l2 _ _ _ _ := rfl
  write_l2 _ _ _ _ _ := rfl
  read_cam _ _ _ := rfl
  write_cam _ _ _ := rfl
  l2Row_invalid _ _ _ := fillL2Row_of_invalid
  camRow_invalid _ := fillL2Row_of_invalid
  fill_zero e := by simp [cfg, fillL2Entry, Row.zero, test, Mac.isMulticast]
  size_le := by decide
  shows_l2 _ _ k _ hport := shows_fillL2Row k hport
  shows_cam k _ hport := shows_fillL2Row k hport
  rowKey_l2 _ _ k port e hport := by
    have hshows := shows_fillL2Row k hport
    rw [rowKey, show cfg.fillL2Entry = fillL2Entry from rfl, hshows.mac, hshows.rvid]
    rfl
  camKey_cam k _ e e' hport := by
    have hshows := shows_fillL2Row k hport
    rw [rowKey, rowKey, show cfg.fillL2Entry = fillL2Entry from rfl, hshows.mac, hshows.mac,
      hshows.rvid, hshows.rvid]
  seed_mask k := k.vidMac_mask
  seed_injective _ _ h := Key.vidMac_injective h
  slotIndex_eq ctrl k i hi _ := bucketIndex_l2HashKey ctrl k i hi

end OpenWrt.Rtl83xx.Rtl839x
