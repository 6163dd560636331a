/-
# The L2 table of RTL838x

Rows have no valid bit: an entry is valid when one of its other flags is set. The
address and the VID stand in the row as the hash seed puts them, in the hash table
and in the CAM.
-/

import OpenWrt.Rtl83xx.Layout

namespace OpenWrt.Rtl83xx.Rtl838x

/-- `rtl838x_l2_hash_seed`. -/
def l2HashSeed (mac : U64) (vid : U32) : U64 :=
  mac <<< 12 ||| vid.setWidth 64

/-- `rtl838x_l2_hash_key`. -/
def l2HashKey (l2Ctrl0 : U32) (seed : U64) : U32 :=
  if l2Ctrl0 &&& 1 != 0 then
    let h1 : U32 := ((seed >>> 11) &&& 0x7ff).setWidth 32
    let h1 := ((h1 &&& 0x1f) <<< 6) ||| ((h1 >>> 5) &&& 0x3f)
    let h2 : U32 := ((seed >>> 33) &&& 0x7ff).setWidth 32
    let h2 := ((h2 &&& 0x3f) <<< 5) ||| ((h2 >>> 6) &&& 0x1f)
    let h3 : U32 := ((seed >>> 44) &&& 0x7ff).setWidth 32
    let h3 := ((h3 &&& 0x7f) <<< 4) ||| ((h3 >>> 7) &&& 0xf)
    let h := h1 ^^^ h2 ^^^ h3 ^^^ ((seed >>> 55) &&& 0x1ff).setWidth 32
    h ^^^ (((seed >>> 22) &&& 0x7ff) ^^^ (seed &&& 0x7ff)).setWidth 32
  else
    (((seed >>> 55) &&& 0x1ff) ^^^ ((seed >>> 44) &&& 0x7ff) ^^^
      ((seed >>> 33) &&& 0x7ff) ^^^ ((seed >>> 22) &&& 0x7ff) ^^^
      ((seed >>> 11) &&& 0x7ff) ^^^ (seed &&& 0x7ff)).setWidth 32

/-- `rtl838x_fill_l2_entry`. -/
def fillL2Entry (r : Row) (e : L2Entry) : L2Entry :=
  let e := { e with isIpMc := test r.r0 22, isIpv6Mc := test r.r0 21, type := .invalid }
  let e :=
    if !e.isIpMc && !e.isIpv6Mc then
      let e := { e with
        mac := {
          b0 := (r.r1 >>> 20).setWidth 8
          b1 := (r.r1 >>> 12).setWidth 8
          b2 := (r.r1 >>> 4).setWidth 8
          b3 := ((r.r1 &&& 0xf) <<< 4 ||| (r.r2 >>> 28)).setWidth 8
          b4 := (r.r2 >>> 20).setWidth 8
          b5 := (r.r2 >>> 12).setWidth 8 }
        rvid := (r.r2 &&& 0xfff).setWidth 16
        vid := (r.r0 &&& 0xfff).setWidth 16 }
      -- is it a unicast entry?
      if !e.mac.isMulticast then
        let e := { e with
          isStatic := (r.r0 >>> 19) &&& 1 != 0
          port := ((r.r0 >>> 12) &&& 0x1f).setWidth 8
          blockDa := test r.r1 30
          blockSa := test r.r1 31
          suspended := test r.r1 29
          nextHop := test r.r1 28 }
        let e := if e.nextHop then
            { e with
              nhVlanTarget := test r.r0 9
              nhRouteId := (r.r0 &&& 0x1ff).setWidth 16
              vid := e.rvid }
          else e
        let e := { e with age := (r.r0 >>> 17) &&& 0x3, valid := true }
        if r.r0 &&& 0x007c0000 == 0 && r.r1 &&& 0xd0000000 == 0 then
          { e with valid := false }
        else { e with type := .unicast }
      else
        { e with
          valid := true
          type := .multicast
          mcPortmaskIndex := ((r.r0 >>> 12) &&& 0x1ff).setWidth 16 }
    else
      { e with
        valid := true
        mcPortmaskIndex := ((r.r0 >>> 12) &&& 0x1ff).setWidth 16
        mcGip := r.r1 <<< 20 ||| r.r2 >>> 12
        rvid := (r.r2 &&& 0xfff).setWidth 16 }
  let e := if e.isIpMc then { e with type := .ip4Multicast } else e
  if e.isIpv6Mc then { e with type := .ip6Multicast } else e

/-- `rtl838x_fill_l2_row`. -/
def fillL2Row (e : L2Entry) : Row :=
  if !e.valid then Row.zero
  else
    let mac := etherAddrToU64 e.mac
    let r0 := flag e.isIpMc (bit 22) ||| flag e.isIpv6Mc (bit 21)
    if !e.isIpMc && !e.isIpv6Mc then
      let r1 : U32 := (mac >>> 20).setWidth 32
      let r2 : U32 := ((mac &&& 0xfffff) <<< 12).setWidth 32
      if !e.mac.isMulticast then
        let r0 := r0 ||| flag e.isStatic (bit 19) |||
          (e.port.setWidth 32 &&& 0x3f) <<< 12 ||| e.vid.setWidth 32
        let r1 := r1 ||| flag e.blockDa (bit 30) ||| flag e.blockSa (bit 31) |||
          flag e.suspended (bit 29)
        let r2 := r2 ||| (e.rvid.setWidth 32 &&& 0xfff)
        let r1 := r1 ||| flag e.nextHop (bit 28)
        let r0 := r0 ||| flag (e.nextHop && e.nhVlanTarget) (bit 9) |||
          flag e.nextHop (e.nhRouteId.setWidth 32 &&& 0x1ff)
        { r0 := r0 ||| (e.age &&& 0x3) <<< 17, r1 := r1, r2 := r2, r3 := 0 }
      else
        { r0 := r0 ||| (e.mcPortmaskIndex.setWidth 32 &&& 0x1ff) <<< 12 |||
            (e.vid.setWidth 32 &&& 0xfff)
          r1 := r1
          r2 := r2 ||| (e.rvid.setWidth 32 &&& 0xfff)
          r3 := 0 }
    else
      { r0 := r0 ||| (e.mcPortmaskIndex.setWidth 32 &&& 0x1ff) <<< 12
        r1 := e.mcGip >>> 20
        r2 := e.mcGip <<< 12 ||| e.rvid.setWidth 32
        r3 := 0 }

/-- The address and the VID of a row, concatenated as the hash seed. -/
def rowKey (r : Row) (_ : L2Entry) : U64 :=
  r.r1.setWidth 64 <<< 32 ||| r.r2.setWidth 64

/-- `rtl838x_read_l2_entry_using_hash`. -/
def readL2EntryUsingHash (t : Tables) (hash pos : U32) (e : L2Entry) : L2Entry × U64 :=
  readEntry fillL2Entry rowKey (t.l2 (bucketIndex hash pos)) e

/-- `rtl838x_write_l2_entry_using_hash`. -/
def writeL2EntryUsingHash (_ : U32) (t : Tables) (hash pos : U32) (e : L2Entry) : Tables :=
  t.setL2 (bucketIndex hash pos) (fillL2Row e)

/-- `rtl838x_read_cam`. -/
def readCam (t : Tables) (idx : U32) (e : L2Entry) : L2Entry × U64 :=
  readEntry fillL2Entry rowKey (t.cam idx) e

/-- `rtl838x_write_cam`. -/
def writeCam (t : Tables) (idx : U32) (e : L2Entry) : Tables :=
  t.setCam idx (fillL2Row e)

/-- `rtldsa_838x_cfg`. -/
def cfg : Family where
  cpuPort := 28
  l2BucketSize := 4
  l2HashSeed := l2HashSeed
  l2HashKey := l2HashKey
  fillL2Entry := fillL2Entry
  readL2EntryUsingHash := readL2EntryUsingHash
  writeL2EntryUsingHash := writeL2EntryUsingHash
  readCam := readCam
  writeCam := writeCam
  prepareLagFdb := none

section Rows

variable (k : Key) (port : ℕ)

theorem fillL2Row_entry :
    fillL2Row (k.entry port) =
      { r0 := bit 19 ||| ((BitVec.ofNat 8 port).setWidth 32 &&& 0x3f) <<< 12 |||
          k.vid.setWidth 32 ||| (bit 17 ||| bit 18)
        r1 := (etherAddrToU64 k.addr >>> 20).setWidth 32
        r2 := ((etherAddrToU64 k.addr &&& 0xfffff) <<< 12).setWidth 32 |||
          (k.vid.setWidth 32 &&& 0xfff)
        r3 := 0 } := by
  have hage : bit 17 ||| bit 18 = ((3 : U32) &&& 0x3) <<< 17 := by decide
  rw [hage]
  simp [fillL2Row, Key.entry, rtldsaSetupL2UcEntry, L2Entry.zero, k.unicast, flag]

/-- The address in the registers of a row. -/
def rowMac (r1 r2 : U32) : Mac where
  b0 := (r1 >>> 20).setWidth 8
  b1 := (r1 >>> 12).setWidth 8
  b2 := (r1 >>> 4).setWidth 8
  b3 := ((r1 &&& 0xf) <<< 4 ||| (r2 >>> 28)).setWidth 8
  b4 := (r2 >>> 20).setWidth 8
  b5 := (r2 >>> 12).setWidth 8

theorem rowMac_fillL2Row :
    rowMac (fillL2Row (k.entry port)).r1 (fillL2Row (k.entry port)).r2 = k.addr := by
  rw [fillL2Row_entry, rowMac, Mac.mk.injEq]
  refine ⟨?_, ?_, ?_, ?_, ?_, ?_⟩ <;> (apply BitVec.eq_of_getLsbD_eq; intro i hi) <;>
    simp [getLsbD_etherAddrToU64] <;> grind

variable {port}

/-- The row of a pair is read as the entry of the pair. -/
theorem shows_fillL2Row (hport : port ≤ 28) :
    (fillL2Row (k.entry port)).Shows fillL2Entry k port := by
  have hvid : ∀ i, 12 ≤ i → k.vid.getLsbD i = false := fun i hi => k.getLsbD_vid hi
  have hports : ∀ i, 5 ≤ i → (BitVec.ofNat 8 port).getLsbD i = false :=
    fun i hi => getLsbD_port (show port < 2 ^ 5 by omega) hi
  have hmac := rowMac_fillL2Row k port
  rw [fillL2Row_entry] at hmac ⊢
  generalize hr0 : bit 19 ||| ((BitVec.ofNat 8 port).setWidth 32 &&& 0x3f) <<< 12 |||
    k.vid.setWidth 32 ||| (bit 17 ||| bit 18) = r0 at hmac ⊢
  have hipmc : test r0 22 = false := by
    simp [test_eq, ← hr0]
  have hipv6 : test r0 21 = false := by
    simp [test_eq, ← hr0]
  have hvalid : (r0 &&& 0x007c0000 == 0) = false :=
    and_beq_zero_of_getLsbD 19 (by simp [← hr0]) (by decide)
  have hnext : test ((etherAddrToU64 k.addr >>> 20).setWidth 32) 28 = false := by
    rw [test_eq (by decide), BitVec.getLsbD_setWidth, BitVec.getLsbD_ushiftRight,
      getLsbD_etherAddrToU64_of_le _ (by decide), Bool.and_false]
  have hrvid : ((((etherAddrToU64 k.addr &&& 0xfffff) <<< 12).setWidth 32 |||
      (k.vid.setWidth 32 &&& 0xfff)) &&& 0xfff : U32).setWidth 16 = k.vid := by
    apply BitVec.eq_of_getLsbD_eq
    intro i hi
    simp
    grind
  have hvidread : (r0 &&& 0xfff).setWidth 16 = k.vid := by
    apply BitVec.eq_of_getLsbD_eq
    intro i hi
    simp [← hr0, getLsbD_bit]
    grind
  have hportread : ((r0 >>> 12) &&& 0x1f).setWidth 8 = BitVec.ofNat 8 port := by
    apply BitVec.eq_of_getLsbD_eq
    intro i hi
    simp [← hr0, getLsbD_bit]
    grind
  simp only [rowMac] at hmac
  constructor <;> intro e <;>
    simp only [fillL2Entry, hipmc, hipv6, hmac, k.unicast, hvalid, hrvid, hvidread, hportread, hnext] <;> simp
/-- The key of the row of a pair is its seed. -/
theorem rowKey_fillL2Row (port : ℕ) (e : L2Entry) :
    rowKey (fillL2Row (k.entry port)) e =
      l2HashSeed (etherAddrToU64 k.addr) (k.vid.setWidth 32) := by
  have hvid : ∀ i, 12 ≤ i → k.vid.getLsbD i = false := fun i hi => k.getLsbD_vid hi
  rw [fillL2Row_entry, rowKey, l2HashSeed]
  apply BitVec.eq_of_getLsbD_eq
  intro i hi
  simp [getLsbD_etherAddrToU64]
  grind

end Rows

theorem getLsbD_seed (k : Key) (i : ℕ) :
    (k.seed cfg).getLsbD i =
      if i < 12 then k.vid.getLsbD i else (etherAddrToU64 k.addr).getLsbD (i - 12) := by
  have hvid : ∀ i, 12 ≤ i → k.vid.getLsbD i = false := fun i hi => k.getLsbD_vid hi
  simp [Key.seed, cfg, l2HashSeed, getLsbD_etherAddrToU64]
  grind

/-- A seed determines its pair. -/
theorem seed_injective (k k' : Key) (h : k.seed cfg = k'.seed cfg) : k = k' := by
  have hbits : ∀ i, (k.seed cfg).getLsbD i = (k'.seed cfg).getLsbD i := fun i => by rw [h]
  have hvid : k.vid = k'.vid := by
    apply BitVec.eq_of_getLsbD_eq
    intro i hi
    rcases Nat.lt_or_ge i 12 with hlt | hge
    · simpa [getLsbD_seed, hlt] using hbits i
    · rw [k.getLsbD_vid hge, k'.getLsbD_vid hge]
  have haddr : etherAddrToU64 k.addr = etherAddrToU64 k'.addr := by
    apply BitVec.eq_of_getLsbD_eq
    intro i hi
    simpa [getLsbD_seed] using hbits (i + 12)
  exact Key.ext_of_seed hvid haddr

theorem getLsbD_l2HashKey (l2Ctrl0 : U32) (seed : U64) {i : ℕ} (hi : 11 ≤ i) :
    (l2HashKey l2Ctrl0 seed).getLsbD i = false := by
  unfold l2HashKey
  split
  · simp
    grind
  · simp
    grind

def layout : Layout cfg where
  index := bucketIndex
  rowKey := rowKey
  camKey := rowKey
  l2Row _ _ := fillL2Row
  camRow := fillL2Row
  read_l2 _ _ _ _ := rfl
  write_l2 _ _ _ _ _ := rfl
  read_cam _ _ _ := rfl
  write_cam _ _ _ := rfl
  l2Row_invalid _ _ e he := by simp [fillL2Row, he]
  camRow_invalid e he := by simp [fillL2Row, he]
  fill_zero e := by simp [cfg, fillL2Entry, Row.zero, test, Mac.isMulticast]
  size_le := by decide
  shows_l2 _ _ k _ hport := shows_fillL2Row k hport
  shows_cam k _ hport := shows_fillL2Row k hport
  rowKey_l2 _ _ k port e _ := rowKey_fillL2Row k port _
  camKey_cam _ _ _ _ _ := rfl
  seed_mask k := by
    apply BitVec.eq_of_getLsbD_eq
    intro i hi
    simp [getLsbD_seed, seedMask]
    grind [getLsbD_etherAddrToU64_of_le]
  seed_injective := seed_injective
  slotIndex_eq ctrl k i hi hplace := by
    have hi' : i < 4 := hi
    exact bucketIndex_slotIndex_low (fun j hj => getLsbD_l2HashKey ctrl _ (by omega)) (by omega)

end OpenWrt.Rtl83xx.Rtl838x
