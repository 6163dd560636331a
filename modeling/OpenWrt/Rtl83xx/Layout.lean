/-
# What the row formats of the families share

The search of the forwarding database is one function over all families. It needs of a
family where it reads and writes, that a row shows the entry it was filled from, and
that the seed tells two pairs apart. These are the fields of a layout, proved for each
family beside its definitions.
-/

import Mathlib.Data.List.Basic
import Mathlib.Tactic.IntervalCases
import OpenWrt.Rtl83xx.L2Entry

namespace OpenWrt.Rtl83xx

section Bits

theorem getLsbD_of_eq_mask {w : ℕ} {x : BitVec w} (n : ℕ) (h : x = BitVec.ofNat w (2 ^ n - 1))
    (i : ℕ) : x.getLsbD i = (decide (i < w) && decide (i < n)) := by
  subst h
  simp [BitVec.getLsbD_ofNat]

@[simp]
theorem getLsbD_two (w i : ℕ) :
    (BitVec.ofNat w 2).getLsbD i = (decide (i < w) && decide (i = 1)) := by
  rw [BitVec.getLsbD_ofNat, show (2 : ℕ) = 2 ^ 1 from rfl, Nat.testBit_two_pow]
  grind

@[simp]
theorem getLsbD_mask2 (w i : ℕ) :
    (BitVec.ofNat w 3).getLsbD i = (decide (i < w) && decide (i < 2)) :=
  getLsbD_of_eq_mask 2 rfl i

@[simp]
theorem getLsbD_mask3 (w i : ℕ) :
    (BitVec.ofNat w 7).getLsbD i = (decide (i < w) && decide (i < 3)) :=
  getLsbD_of_eq_mask 3 rfl i

@[simp]
theorem getLsbD_mask4 (w i : ℕ) :
    (BitVec.ofNat w 15).getLsbD i = (decide (i < w) && decide (i < 4)) :=
  getLsbD_of_eq_mask 4 rfl i

@[simp]
theorem getLsbD_mask5 (w i : ℕ) :
    (BitVec.ofNat w 31).getLsbD i = (decide (i < w) && decide (i < 5)) :=
  getLsbD_of_eq_mask 5 rfl i

@[simp]
theorem getLsbD_mask6 (w i : ℕ) :
    (BitVec.ofNat w 63).getLsbD i = (decide (i < w) && decide (i < 6)) :=
  getLsbD_of_eq_mask 6 rfl i

@[simp]
theorem getLsbD_mask7 (w i : ℕ) :
    (BitVec.ofNat w 127).getLsbD i = (decide (i < w) && decide (i < 7)) :=
  getLsbD_of_eq_mask 7 rfl i

@[simp]
theorem getLsbD_mask8 (w i : ℕ) :
    (BitVec.ofNat w 255).getLsbD i = (decide (i < w) && decide (i < 8)) :=
  getLsbD_of_eq_mask 8 rfl i

@[simp]
theorem getLsbD_mask9 (w i : ℕ) :
    (BitVec.ofNat w 511).getLsbD i = (decide (i < w) && decide (i < 9)) :=
  getLsbD_of_eq_mask 9 rfl i

@[simp]
theorem getLsbD_mask10 (w i : ℕ) :
    (BitVec.ofNat w 1023).getLsbD i = (decide (i < w) && decide (i < 10)) :=
  getLsbD_of_eq_mask 10 rfl i

@[simp]
theorem getLsbD_mask11 (w i : ℕ) :
    (BitVec.ofNat w 2047).getLsbD i = (decide (i < w) && decide (i < 11)) :=
  getLsbD_of_eq_mask 11 rfl i

@[simp]
theorem getLsbD_mask12 (w i : ℕ) :
    (BitVec.ofNat w 4095).getLsbD i = (decide (i < w) && decide (i < 12)) :=
  getLsbD_of_eq_mask 12 rfl i

@[simp]
theorem getLsbD_mask16 (w i : ℕ) :
    (BitVec.ofNat w 65535).getLsbD i = (decide (i < w) && decide (i < 16)) :=
  getLsbD_of_eq_mask 16 rfl i

@[simp]
theorem getLsbD_mask20 (w i : ℕ) :
    (BitVec.ofNat w 1048575).getLsbD i = (decide (i < w) && decide (i < 20)) :=
  getLsbD_of_eq_mask 20 rfl i

@[simp]
theorem getLsbD_mask60 (w i : ℕ) :
    (BitVec.ofNat w 1152921504606846975).getLsbD i = (decide (i < w) && decide (i < 60)) :=
  getLsbD_of_eq_mask 60 rfl i

theorem getLsbD_of_toNat_lt {w n i : ℕ} {x : BitVec w} (h : x.toNat < 2 ^ n) (hi : n ≤ i) :
    x.getLsbD i = false := by
  have hpow : 2 ^ n ≤ 2 ^ i := Nat.pow_le_pow_right (by decide) hi
  exact Nat.testBit_lt_two_pow (Nat.lt_of_lt_of_le h hpow)

theorem getLsbD_bit {n : ℕ} (h : n < 32) (i : ℕ) : (bit n).getLsbD i = decide (n = i) := by
  simp [bit, h, BitVec.getLsbD_twoPow]

@[simp]
theorem getElem_bit {n i : ℕ} (hi : i < 32) : (bit n)[i] = decide (n = i) := by
  rw [← BitVec.getLsbD_eq_getElem, bit, BitVec.getLsbD_twoPow]
  grind

theorem test_eq {n : ℕ} (h : n < 32) (r : U32) : test r n = r.getLsbD n := by
  unfold test
  rw [Bool.eq_iff_iff, bne_iff_ne]
  constructor
  · intro hne
    by_contra hbit
    apply hne
    apply BitVec.eq_of_getLsbD_eq
    intro i _
    simp only [BitVec.getLsbD_and, getLsbD_bit h]
    grind
  · intro hbit hzero
    have := congrArg (BitVec.getLsbD · n) hzero
    simp [getLsbD_bit h, hbit] at this

theorem and_beq_zero_of_getLsbD {r mask : U32} (n : ℕ) (hr : r.getLsbD n = true)
    (hmask : mask.getLsbD n = true) : (r &&& mask == 0) = false := by
  rw [beq_eq_false_iff_ne]
  intro hzero
  have := congrArg (BitVec.getLsbD · n) hzero
  simp [hr, hmask] at this

theorem getLsbD_etherAddrToU64 (addr : Mac) (i : ℕ) :
    (etherAddrToU64 addr).getLsbD i =
      if i < 8 then addr.b5.getLsbD i
      else if i < 16 then addr.b4.getLsbD (i - 8)
      else if i < 24 then addr.b3.getLsbD (i - 16)
      else if i < 32 then addr.b2.getLsbD (i - 24)
      else if i < 40 then addr.b1.getLsbD (i - 32)
      else addr.b0.getLsbD (i - 40) := by
  simp [etherAddrToU64]
  grind

theorem getLsbD_etherAddrToU64_of_le (addr : Mac) {i : ℕ} (hi : 48 ≤ i) :
    (etherAddrToU64 addr).getLsbD i = false := by
  rw [getLsbD_etherAddrToU64]
  grind

@[simp]
theorem u64ToEtherAddr_etherAddrToU64 (addr : Mac) :
    u64ToEtherAddr (etherAddrToU64 addr) = addr := by
  obtain ⟨b0, b1, b2, b3, b4, b5⟩ := addr
  simp only [u64ToEtherAddr, etherAddrToU64, Mac.mk.injEq]
  refine ⟨?_, ?_, ?_, ?_, ?_, ?_⟩ <;> (ext i hi; simp) <;> grind

end Bits

/-- A unicast address in a VLAN, which is what the database is a map of. -/
structure Key where
  addr : Mac
  vid : U16
  unicast : addr.isMulticast = false
  vid_lt : vid < 4096
deriving DecidableEq

namespace Key

variable (F : Family) (k : Key)

def seed : U64 := F.l2HashSeed (etherAddrToU64 k.addr) (k.vid.setWidth 32)

/-- The entry that is set up for a pair. -/
def entry (port : ℕ) : L2Entry := rtldsaSetupL2UcEntry port k.vid (etherAddrToU64 k.addr)

theorem getLsbD_vid {i : ℕ} (hi : 12 ≤ i) : k.vid.getLsbD i = false :=
  getLsbD_of_toNat_lt (show k.vid.toNat < 2 ^ 12 from BitVec.lt_def.1 k.vid_lt) hi

theorem ext_of_seed {k k' : Key} (hvid : k.vid = k'.vid)
    (haddr : etherAddrToU64 k.addr = etherAddrToU64 k'.addr) : k = k' := by
  have hmac : k.addr = k'.addr := by
    rw [← u64ToEtherAddr_etherAddrToU64 k.addr, haddr, u64ToEtherAddr_etherAddrToU64]
  cases k
  cases k'
  simp_all

/-- The seed of the families that put the VID in front of the address. -/
def vidMac : U64 := (k.vid.setWidth 32).setWidth 64 <<< 48 ||| etherAddrToU64 k.addr

theorem getLsbD_vidMac (i : ℕ) :
    k.vidMac.getLsbD i =
      if i < 48 then (etherAddrToU64 k.addr).getLsbD i else k.vid.getLsbD (i - 48) := by
  have hvid : ∀ i, 12 ≤ i → k.vid.getLsbD i = false := fun i hi => k.getLsbD_vid hi
  simp [vidMac]
  grind [getLsbD_etherAddrToU64_of_le]

theorem vidMac_mask : k.vidMac &&& 0x0fffffffffffffff = k.vidMac := by
  apply BitVec.eq_of_getLsbD_eq
  intro i hi
  simp [getLsbD_vidMac]
  grind [getLsbD_vid]

theorem vidMac_injective {k k' : Key} (h : k.vidMac = k'.vidMac) : k = k' := by
  have hbits : ∀ i, k.vidMac.getLsbD i = k'.vidMac.getLsbD i := fun i => by rw [h]
  have hvid : k.vid = k'.vid := by
    apply BitVec.eq_of_getLsbD_eq
    intro i hi
    simpa [getLsbD_vidMac] using hbits (i + 48)
  have haddr : etherAddrToU64 k.addr = etherAddrToU64 k'.addr := by
    apply BitVec.eq_of_getLsbD_eq
    intro i hi
    rcases Nat.lt_or_ge i 48 with hlt | hge
    · simpa [getLsbD_vidMac, hlt] using hbits i
    · rw [getLsbD_etherAddrToU64_of_le _ hge, getLsbD_etherAddrToU64_of_le _ hge]
  exact ext_of_seed hvid haddr

end Key

theorem getLsbD_port {port n i : ℕ} (h : port < 2 ^ n) (hi : n ≤ i) :
    (BitVec.ofNat 8 port).getLsbD i = false := by
  apply getLsbD_of_toNat_lt (Nat.lt_of_le_of_lt _ h) hi
  exact Nat.mod_le _ _

def L2Entry.IsFor (e : L2Entry) (k : Key) : Prop :=
  e.valid = true ∧ e.type = .unicast ∧ e.mac = k.addr ∧ e.rvid = k.vid

instance (e : L2Entry) (k : Key) : Decidable (e.IsFor k) := by
  unfold L2Entry.IsFor
  infer_instance

/-- The row is read as the entry of the pair with the port, whatever the entry held
before. -/
structure Row.Shows (fill : Row → L2Entry → L2Entry) (row : Row) (k : Key) (port : ℕ) :
    Prop where
  valid : ∀ e, (fill row e).valid = true
  type : ∀ e, (fill row e).type = .unicast
  mac : ∀ e, (fill row e).mac = k.addr
  rvid : ∀ e, (fill row e).rvid = k.vid
  vid : ∀ e, (fill row e).vid = k.vid
  port : ∀ e, (fill row e).port = BitVec.ofNat 8 port

/-- The bits of an entry key that are compared with the seed. -/
def seedMask : U64 := 0x0fffffffffffffff

/-- The index that the search of a bucket makes of a place. -/
def slotIndex (key i : U32) : U32 :=
  if i > 3 then ((key >>> 14) &&& 0xffff) ||| i >>> 1 else ((key <<< 2) ||| i) &&& 0xffff

/-- A key whose bucket index fits the index arithmetic: one bucket, or two in the halves. -/
structure KeyFits (key : U32) : Prop where
  low : ∀ i, 14 ≤ i → i < 16 → key.getLsbD i = false
  high : ∀ i, 30 ≤ i → key.getLsbD i = false

/-- Two hashes of twelve bits side by side, the upper one moved to its half of the table. -/
theorem keyFits_pair {lower upper offset : U32} (hlower : ∀ i, 12 ≤ i → lower.getLsbD i = false)
    (hupper : ∀ i, 12 ≤ i → upper.getLsbD i = false) (hoffset : offset.toNat ≤ 4096) :
    KeyFits (lower ||| (upper + offset) <<< 16) := by
  have hlt : upper.toNat < 2 ^ 12 :=
    Nat.lt_pow_two_of_testBit _ fun i hi => hupper i hi
  have hsum : (upper + offset).toNat < 2 ^ 14 := by
    rw [BitVec.toNat_add]
    omega
  constructor
  · intro i hi hi'
    rw [BitVec.getLsbD_or, hlower i (by omega), BitVec.getLsbD_shiftLeft]
    simp [hi']
  · intro i hi
    rw [BitVec.getLsbD_or, hlower i (by omega), BitVec.getLsbD_shiftLeft,
      getLsbD_of_toNat_lt hsum (show 14 ≤ i - 16 by omega)]
    simp

theorem bucketIndex_slotIndex {key : U32} (hfits : KeyFits key) {i : ℕ} (hi : i ≤ 3) :
    bucketIndex (slotIndex key (BitVec.ofNat 32 i) >>> 2) (slotIndex key (BitVec.ofNat 32 i) &&& 3) =
      bucketIndex (key &&& 0xffff) (BitVec.ofNat 32 i) := by
  have hlow := hfits.low
  interval_cases i <;> (apply BitVec.eq_of_getLsbD_eq; intro j hj) <;>
    simp [bucketIndex, slotIndex] <;> grind

theorem bucketIndex_slotIndex_last {key : U32} (hfits : KeyFits key) :
    bucketIndex (slotIndex key 7 >>> 2) (slotIndex key 7 &&& 3) = bucketIndex (key >>> 16) 3 := by
  have hlow := hfits.low
  have hhigh := hfits.high
  apply BitVec.eq_of_getLsbD_eq
  intro j hj
  simp [bucketIndex, slotIndex]
  grind

theorem bucketIndex_slotIndex_low {key : U32} (hbits : ∀ i, 14 ≤ i → key.getLsbD i = false)
    {i : ℕ} (hi : i ≤ 3) :
    bucketIndex (slotIndex key (BitVec.ofNat 32 i) >>> 2) (slotIndex key (BitVec.ofNat 32 i) &&& 3) =
      bucketIndex key (BitVec.ofNat 32 i) := by
  have hlow : key &&& 0xffff = key := by
    apply BitVec.eq_of_getLsbD_eq
    intro j hj
    simp
    grind
  rw [bucketIndex_slotIndex ⟨fun j hj _ => hbits j hj, fun j hj => hbits j (by omega)⟩ hi, hlow]

theorem splitBucketIndex_slotIndex {key : U32} (hfits : KeyFits key) {i : ℕ}
    (hi : i ≤ 3 ∨ i = 7) :
    bucketIndex (slotIndex key (BitVec.ofNat 32 i) >>> 2) (slotIndex key (BitVec.ofNat 32 i) &&& 3) =
      splitBucketIndex key (BitVec.ofNat 32 i) := by
  rcases hi with hi | rfl
  · have hlt : ¬ BitVec.ofNat 32 i ≥ 4 := by interval_cases i <;> decide
    rw [bucketIndex_slotIndex hfits hi, splitBucketIndex, if_neg hlt]
  · exact bucketIndex_slotIndex_last hfits

/-- Where the rows of a family lie and what they show. -/
structure Layout (F : Family) where
  /-- Index of the row that is read for a place of a key. -/
  index : U32 → U32 → U32
  /-- The number that is compared with the seed, in the hash table and in the CAM. -/
  rowKey : Row → L2Entry → U64
  camKey : Row → L2Entry → U64
  /-- The rows that are written. -/
  l2Row : U32 → U32 → L2Entry → Row
  camRow : L2Entry → Row
  read_l2 : ∀ t hash pos e,
    F.readL2EntryUsingHash t hash pos e =
      readEntry F.fillL2Entry rowKey (t.l2 (index hash pos)) e
  write_l2 : ∀ ctrl t hash pos e,
    F.writeL2EntryUsingHash ctrl t hash pos e =
      t.setL2 (bucketIndex hash pos) (l2Row ctrl (bucketIndex hash pos) e)
  read_cam : ∀ t idx e, F.readCam t idx e = readEntry F.fillL2Entry camKey (t.cam idx) e
  write_cam : ∀ t idx e, F.writeCam t idx e = t.setCam idx (camRow e)
  /-- An entry that is not valid clears its row, and a cleared row is not valid. -/
  l2Row_invalid : ∀ ctrl idx e, e.valid = false → l2Row ctrl idx e = Row.zero
  camRow_invalid : ∀ e, e.valid = false → camRow e = Row.zero
  fill_zero : ∀ e, (F.fillL2Entry Row.zero e).valid = false
  /-- There are at most two buckets of four rows. -/
  size_le : F.l2BucketSize ≤ 8
  /-- The row of a pair shows it. -/
  shows_l2 : ∀ ctrl idx k port, port ≤ F.cpuPort →
    (l2Row ctrl idx (k.entry port)).Shows F.fillL2Entry k port
  shows_cam : ∀ k port, port ≤ F.cpuPort → (camRow (k.entry port)).Shows F.fillL2Entry k port
  /-- The key of a row of the hash table is the seed of its pair. -/
  rowKey_l2 : ∀ ctrl idx (k : Key) port e, port ≤ F.cpuPort →
    rowKey (l2Row ctrl idx (k.entry port)) (F.fillL2Entry (l2Row ctrl idx (k.entry port)) e) =
      k.seed F
  /-- What the entry held before does not show in the key of a row of the CAM. -/
  camKey_cam : ∀ (k : Key) port e e', port ≤ F.cpuPort →
    camKey (camRow (k.entry port)) (F.fillL2Entry (camRow (k.entry port)) e) =
      camKey (camRow (k.entry port)) (F.fillL2Entry (camRow (k.entry port)) e')
  seed_mask : ∀ k : Key, k.seed F &&& seedMask = k.seed F
  seed_injective : ∀ k k' : Key, k.seed F = k'.seed F → k = k'
  /-- The index made of a place is the row that was read, but for three places of the
  second bucket. -/
  slotIndex_eq : ∀ ctrl k i, i < F.l2BucketSize → (i ≤ 3 ∨ i = 7) →
    let key := F.l2HashKey ctrl (Key.seed F k)
    let idx := slotIndex key (BitVec.ofNat 32 i)
    bucketIndex (idx >>> 2) (idx &&& 3) = index key (BitVec.ofNat 32 i)

end OpenWrt.Rtl83xx
