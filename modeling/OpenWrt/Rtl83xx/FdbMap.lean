/-
# The forwarding database as a map

The places of a pair are its bucket and the rows of the CAM, and the tables are read as a
table that is searched place by place. As long as no entry of the pair lies behind a free
place, the index made for the write is the row that was read, and the CAM is compared
rightly, a call changes the map as it should.
-/

import OpenWrt.Lib.Probe
import OpenWrt.Lib.Run
import OpenWrt.Rtl83xx.Fdb

namespace OpenWrt.Rtl83xx

open OpenWrt.Lib

/-! ## The map that the tables show -/

/-- A row of the hash table or of the CAM. -/
inductive Slot where
  | l2 (idx : U32)
  | cam (idx : U32)
deriving DecidableEq

def Tables.row (t : Tables) : Slot → Row
  | .l2 idx => t.l2 idx
  | .cam idx => t.cam idx

/-- The slot holds a valid entry of the pair with the port. -/
def EntryAt (F : Family) (t : Tables) (s : Slot) (k : Key) (port : U8) : Prop :=
  (F.fillL2Entry (t.row s) .zero).IsFor k ∧ (F.fillL2Entry (t.row s) .zero).port = port

instance (F : Family) (t : Tables) (s : Slot) (k : Key) (port : U8) :
    Decidable (EntryAt F t s k port) := by
  unfold EntryAt
  infer_instance

/-- No pair has two valid entries. -/
def OneEntry (F : Family) (t : Tables) : Prop :=
  ∀ k s s' port port', EntryAt F t s k port → EntryAt F t s' k port' → s = s'

/-- A call changes the map as it should. -/
structure MapStep (priv : Priv) (t : Tables) (call : Call) : Prop where
  /-- There is still at most one entry for each pair. -/
  one : OneEntry priv.r (apply priv t call)
  /-- After a successful add the entry exists with the port. -/
  added : call.request = .add → (call.run priv t).2 = 0 →
    ∃ s, EntryAt priv.r (apply priv t call) s call.key (BitVec.ofNat 8 call.port)
  /-- After a del there is no entry. -/
  deleted : call.request = .del →
    ∀ s port, ¬ EntryAt priv.r (apply priv t call) s call.key port
  /-- The entries of all other pairs stay. -/
  others : ∀ k, k ≠ call.key → ∀ s port,
    EntryAt priv.r (apply priv t call) s k port ↔ EntryAt priv.r t s k port

/-! ## When a call is safe -/

/-- The key of a pair in the hash table. -/
def Priv.key (priv : Priv) (k : Key) : U32 := priv.r.l2HashKey priv.l2Ctrl (k.seed priv.r)

/-- Number of the places of a pair. -/
def Priv.places (priv : Priv) : ℕ := priv.r.l2BucketSize + camSize

/-- What is read at a place of the pair: of its bucket first, then of the CAM. -/
def placeEntry (priv : Priv) (t : Tables) (k : Key) (i : ℕ) : L2Entry :=
  if i < priv.r.l2BucketSize then
    (priv.r.readL2EntryUsingHash t (priv.key k) (BitVec.ofNat 32 i) .zero).1
  else (priv.r.readCam t (BitVec.ofNat 32 (i - priv.r.l2BucketSize)) .zero).1

/-- A place where the search of a call has to end: the pair's own, or a free one for an add. -/
def Suits (priv : Priv) (t : Tables) (call : Call) (i : ℕ) : Prop :=
  (placeEntry priv t call.key i).IsFor call.key ∨
    call.request = .add ∧ (placeEntry priv t call.key i).valid = false

/-- The state lets a call do what it should. -/
structure Clean (priv : Priv) (t : Tables) (call : Call) : Prop where
  /-- No entry of a pair that is added lies behind a free place. -/
  front : call.request = .add → ∀ i < priv.places,
    (placeEntry priv t call.key i).IsFor call.key →
      ∀ j < i, (placeEntry priv t call.key j).valid = true
  /-- The first place that suits is none of those whose index is made wrong. -/
  placed : ∀ i < priv.r.l2BucketSize, 3 < i → i < 7 →
    (∀ j < i, ¬ Suits priv t call j) → ¬ Suits priv t call i
  /-- Where the bucket does not suit, the CAM tells the pair from others. -/
  camKey : (∀ i < priv.r.l2BucketSize, ¬ Suits priv t call i) →
    ∀ j < camSize,
      let row := priv.r.readCam t (BitVec.ofNat 32 j) .zero
      (call.request = .add → row.1.valid = true) →
        (row.2 &&& seedMask = call.key.seed priv.r ↔ row.1.IsFor call.key)

instance (priv : Priv) (t : Tables) (call : Call) (i : ℕ) : Decidable (Suits priv t call i) := by
  unfold Suits
  infer_instance

set_option synthInstance.maxSize 256 in
instance (priv : Priv) (t : Tables) (call : Call) : Decidable (Clean priv t call) :=
  decidable_of_iff
    ((call.request = .add → ∀ i < priv.places,
        (placeEntry priv t call.key i).IsFor call.key →
          ∀ j < i, (placeEntry priv t call.key j).valid = true) ∧
      (∀ i < priv.r.l2BucketSize, 3 < i → i < 7 →
        (∀ j < i, ¬ Suits priv t call j) → ¬ Suits priv t call i) ∧
      ((∀ i < priv.r.l2BucketSize, ¬ Suits priv t call i) → ∀ j < camSize,
        (call.request = .add →
          (priv.r.readCam t (BitVec.ofNat 32 j) .zero).1.valid = true) →
          ((priv.r.readCam t (BitVec.ofNat 32 j) .zero).2 &&& seedMask = call.key.seed priv.r ↔
            (priv.r.readCam t (BitVec.ofNat 32 j) .zero).1.IsFor call.key)))
    ⟨fun ⟨hfront, hplaced, hcam⟩ => ⟨hfront, hplaced, hcam⟩,
      fun h => ⟨h.front, h.placed, h.camKey⟩⟩

/-! ## The tables as a searched table -/

theorem L2Entry.IsFor.key_unique {e : L2Entry} {k k' : Key} (h : e.IsFor k) (h' : e.IsFor k') :
    k = k' := by
  obtain ⟨-, -, hmac, hvid⟩ := h
  obtain ⟨-, -, hmac', hvid'⟩ := h'
  exact Key.ext_of_seed (hvid.symm.trans hvid') (by rw [← hmac, ← hmac'])

theorem EntryAt.unique {F : Family} {t : Tables} {s : Slot} {k k' : Key} {port port' : U8}
    (h : EntryAt F t s k port) (h' : EntryAt F t s k' port') : k = k' ∧ port = port' := by
  exact ⟨h.1.key_unique h'.1, h.2.symm.trans h'.2⟩

open Classical in
/-- The pair and the port that a slot shows. -/
noncomputable def content (F : Family) (t : Tables) : Probe.Table Slot Key U8 := fun s =>
  if h : ∃ e : Key × U8, EntryAt F t s e.1 e.2 then some h.choose else none

theorem content_eq_some_iff {F : Family} {t : Tables} {s : Slot} {k : Key} {port : U8} :
    content F t s = some (k, port) ↔ EntryAt F t s k port := by
  unfold content
  constructor
  · intro h
    split at h
    case isTrue hex =>
      have hspec := hex.choose_spec
      rw [Option.some.inj h] at hspec
      exact hspec
    case isFalse => cases h
  · intro h
    have hex : ∃ e : Key × U8, EntryAt F t s e.1 e.2 := ⟨(k, port), h⟩
    rw [dif_pos hex]
    obtain ⟨hk, hport⟩ := hex.choose_spec.unique h
    exact congrArg some (Prod.ext hk hport)

theorem content_eq_none_of_invalid {F : Family} {t : Tables} {s : Slot}
    (h : (F.fillL2Entry (t.row s) .zero).valid = false) : content F t s = none := by
  rw [Option.eq_none_iff_forall_ne_some]
  rintro ⟨k, port⟩ hsome
  rw [content_eq_some_iff] at hsome
  simp [hsome.1.1] at h

theorem holds_iff {F : Family} {t : Tables} {s : Slot} {k : Key} :
    Probe.Holds (content F t) k s ↔ (F.fillL2Entry (t.row s) .zero).IsFor k := by
  simp only [Probe.Holds, content_eq_some_iff, EntryAt, exists_and_left]
  exact ⟨And.left, fun h => ⟨h, _, rfl⟩⟩

section Layout

variable {F : Family} (L : Layout F)

/-- The rows that the driver writes to a slot: cleared ones and those of a pair. -/
def Layout.Written : Slot → Row → Prop
  | .l2 _, row => row = .zero ∨ ∃ ctrl idx k port, port ≤ F.cpuPort ∧
      row = L.l2Row ctrl idx (Key.entry k port)
  | .cam _, row => row = .zero ∨ ∃ k port, port ≤ F.cpuPort ∧ row = L.camRow (Key.entry k port)

variable {L}

variable {s : Slot} {t : Tables}

/-- A written row is cleared or shows a pair. -/
theorem Layout.Written.shows {row : Row} (h : L.Written s row) :
    row = .zero ∨ ∃ k port, row.Shows F.fillL2Entry k port := by
  cases s with
  | l2 idx =>
    obtain hzero | ⟨ctrl, idx', k, port, hport, rfl⟩ := h
    · exact .inl hzero
    · exact .inr ⟨k, port, L.shows_l2 ctrl idx' k port hport⟩
  | cam idx =>
    obtain hzero | ⟨k, port, hport, rfl⟩ := h
    · exact .inl hzero
    · exact .inr ⟨k, port, L.shows_cam k port hport⟩

theorem Row.Shows.isFor {fill : Row → L2Entry → L2Entry} {row : Row} {k : Key} {port : ℕ}
    (h : row.Shows fill k port) (e : L2Entry) : (fill row e).IsFor k :=
  ⟨h.valid e, h.type e, h.mac e, h.rvid e⟩

variable (L) in
/-- All rows are ones that the driver writes. -/
def Layout.RowsOk (t : Tables) : Prop := ∀ s, L.Written s (t.row s)

/-- Whether a row is valid, and which pair it shows, does not depend on what the entry held
before. -/
theorem Layout.Written.read {row : Row} (h : L.Written s row) (e : L2Entry) :
    (F.fillL2Entry row e).valid = (F.fillL2Entry row .zero).valid := by
  obtain rfl | ⟨k, port, hshows⟩ := h.shows
  · rw [L.fill_zero, L.fill_zero]
  · rw [hshows.valid, hshows.valid]

theorem Layout.RowsOk.content_eq_none_iff (h : L.RowsOk t) :
    content F t s = none ↔ (F.fillL2Entry (t.row s) .zero).valid = false := by
  refine ⟨fun hnone => ?_, content_eq_none_of_invalid⟩
  obtain hzero | ⟨k, port, hshows⟩ := (h s).shows
  · rw [hzero, L.fill_zero]
  · have hat : EntryAt F t s k (BitVec.ofNat 8 port) :=
      ⟨hshows.isFor _, hshows.port _⟩
    rw [← content_eq_some_iff, hnone] at hat
    cases hat

/-- The number read from a row of the hash table is the seed exactly of the pair it shows. -/
theorem Layout.RowsOk.l2_seed_iff (h : L.RowsOk t) {idx : U32} (e : L2Entry)
    (hvalid : (F.fillL2Entry (t.l2 idx) e).valid = true) (k : Key) :
    L.rowKey (t.l2 idx) (F.fillL2Entry (t.l2 idx) e) &&& seedMask = k.seed F ↔
      Probe.Holds (content F t) k (.l2 idx) := by
  rw [holds_iff]
  obtain hzero | ⟨ctrl, idx', k', port, hport, hrow⟩ := h (.l2 idx)
  · change t.l2 idx = .zero at hzero
    rw [hzero, L.fill_zero] at hvalid
    cases hvalid
  · change t.l2 idx = _ at hrow
    have hfor := (L.shows_l2 ctrl idx' k' port hport).isFor .zero
    rw [show t.row (.l2 idx) = t.l2 idx from rfl, hrow, L.rowKey_l2 _ _ _ _ _ hport, L.seed_mask]
    constructor
    · intro hseed
      rw [← L.seed_injective _ _ hseed]
      exact hfor
    · intro hfor'
      rw [hfor.key_unique hfor']

/-! ## The search -/

/-- A slot where the search for a pair ends: the pair's own, or a free one unless the entry
has to exist. -/
def Ends (F : Family) (t : Tables) (k : Key) (mustExist : Bool) (s : Slot) : Prop :=
  Probe.Holds (content F t) k s ∨ mustExist = false ∧ content F t s = none

/-- The search of the hash table ends at a row exactly when it should. -/
theorem Layout.RowsOk.ends_l2_iff (h : L.RowsOk t) (k : Key) (mustExist : Bool) (idx : U32)
    (e : L2Entry) :
    Ends F t k mustExist (.l2 idx) ↔
      (!(mustExist && !(readEntry F.fillL2Entry L.rowKey (t.l2 idx) e).1.valid) &&
        (!(readEntry F.fillL2Entry L.rowKey (t.l2 idx) e).1.valid ||
          (readEntry F.fillL2Entry L.rowKey (t.l2 idx) e).2 &&& seedMask == k.seed F)) = true := by
  have hread := (h (.l2 idx)).read e
  have hnone := h.content_eq_none_iff (s := .l2 idx)
  cases hvalid : (F.fillL2Entry (t.l2 idx) e).valid with
  | false =>
    rw [show t.row (.l2 idx) = t.l2 idx from rfl] at hread hnone
    have hfree : content F t (.l2 idx) = none := hnone.mpr (hread.symm.trans hvalid)
    have hholds : ¬ Probe.Holds (content F t) k (.l2 idx) := by
      rintro ⟨port, hport⟩
      rw [hfree] at hport
      cases hport
    simp [Ends, hholds, hfree, readEntry, hvalid]
  | true =>
    rw [show t.row (.l2 idx) = t.l2 idx from rfl] at hread hnone
    have hbusy : content F t (.l2 idx) ≠ none := by
      rw [Ne, hnone, ← hread, hvalid]
      decide
    simp only [Ends, hbusy, and_false, or_false, ← h.l2_seed_iff e hvalid]
    simp [readEntry, hvalid]

/-- The CAM tells the pair from others, in the rows that are compared. -/
def CamTells (F : Family) (t : Tables) (k : Key) (mustExist : Bool) (j : ℕ) : Prop :=
  let row := F.readCam t (BitVec.ofNat 32 j) .zero
  (mustExist = false → row.1.valid = true) → (row.2 &&& seedMask = k.seed F ↔ row.1.IsFor k)

/-- The search of the CAM ends at a row exactly when it should, where the CAM tells the pair
from others. -/
theorem Layout.RowsOk.ends_cam_iff (h : L.RowsOk t) {k : Key} {mustExist : Bool} {j : ℕ}
    (htells : CamTells F t k mustExist j) (e : L2Entry) :
    Ends F t k mustExist (.cam (BitVec.ofNat 32 j)) ↔
      (!mustExist && !(F.readCam t (BitVec.ofNat 32 j) e).1.valid ||
        (F.readCam t (BitVec.ofNat 32 j) e).2 &&& seedMask == k.seed F) = true := by
  generalize hidx : BitVec.ofNat 32 j = idx at htells ⊢
  have hrow := h (.cam idx)
  have hread := hrow.read e
  have hnone := h.content_eq_none_iff (s := .cam idx)
  rw [show t.row (.cam idx) = t.cam idx from rfl] at hread hnone hrow
  simp only [CamTells, hidx] at htells
  rw [L.read_cam] at htells ⊢
  cases hvalid : (F.fillL2Entry (t.cam idx) .zero).valid with
  | false =>
    have hfree : content F t (.cam idx) = none := hnone.mpr hvalid
    have hholds : ¬ Probe.Holds (content F t) k (.cam idx) := by
      rintro ⟨port, hport⟩
      rw [hfree] at hport
      cases hport
    simp only [readEntry, hvalid, Bool.not_false, if_true] at htells
    have hvalid' := hread.trans hvalid
    simp only [Ends, hholds, hfree, readEntry, hvalid']
    cases mustExist with
    | false => simp [hvalid']
    | true =>
      have hno : ¬ (0 &&& seedMask = k.seed F) := by
        rw [htells (by simp)]
        intro hfor
        have := hfor.1
        rw [hvalid] at this
        cases this
      simpa using hno
  | true =>
    have hbusy : content F t (.cam idx) ≠ none := by
      rw [Ne, hnone, hvalid]
      decide
    obtain hzero | ⟨k', port, hport, hcam⟩ := hrow
    · rw [hzero, L.fill_zero] at hvalid
      cases hvalid
    · have hkey : L.camKey (t.cam idx) (F.fillL2Entry (t.cam idx) e) =
          L.camKey (t.cam idx) (F.fillL2Entry (t.cam idx) .zero) := by
        rw [hcam, L.camKey_cam _ _ _ _ hport]
      simp only [readEntry, hvalid, Bool.not_true, Bool.false_eq_true, if_false,
        implies_true, forall_const] at htells
      have hvalid' := hread.trans hvalid
      simp only [Ends, hbusy, and_false, or_false, holds_iff, readEntry, hvalid',
        show t.row (.cam idx) = t.cam idx from rfl, ← htells, hkey]
      simp [hvalid']

/-- The search of a bucket stops at its first place where it should end, or at none. -/
theorem findL2HashEntryFrom_cases (h : L.RowsOk t) (k : Key) (mustExist : Bool) (key : U32)
    (e : L2Entry) :
    (∃ j < F.l2BucketSize,
      (∀ j' < j, ¬ Ends F t k mustExist (.l2 (L.index key (BitVec.ofNat 32 j')))) ∧
      Ends F t k mustExist (.l2 (L.index key (BitVec.ofNat 32 j))) ∧
      (findL2HashEntryFrom F t key (k.seed F) mustExist F.l2BucketSize 0 e).1 =
        some (slotIndex key (BitVec.ofNat 32 j))) ∨
    ((∀ j < F.l2BucketSize,
      ¬ Ends F t k mustExist (.l2 (L.index key (BitVec.ofNat 32 j)))) ∧
      (findL2HashEntryFrom F t key (k.seed F) mustExist F.l2BucketSize 0 e).1 = none) := by
  have hends : ∀ i e, Ends F t k mustExist (.l2 (L.index key (BitVec.ofNat 32 i))) ↔ _ :=
    fun i e => h.ends_l2_iff k mustExist (L.index key (BitVec.ofNat 32 i)) e
  simp only [← L.read_l2] at hends
  have hcases := Probe.search_cases (findL2HashEntryFrom F t key (k.seed F) mustExist)
    (fun i => Ends F t k mustExist (.l2 (L.index key (BitVec.ofNat 32 i))))
    (fun i => slotIndex key (BitVec.ofNat 32 i)) (fun _ _ => rfl) ?_ ?_ F.l2BucketSize 0
    (Nat.zero_add F.l2BucketSize) e
  · simpa using hcases
  · intro left i e _ hstop
    obtain ⟨hpass, hhere⟩ := Bool.and_eq_true_iff.mp ((hends i e).mp hstop)
    rw [Bool.not_eq_true'] at hpass
    simp only [findL2HashEntryFrom, hpass, hhere, if_true, Bool.false_eq_true, if_false]
  · intro left i e _ hstop
    refine ⟨(F.readL2EntryUsingHash t key (BitVec.ofNat 32 i) e).1, ?_⟩
    rw [hends i e] at hstop
    simp only [findL2HashEntryFrom]
    split
    case isTrue => rfl
    case isFalse hpass =>
      rw [Bool.not_eq_true] at hpass
      rw [hpass, Bool.not_false, Bool.true_and] at hstop
      rw [if_neg hstop]

/-- The search of the CAM stops at its first row where it should end, or at none. -/
theorem findL2CamEntryFrom_cases (h : L.RowsOk t) {k : Key} {mustExist : Bool}
    (htells : ∀ j < camSize, CamTells F t k mustExist j) (e : L2Entry) :
    (∃ j < camSize, (∀ j' < j, ¬ Ends F t k mustExist (.cam (BitVec.ofNat 32 j'))) ∧
      Ends F t k mustExist (.cam (BitVec.ofNat 32 j)) ∧
      (findL2CamEntryFrom F t (k.seed F) mustExist camSize 0 e).1 = some (BitVec.ofNat 32 j)) ∨
    ((∀ j < camSize, ¬ Ends F t k mustExist (.cam (BitVec.ofNat 32 j))) ∧
      (findL2CamEntryFrom F t (k.seed F) mustExist camSize 0 e).1 = none) := by
  have hcases := Probe.search_cases (findL2CamEntryFrom F t (k.seed F) mustExist)
    (fun i => Ends F t k mustExist (.cam (BitVec.ofNat 32 i))) (fun i => BitVec.ofNat 32 i)
    (fun _ _ => rfl) ?_ ?_ camSize 0 (Nat.zero_add camSize) e
  · simpa using hcases
  · intro left i e hi hstop
    rw [h.ends_cam_iff (htells i hi) e, Bool.or_eq_true] at hstop
    simp only [findL2CamEntryFrom]
    split
    case isTrue => rfl
    case isFalse hpass => rw [if_pos (hstop.resolve_left hpass)]
  · intro left i e hi hstop
    rw [h.ends_cam_iff (htells i hi) e, Bool.or_eq_true, not_or] at hstop
    refine ⟨(F.readCam t (BitVec.ofNat 32 i) e).1, ?_⟩
    simp only [findL2CamEntryFrom]
    rw [if_neg hstop.1, if_neg hstop.2]

/-! ## What a write shows -/

/-- The second tables are the first with one row changed. -/
def Wrote (t t' : Tables) (s : Slot) (row : Row) : Prop :=
  ∀ s', t'.row s' = if s' = s then row else t.row s'

theorem wrote_setL2 (t : Tables) (idx : U32) (row : Row) :
    Wrote t (t.setL2 idx row) (.l2 idx) row := by
  intro s'
  cases s' with
  | l2 idx' => by_cases h : idx' = idx <;> simp [Tables.row, Tables.setL2, h]
  | cam idx' => simp [Tables.row, Tables.setL2]

theorem wrote_setCam (t : Tables) (idx : U32) (row : Row) :
    Wrote t (t.setCam idx row) (.cam idx) row := by
  intro s'
  cases s' with
  | l2 idx' => simp [Tables.row, Tables.setCam]
  | cam idx' => by_cases h : idx' = idx <;> simp [Tables.row, Tables.setCam, h]

theorem content_congr {t t' : Tables} (h : t'.row s = t.row s) :
    content F t' s = content F t s := by
  apply Option.ext
  rintro ⟨k, port⟩
  rw [content_eq_some_iff, content_eq_some_iff, EntryAt, EntryAt, h]

theorem Wrote.content_shows {t t' : Tables} {row : Row} (h : Wrote t t' s row) {k : Key} {port : ℕ}
    (hshows : row.Shows F.fillL2Entry k port) :
    content F t' = Probe.put (content F t) s (some (k, BitVec.ofNat 8 port)) := by
  funext s'
  by_cases hs : s' = s
  · subst hs
    rw [Probe.put_self, content_eq_some_iff, EntryAt, h, if_pos rfl]
    exact ⟨hshows.isFor _, hshows.port _⟩
  · rw [Probe.put_of_ne hs]
    exact content_congr (by rw [h, if_neg hs])

theorem Wrote.content_zero {t t' : Tables} (L : Layout F) (h : Wrote t t' s Row.zero) :
    content F t' = Probe.put (content F t) s none := by
  funext s'
  by_cases hs : s' = s
  · subst hs
    rw [Probe.put_self]
    apply content_eq_none_of_invalid
    rw [h, if_pos rfl, L.fill_zero]
  · rw [Probe.put_of_ne hs]
    exact content_congr (by rw [h, if_neg hs])

theorem Layout.RowsOk.wrote {t t' : Tables} (h : L.RowsOk t) {row : Row} (hwrote : Wrote t t' s row)
    (hrow : L.Written s row) : L.RowsOk t' := by
  intro s'
  by_cases hs : s' = s
  · subst hs
    rw [hwrote, if_pos rfl]
    exact hrow
  · rw [hwrote, if_neg hs]
    exact h s'

end Layout

/-! ## What a call does -/

section Call

variable {priv : Priv} (L : Layout priv.r)

/-- The places of a pair, in the order of the search. -/
def probe (k : Key) (i : ℕ) : Slot :=
  if i < priv.r.l2BucketSize then .l2 (L.index (priv.key k) (BitVec.ofNat 32 i))
  else .cam (BitVec.ofNat 32 (i - priv.r.l2BucketSize))

variable {L} {t : Tables} {call : Call}

variable {i : ℕ}

theorem probe_l2 (k : Key) (hi : i < priv.r.l2BucketSize) :
    probe L k i = .l2 (L.index (priv.key k) (BitVec.ofNat 32 i)) := if_pos hi

theorem probe_cam (k : Key) (j : ℕ) :
    probe L k (priv.r.l2BucketSize + j) = .cam (BitVec.ofNat 32 j) := by
  unfold probe
  rw [if_neg (by omega), Nat.add_sub_cancel_left]

theorem readEntry_fst (fill : Row → L2Entry → L2Entry) (key : Row → L2Entry → U64) (row : Row)
    (e : L2Entry) : (readEntry fill key row e).1 = fill row e := by
  unfold readEntry
  cases hvalid : (fill row e).valid <;> simp [hvalid]

theorem placeEntry_eq (L : Layout priv.r) (t : Tables) (k : Key) (i : ℕ) :
    placeEntry priv t k i = priv.r.fillL2Entry (t.row (probe L k i)) .zero := by
  unfold placeEntry probe
  split
  · rw [L.read_l2, readEntry_fst]
    rfl
  · rw [L.read_cam, readEntry_fst]
    rfl

/-- Whether the entry has to exist for a request. -/
def Request.mustExist : Request → Bool
  | .add => false
  | .del => true

theorem suits_iff (hrows : L.RowsOk t) (i : ℕ) :
    Suits priv t call i ↔
      Ends priv.r t call.key call.request.mustExist (probe L call.key i) := by
  unfold Suits Ends
  rw [placeEntry_eq L, holds_iff, hrows.content_eq_none_iff]
  cases call.request <;> simp [Request.mustExist]

theorem Clean.camTells (hclean : Clean priv t call)
    (hall : ∀ i < priv.r.l2BucketSize, ¬ Suits priv t call i) {j : ℕ} (hj : j < camSize) :
    CamTells priv.r t call.key call.request.mustExist j := by
  intro hvalid
  exact hclean.camKey hall j hj fun hadd => hvalid (by rw [hadd]; rfl)

/-- Where the search of a clean state ends in the bucket, the row that is written is the one
that was read. -/
theorem Clean.index_eq (hclean : Clean priv t call) (hi : i < priv.r.l2BucketSize)
    (hbefore : ∀ j < i, ¬ Suits priv t call j) (hhere : Suits priv t call i) :
    bucketIndex (slotIndex (priv.key call.key) (BitVec.ofNat 32 i) >>> 2)
        (slotIndex (priv.key call.key) (BitVec.ofNat 32 i) &&& 3) =
      L.index (priv.key call.key) (BitVec.ofNat 32 i) := by
  have hsize : priv.r.l2BucketSize ≤ 8 := L.size_le
  refine L.slotIndex_eq priv.l2Ctrl call.key i hi ?_
  by_contra hnot
  exact hclean.placed i hi (by omega) (by omega) hbefore hhere

/-- What a search and a write of a call come to: the first place that suits, where the
content is replaced. -/
structure Replaced (L : Layout priv.r) (t : Tables) (call : Call) (i : ℕ) : Prop where
  lt : i < priv.places
  before : ∀ j < i, ¬ Suits priv t call j
  here : Suits priv t call i
  content_eq : content priv.r (apply priv t call) =
    Probe.put (content priv.r t) (probe L call.key i)
      (if call.request = .add then some (call.key, BitVec.ofNat 8 call.port) else none)
  rowsOk : L.RowsOk (apply priv t call)

/-- A write of a call to the place where its search ended. -/
theorem replaced_of_wrote (hrows : L.RowsOk t) (hlt : i < priv.places)
    (hbefore : ∀ j < i, ¬ Suits priv t call j) (hhere : Suits priv t call i) {row : Row}
    (hwrote : Wrote t (apply priv t call) (probe L call.key i) row)
    (hrow : L.Written (probe L call.key i) row)
    (hadd : call.request = .add → row.Shows priv.r.fillL2Entry call.key call.port)
    (hdel : call.request = .del → row = .zero) : Replaced L t call i where
  lt := hlt
  before := hbefore
  here := hhere
  content_eq := by
    cases hrequest : call.request with
    | add =>
      rw [if_pos rfl]
      exact hwrote.content_shows (hadd hrequest)
    | del =>
      rw [if_neg (by decide)]
      rw [hdel hrequest] at hwrote
      exact hwrote.content_zero L
  rowsOk := hrows.wrote hwrote hrow

theorem Call.NonLag.prepareLag_eq (hlag : call.NonLag priv) (e : L2Entry) :
    prepareLag priv call.port e = none := by
  simp [prepareLag, rtldsaFindLagGroupFromPort, hlag.2.1]

/-- The entry a call writes: that of the pair, or an invalid one. -/
def Call.Writes (call : Call) (e : L2Entry) : Prop :=
  (call.request = .add → e = call.key.entry call.port) ∧ (call.request = .del → e.valid = false)

/-- Both calls write where one of the searches finds a place, and fail where none does. -/
theorem Call.NonLag.run_eq (hlag : call.NonLag priv) : ∃ (made : L2Entry → L2Entry) (err : Int),
    (∀ e, call.Writes (made e)) ∧ err ≠ 0 ∧ call.run priv t =
      match rtldsaFindL2HashEntry priv t (call.key.seed priv.r) call.request.mustExist call.stack with
      | (some idx, e) =>
        (priv.r.writeL2EntryUsingHash priv.l2Ctrl t (idx >>> 2) (idx &&& 0x3) (made e), 0)
      | (none, e) =>
        match rtldsaFindL2CamEntry priv t (call.key.seed priv.r) call.request.mustExist e with
        | (some idx, e) => (priv.r.writeCam t idx (made e), 0)
        | (none, _) => (t, err) := by
  cases hrequest : call.request with
  | add =>
    refine ⟨fun _ => call.key.entry call.port, enotsupp,
      fun e => ⟨fun _ => rfl, fun h => ?_⟩, by decide, ?_⟩
    · cases hrequest.symm.trans h
    · simp only [Call.run, hrequest, rtldsaPortFdbAdd, hlag.prepareLag_eq, hlag.2.2]
      rfl
  | del =>
    refine ⟨fun e => { e with valid := false }, enoent,
      fun e => ⟨fun h => ?_, fun _ => rfl⟩, by decide, ?_⟩
    · cases hrequest.symm.trans h
    · simp only [Call.run, hrequest, rtldsaPortFdbDel, hlag.prepareLag_eq, Option.getD_none]
      rfl

/-- The search of the bucket finds the first place that suits. -/
theorem find_hash_cases (hrows : L.RowsOk t) (e : L2Entry) :
    (∃ i < priv.r.l2BucketSize, (∀ j < i, ¬ Suits priv t call j) ∧ Suits priv t call i ∧
      (rtldsaFindL2HashEntry priv t (call.key.seed priv.r) call.request.mustExist e).1 =
        some (slotIndex (priv.key call.key) (BitVec.ofNat 32 i))) ∨
    ((∀ i < priv.r.l2BucketSize, ¬ Suits priv t call i) ∧
      (rtldsaFindL2HashEntry priv t (call.key.seed priv.r) call.request.mustExist e).1 = none) := by
  have hsuits : ∀ i < priv.r.l2BucketSize, Suits priv t call i ↔
      Ends priv.r t call.key call.request.mustExist
        (.l2 (L.index (priv.key call.key) (BitVec.ofNat 32 i))) := by
    intro i hi
    rw [suits_iff hrows, probe_l2 _ hi]
  rcases findL2HashEntryFrom_cases hrows call.key call.request.mustExist (priv.key call.key) e with
    ⟨i, hi, hbefore, hhere, hres⟩ | ⟨hall, hres⟩
  · refine .inl ⟨i, hi, fun j hj => ?_, (hsuits i hi).mpr hhere, hres⟩
    rw [hsuits j (by omega)]
    exact hbefore j hj
  · refine .inr ⟨fun i hi => ?_, hres⟩
    rw [hsuits i hi]
    exact hall i hi

/-- Where no place of the bucket suits, the search of the CAM finds the first that does. -/
theorem Clean.find_cam_cases (hclean : Clean priv t call) (hrows : L.RowsOk t)
    (hbucket : ∀ i < priv.r.l2BucketSize, ¬ Suits priv t call i) (e : L2Entry) :
    (∃ j < camSize, (∀ i < priv.r.l2BucketSize + j, ¬ Suits priv t call i) ∧
      Suits priv t call (priv.r.l2BucketSize + j) ∧
      (rtldsaFindL2CamEntry priv t (call.key.seed priv.r) call.request.mustExist e).1 =
        some (BitVec.ofNat 32 j)) ∨
    ((∀ i < priv.places, ¬ Suits priv t call i) ∧
      (rtldsaFindL2CamEntry priv t (call.key.seed priv.r) call.request.mustExist e).1 = none) := by
  have hsuits : ∀ j, Suits priv t call (priv.r.l2BucketSize + j) ↔
      Ends priv.r t call.key call.request.mustExist (.cam (BitVec.ofNat 32 j)) := by
    intro j
    rw [suits_iff hrows, probe_cam]
  have hbelow : ∀ n, (∀ j < n, ¬ Ends priv.r t call.key call.request.mustExist
      (.cam (BitVec.ofNat 32 j))) → ∀ i < priv.r.l2BucketSize + n, ¬ Suits priv t call i := by
    intro n hn i hi
    rcases Nat.lt_or_ge i priv.r.l2BucketSize with hlt | hge
    · exact hbucket i hlt
    · obtain ⟨j, rfl⟩ := Nat.exists_eq_add_of_le hge
      rw [hsuits]
      exact hn j (by omega)
  rcases findL2CamEntryFrom_cases hrows (fun j hj => hclean.camTells hbucket hj) e with
    ⟨j, hj, hbefore, hhere, hres⟩ | ⟨hall, hres⟩
  · exact .inl ⟨j, hj, hbelow j hbefore, (hsuits j).mpr hhere, hres⟩
  · exact .inr ⟨hbelow camSize hall, hres⟩

/-- A write to the hash table at the index of the search replaces the place. -/
theorem Clean.replaced_l2 (hclean : Clean priv t call) (hrows : L.RowsOk t)
    (hi : i < priv.r.l2BucketSize) (hbefore : ∀ j < i, ¬ Suits priv t call j)
    (hhere : Suits priv t call i) {e : L2Entry} {err : Int} (hrun : call.run priv t =
      (priv.r.writeL2EntryUsingHash priv.l2Ctrl t
        (slotIndex (priv.key call.key) (BitVec.ofNat 32 i) >>> 2)
        (slotIndex (priv.key call.key) (BitVec.ofNat 32 i) &&& 3) e, err))
    (hport : call.port ≤ priv.r.cpuPort) (hwrites : call.Writes e) : Replaced L t call i := by
  obtain ⟨hadd, hdel⟩ := hwrites
  rw [L.write_l2, hclean.index_eq hi hbefore hhere] at hrun
  have hwrote := wrote_setL2 t (L.index (priv.key call.key) (BitVec.ofNat 32 i))
    (L.l2Row priv.l2Ctrl (L.index (priv.key call.key) (BitVec.ofNat 32 i)) e)
  rw [← probe_l2 _ hi, show t.setL2 _ _ = apply priv t call from (congrArg Prod.fst hrun).symm]
    at hwrote
  refine replaced_of_wrote hrows (by unfold Priv.places; omega) hbefore hhere hwrote ?_ ?_ ?_
  · rw [probe_l2 _ hi]
    cases hrequest : call.request with
    | add => exact .inr ⟨_, _, _, _, hport, by rw [hadd hrequest]⟩
    | del => exact .inl (L.l2Row_invalid _ _ _ (hdel hrequest))
  · intro hrequest
    rw [hadd hrequest]
    exact L.shows_l2 _ _ _ _ hport
  · exact fun hrequest => L.l2Row_invalid _ _ _ (hdel hrequest)

/-- A write to the CAM at the row of the search replaces the place. -/
theorem replaced_cam (hrows : L.RowsOk t) {j : ℕ} (hj : j < camSize)
    (hbefore : ∀ i < priv.r.l2BucketSize + j, ¬ Suits priv t call i)
    (hhere : Suits priv t call (priv.r.l2BucketSize + j)) {e : L2Entry} {err : Int}
    (hrun : call.run priv t = (priv.r.writeCam t (BitVec.ofNat 32 j) e, err))
    (hport : call.port ≤ priv.r.cpuPort) (hwrites : call.Writes e) :
    Replaced L t call (priv.r.l2BucketSize + j) := by
  obtain ⟨hadd, hdel⟩ := hwrites
  rw [L.write_cam] at hrun
  have hwrote := wrote_setCam t (BitVec.ofNat 32 j) (L.camRow e)
  rw [← @probe_cam _ L call.key j,
    show t.setCam _ _ = apply priv t call from (congrArg Prod.fst hrun).symm] at hwrote
  refine replaced_of_wrote hrows (by unfold Priv.places; omega) hbefore hhere hwrote ?_ ?_ ?_
  · rw [probe_cam]
    cases hrequest : call.request with
    | add => exact .inr ⟨_, _, hport, by rw [hadd hrequest]⟩
    | del => exact .inl (L.camRow_invalid _ (hdel hrequest))
  · intro hrequest
    rw [hadd hrequest]
    exact L.shows_cam _ _ hport
  · exact fun hrequest => L.camRow_invalid _ (hdel hrequest)

/-- In a clean state a call replaces the content of the first place that suits, or finds none
and changes nothing. -/
theorem Clean.outcome (hrows : L.RowsOk t) (hlag : call.NonLag priv)
    (hclean : Clean priv t call) :
    (∃ i, Replaced L t call i) ∨
      ((∀ i < priv.places, ¬ Suits priv t call i) ∧ apply priv t call = t ∧
        (call.run priv t).2 ≠ 0) := by
  obtain ⟨made, err, hmade, herr, hrun⟩ := hlag.run_eq (t := t)
  have hhash := @find_hash_cases _ _ _ call hrows call.stack
  rcases hfind : rtldsaFindL2HashEntry priv t (call.key.seed priv.r) call.request.mustExist
    call.stack with ⟨o, e⟩
  rw [hfind] at hhash hrun
  rcases hhash with ⟨i, hi, hbefore, hhere, rfl⟩ | ⟨hbucket, rfl⟩
  · exact .inl ⟨i, hclean.replaced_l2 hrows hi hbefore hhere hrun hlag.1 (hmade e)⟩
  · have hcam := hclean.find_cam_cases hrows hbucket e
    rcases hfind' : rtldsaFindL2CamEntry priv t (call.key.seed priv.r) call.request.mustExist e
      with ⟨o, e'⟩
    simp only [hfind'] at hcam hrun
    rcases hcam with ⟨j, hj, hbefore, hhere, rfl⟩ | ⟨hall, rfl⟩
    · exact .inl ⟨_, replaced_cam hrows hj hbefore hhere hrun hlag.1 (hmade e')⟩
    · refine .inr ⟨hall, congrArg Prod.fst hrun, ?_⟩
      rw [hrun]
      exact herr

/-! ## The database over a run -/

variable (L) in
/-- The tables hold rows of the driver, every entry in a place of its pair and none twice. -/
structure Inv (t : Tables) : Prop where
  rowsOk : L.RowsOk t
  sound : Probe.Sound (probe L) priv.places (content priv.r t)

theorem Inv.oneEntry (h : Inv L t) : OneEntry priv.r t := by
  intro k s s' port port' hs hs'
  exact h.sound.unique k s s' ⟨port, content_eq_some_iff.mpr hs⟩
    ⟨port', content_eq_some_iff.mpr hs'⟩

theorem inv_empty : Inv L Tables.empty := by
  have hnone : content priv.r Tables.empty = fun _ => none := by
    funext s
    apply content_eq_none_of_invalid
    cases s <;> exact L.fill_zero _
  constructor
  · intro s
    cases s <;> exact .inl rfl
  · rw [hnone]
    constructor
    · rintro k s s' ⟨port, hport⟩
      cases hport
    · rintro k s ⟨port, hport⟩
      cases hport

/-- The place an add replaces is the first that is free or the pair's own. -/
theorem Replaced.first {i : ℕ} (h : Replaced L t call i) (hrows : L.RowsOk t)
    (hrequest : call.request = .add) :
    Probe.First (probe L) priv.places (content priv.r t) call.key i := by
  have hsuits : ∀ j, Suits priv t call j ↔
      Probe.Holds (content priv.r t) call.key (probe L call.key j) ∨
        content priv.r t (probe L call.key j) = none := by
    intro j
    rw [suits_iff hrows, Ends, hrequest]
    simp [Request.mustExist]
  constructor
  · exact h.lt
  · intro j hj
    have hnot := h.before j hj
    rw [hsuits, not_or] at hnot
    exact ⟨hnot.2, hnot.1⟩
  · exact ((hsuits i).mp h.here).symm

theorem Clean.inFront (hclean : Clean priv t call) (hrows : L.RowsOk t)
    (hrequest : call.request = .add) :
    Probe.InFront (probe L) priv.places (content priv.r t) call.key := by
  intro i hi hholds j hj
  rw [holds_iff, ← placeEntry_eq] at hholds
  have hvalid := hclean.front hrequest i hi hholds j hj
  rw [placeEntry_eq L] at hvalid
  rw [Ne, hrows.content_eq_none_iff, hvalid]
  decide

theorem Replaced.holds (h : Replaced L t call i) (hrequest : call.request = .del) :
    Probe.Holds (content priv.r t) call.key (probe L call.key i) := by
  rw [holds_iff, ← placeEntry_eq]
  rcases h.here with hown | ⟨hadd, -⟩
  · exact hown
  · rw [hrequest] at hadd
    cases hadd

theorem Replaced.here' (h : Replaced L t call i) (hrows : L.RowsOk t) :
    content priv.r t (probe L call.key i) = none ∨
      Probe.Holds (content priv.r t) call.key (probe L call.key i) := by
  cases hrequest : call.request with
  | add => exact (h.first hrows hrequest).here
  | del => exact .inr (h.holds hrequest)

/-- The tables stay a map over a clean call. -/
theorem Inv.step (h : Inv L t) (hlag : call.NonLag priv) (hclean : Clean priv t call) :
    Inv L (apply priv t call) := by
  rcases hclean.outcome h.rowsOk hlag with ⟨i, hi⟩ | ⟨-, hsame, -⟩
  · refine ⟨hi.rowsOk, ?_⟩
    rw [hi.content_eq]
    cases hrequest : call.request with
    | add =>
      have hfirst := hi.first h.rowsOk hrequest
      exact h.sound.put_insert hi.lt hfirst.here
        (fun s hs => hfirst.eq_of_holds h.sound (hclean.inFront h.rowsOk hrequest) hs) _
    | del => exact h.sound.put_none _
  · rw [hsame]
    exact h

/-- A clean call changes the map as it should. -/
theorem Inv.mapStep (h : Inv L t) (hlag : call.NonLag priv) (hclean : Clean priv t call) :
    MapStep priv t call := by
  have hafter := h.step hlag hclean
  rcases hclean.outcome h.rowsOk hlag with ⟨i, hi⟩ | ⟨hall, hsame, herr⟩
  · refine ⟨hafter.oneEntry, fun hrequest _ => ⟨probe L call.key i, ?_⟩,
      fun hrequest s port => ?_, fun k hk s port => ?_⟩
    · rw [← content_eq_some_iff, hi.content_eq, Probe.put_self, if_pos hrequest]
    · intro hat
      rw [← content_eq_some_iff, hi.content_eq, hrequest] at hat
      exact h.sound.not_holds_put_none (hi.holds hrequest) s ⟨port, hat⟩
    · rw [← content_eq_some_iff, ← content_eq_some_iff, hi.content_eq]
      refine Probe.put_eq_some_iff_of_ne hk (hi.here' h.rowsOk) ?_
      intro e he
      split at he
      · cases he
        rfl
      · cases he
  · refine ⟨hafter.oneEntry, fun _ hok => absurd hok herr, fun _ s port hat => ?_,
      fun k _ s port => by rw [hsame]⟩
    rw [hsame] at hat
    have hholds : Probe.Holds (content priv.r t) call.key s :=
      ⟨port, content_eq_some_iff.mpr hat⟩
    obtain ⟨i, hi, rfl⟩ := h.sound.homed _ _ hholds
    refine hall i hi (.inl ?_)
    rw [placeEntry_eq L, ← holds_iff]
    exact hholds

end Call

/-- The calls of a run, on ports of the switch that are in no LAG. -/
def NonLagCalls (priv : Priv) (calls : List Call) : Prop := ∀ call ∈ calls, call.NonLag priv

/-- The database is a finite map over a run from a reset: no pair has two entries in any state,
and every call changes the map as it should. -/
def FiniteMap (priv : Priv) (calls : List Call) : Prop :=
  ∀ n, OneEntry priv.r ((calls.take n).foldl (apply priv) .empty) ∧
    ∀ call, calls[n]? = some call →
      MapStep priv ((calls.take n).foldl (apply priv) .empty) call

/-- On every supported family, a run whose calls are all made in clean states keeps the
database a finite map. -/
theorem finiteMap_of_clean {priv : Priv} (hfamily : priv.r ∈ families) {calls : List Call}
    (hcalls : NonLagCalls priv calls)
    (hclean : Along (apply priv) (Clean priv) calls .empty) : FiniteMap priv calls := by
  obtain ⟨L⟩ := exists_layout hfamily
  intro n
  have hinv : Inv L ((calls.take n).foldl (apply priv) .empty) :=
    invariant_take_of_along (fun t call hmem h hc => h.step (hcalls call hmem) hc) hclean
      inv_empty n
  refine ⟨hinv.oneEntry, fun call hcall => ?_⟩
  exact hinv.mapStep (hcalls call (List.mem_of_getElem? hcall))
    (hclean.getElem? hcall)

/-! ## The abstract map -/

section Abstract

/-- What the tables are for: the port of each pair. A call that fails changes nothing. -/
def portOf (priv : Priv) : List Call → Tables → (Key → Option U8) → Key → Option U8
  | [], _, m => m
  | call :: calls, t, m =>
    portOf priv calls (apply priv t call)
      (if (call.run priv t).2 = 0 then
        Function.update m call.key
          (if call.request = .add then some (BitVec.ofNat 8 call.port) else none)
      else m)

/-- The tables show exactly the map. -/
def Shows (F : Family) (t : Tables) (m : Key → Option U8) : Prop :=
  ∀ k port, (∃ s, EntryAt F t s k port) ↔ m k = some port

variable {priv : Priv} {t : Tables} {call : Call}

theorem Call.NonLag.unchanged (hlag : call.NonLag priv) (h : (call.run priv t).2 ≠ 0) :
    apply priv t call = t := by
  obtain ⟨made, err, -, -, hrun⟩ := hlag.run_eq (t := t)
  unfold apply
  rw [hrun] at h ⊢
  split at h
  · exact absurd rfl h
  · split at h
    · exact absurd rfl h
    · rfl

/-- A call that changes the map as it should. -/
theorem Shows.step {m : Key → Option U8} (h : Shows priv.r t m) (hstep : MapStep priv t call)
    (hok : (call.run priv t).2 = 0) :
    Shows priv.r (apply priv t call) (Function.update m call.key
      (if call.request = .add then some (BitVec.ofNat 8 call.port) else none)) := by
  intro k port
  by_cases hk : k = call.key
  · subst hk
    rw [Function.update_self]
    cases hrequest : call.request with
    | add =>
      obtain ⟨s, hs⟩ := hstep.added hrequest hok
      rw [if_pos rfl, Option.some.injEq]
      constructor
      · rintro ⟨s', hs'⟩
        rw [← hstep.one _ _ _ _ _ hs hs'] at hs'
        exact (hs.unique hs').2
      · rintro rfl
        exact ⟨s, hs⟩
    | del => simp [hstep.deleted hrequest]
  · rw [Function.update_of_ne hk, ← h k port]
    exact exists_congr fun s => hstep.others k hk s port

/-- After a run whose calls are all made in clean states, the tables show for each pair the port
of the last successful call about it. -/
theorem shows_of_clean (hfamily : priv.r ∈ families) {calls : List Call}
    (hcalls : NonLagCalls priv calls) (hclean : Along (apply priv) (Clean priv) calls .empty) :
    Shows priv.r (calls.foldl (apply priv) .empty) (portOf priv calls .empty fun _ => none) := by
  obtain ⟨L⟩ := exists_layout hfamily
  have hrun : ∀ (calls : List Call) (t : Tables) (m : Key → Option U8), NonLagCalls priv calls →
      Along (apply priv) (Clean priv) calls t → Inv L t → Shows priv.r t m →
        Shows priv.r (calls.foldl (apply priv) t) (portOf priv calls t m) := by
    intro calls
    induction calls with
    | nil => exact fun _ _ _ _ _ h => h
    | cons call calls ih =>
      intro t m hcalls hclean hinv h
      have hlag := hcalls call List.mem_cons_self
      refine ih _ _ (fun c hc => hcalls c (List.mem_cons_of_mem _ hc)) hclean.2
        (hinv.step hlag hclean.1) ?_
      split
      case isTrue hok => exact h.step (hinv.mapStep hlag hclean.1) hok
      case isFalse herr =>
        rw [hlag.unchanged herr]
        exact h
  refine hrun calls _ _ hcalls hclean inv_empty fun k port => ?_
  simp only [reduceCtorEq, iff_false]
  rintro ⟨s, hs⟩
  have hzero : (priv.r.fillL2Entry .zero .zero).valid = false := L.fill_zero _
  cases s <;> exact absurd (hs.1.1.symm.trans hzero) (by decide)

end Abstract

/-! ## Runs -/

/-- A switch without LAGs that uses the first hash algorithm. -/
def plainSwitch (r : Family) : Priv where
  r := r
  l2Ctrl := 0
  lagmembers := 0
  lagNonPrimary := 0
  lagsPortMembers _ := 0

theorem nonLagCalls_plainSwitch {r : Family} {calls : List Call}
    (hports : ∀ call ∈ calls, call.port ≤ r.cpuPort) : NonLagCalls (plainSwitch r) calls :=
  fun call hcall => ⟨hports call hcall, by simp [plainSwitch], by simp [plainSwitch]⟩

/-- Two pairs with one hash on RTL838x. -/
def collidingPair (second : Bool) : Key where
  addr := ⟨2, 0, 0, 0, 0, 1⟩
  vid := if second then 2048 else 1
  unicast := by decide
  vid_lt := by cases second <;> decide

/-- A call on a cleared stack. -/
def call (request : Request) (port : ℕ) (key : Key) : Call := ⟨request, port, key, .zero⟩

/-- Two pairs are added to one bucket, one moves to another port and the other is deleted. -/
theorem finiteMap_of_inOrder :
    FiniteMap (plainSwitch Rtl838x.cfg)
      [call .add 1 (collidingPair false), call .add 2 (collidingPair true),
        call .add 3 (collidingPair false), call .del 2 (collidingPair true)] :=
  finiteMap_of_clean (by simp [families, plainSwitch])
    (nonLagCalls_plainSwitch (by decide))
    ⟨by decide +kernel, by decide +kernel, by decide +kernel, by decide +kernel, trivial⟩

/-- Two pairs are added to one bucket, and the first is deleted. -/
theorem shows_of_del : ∃ calls : List Call, calls.length = 3 ∧
    Shows Rtl838x.cfg (calls.foldl (apply (plainSwitch Rtl838x.cfg)) .empty)
      (portOf (plainSwitch Rtl838x.cfg) calls .empty fun _ => none) :=
  ⟨[⟨.add, 1, collidingPair false, .zero⟩, ⟨.add, 2, collidingPair true, .zero⟩,
      ⟨.del, 1, collidingPair false, .zero⟩],
    rfl, @shows_of_clean (plainSwitch Rtl838x.cfg) (by simp [families, plainSwitch]) _
      (nonLagCalls_plainSwitch (by decide))
      ⟨by decide +kernel, by decide +kernel, by decide +kernel, trivial⟩⟩

/-- Five pairs with one hash on RTL930x. -/
def collidingFive (i : Fin 5) : Key where
  addr := u64ToEtherAddr (1 <<< (11 * i.val))
  vid := 0
  unicast := by decide +revert
  vid_lt := by decide

/-- Deleting the first of two pairs of a bucket and adding the second again gives the second two
entries. On RTL930x a fifth pair of a bucket is not deleted, though the call succeeds. -/
theorem not_finiteMap_of_hidden_of_misplaced :
    (NonLagCalls (plainSwitch Rtl838x.cfg)
        [call .add 1 (collidingPair false), call .add 2 (collidingPair true),
          call .del 1 (collidingPair false), call .add 3 (collidingPair true)] ∧
      ¬ FiniteMap (plainSwitch Rtl838x.cfg)
        [call .add 1 (collidingPair false), call .add 2 (collidingPair true),
          call .del 1 (collidingPair false), call .add 3 (collidingPair true)]) ∧
    NonLagCalls (plainSwitch Rtl930x.cfg)
      ((List.finRange 5).map (fun i => call .add 1 (collidingFive i)) ++
        [call .del 1 (collidingFive 4)]) ∧
      ¬ FiniteMap (plainSwitch Rtl930x.cfg)
        ((List.finRange 5).map (fun i => call .add 1 (collidingFive i)) ++
          [call .del 1 (collidingFive 4)]) := by
  refine ⟨⟨nonLagCalls_plainSwitch (by decide), fun h => ?_⟩,
    nonLagCalls_plainSwitch (by decide), fun h => ?_⟩
  · have htwo := (h 4).1 (collidingPair true)
      (.l2 (bucketIndex ((plainSwitch Rtl838x.cfg).key (collidingPair true)) 0))
      (.l2 (bucketIndex ((plainSwitch Rtl838x.cfg).key (collidingPair true)) 1)) 3 2
      (by decide +kernel) (by decide +kernel)
    revert htwo
    decide +kernel
  · refine ((h 5).2 _ rfl).deleted rfl
      (.l2 (bucketIndex ((plainSwitch Rtl930x.cfg).key (collidingFive 4) >>> 16) 2)) 1 ?_
    decide +kernel

end OpenWrt.Rtl83xx
