/-
# The bounds of the tables in memory

Nearly every loop over a table ends with a size field or with the reserve area, and both fit
their arrays. Three do not: the entries of mapped blocks are cleared up to the number of
blocks in the reserve area before they are written, which are more than the entries on
a large flash, and each of the two tables is built from as many blocks as the scan finds,
with a size field of eight bits.
-/

import OpenWrt.MtkBmt.En75.Checked
import OpenWrt.MtkBmt.En75.Mapping

namespace OpenWrt.MtkBmt.En75.Checked

open OpenWrt.Lib

/-! ## Completing -/

/-- A computation has no breach, and what it returns satisfies `Q`. -/
def Completes {α : Type} (Q : α → Prop) (x : Except Breach α) : Prop := Avoids (fun _ => True) Q x

section Completes

variable {α β : Type} {P Q : α → Prop} {R : β → Prop} {x : Except Breach α}

theorem completes_pure {a : α} (h : Q a) : Completes Q (pure a : Except Breach α) := h

theorem completes_ok {a : α} (h : Q a) : Completes Q (.ok a : Except Breach α) := h

theorem completes_bind {f : α → Except Breach β} (hx : Completes P x)
    (hf : ∀ a, P a → Completes R (f a)) : Completes R (x >>= f) := avoids_bind hx hf

theorem Completes.mono (hx : Completes P x) (h : ∀ a, P a → Q a) : Completes Q x := Avoids.mono hx h

theorem Completes.exists_ok (hx : Completes Q x) : ∃ a, x = .ok a ∧ Q a := by
  cases x with
  | ok a => exact ⟨a, rfl, hx⟩
  | error e => exact absurd trivial hx

theorem completes_check {i cap : ℕ} (h : i < cap) : Completes (fun _ => True) (check i cap) := by
  rw [check, if_pos h]
  trivial

theorem completes_checkAll {n cap : ℕ} (h : n ≤ cap) :
    Completes (fun _ => True) (checkAll n cap) := by
  rw [checkAll, if_pos h]
  trivial

/-- A search up to a limit in the array ends. -/
theorem findUp_eq {cap : ℕ} (p : ℕ → Bool) {n i : ℕ} (h : i + n ≤ cap) :
    findUp cap p n i = .ok ((List.range' i n).find? p) := by
  induction n generalizing i with
  | zero => rfl
  | succ n ih =>
    rw [findUp, check, if_pos (by omega), List.range'_succ]
    change (if p i then _ else _) = _
    cases hp : p i with
    | true =>
      rw [List.find?_cons_of_pos hp]
      rfl
    | false =>
      rw [List.find?_cons_of_neg (by rw [hp]; decide)]
      exact ih (by omega)

theorem completes_findUp {cap : ℕ} (p : ℕ → Bool) {n i : ℕ} (h : i + n ≤ cap) :
    Completes (fun r => ∀ k ∈ r, k < i + n) (findUp cap p n i) := by
  rw [findUp_eq p h]
  refine completes_ok fun k hk => ?_
  have hmem := List.mem_of_find?_eq_some hk
  rw [List.mem_range'_1] at hmem
  exact hmem.2

theorem completes_findDown {cap : ℕ} (p : ℕ → Bool) {n : ℕ} (h : n ≤ cap) :
    Completes (fun r => ∀ k ∈ r, k < n) (findDown cap p n) := by
  induction n with
  | zero =>
    refine completes_pure fun k hk => ?_
    cases hk
  | succ n ih =>
    refine completes_bind (completes_check (by omega)) fun _ _ => ?_
    split
    · refine completes_pure fun k hk => ?_
      cases hk
      omega
    · exact (ih (by omega)).mono fun r hr k hk => by have := hr k hk; omega

end Completes

/-! ## What the arrays hold -/

/-- The reserve area is in `rblocks`, and the configured size in the table of bad blocks. -/
structure Fits (node : Node) (m : Mem) : Prop where
  reserve : reserveBlockCount node m ≤ m.allocated
  bbtTableSize : m.bbtTableSize ≤ MAX_BBT_SIZE

/-- The arrays have the same sizes, and the table of bad blocks is the same. -/
structure Alike (m m' : Mem) : Prop where
  bbt : m'.bbt = m.bbt
  bbtTableSize : m'.bbtTableSize = m.bbtTableSize
  allocated : m'.allocated = m.allocated
  reserveAreaBegin : m'.reserveAreaBegin = m.reserveAreaBegin

section Alike

variable {node : Node} {m m' m'' : Mem}

theorem Alike.refl (m : Mem) : Alike m m := ⟨rfl, rfl, rfl, rfl⟩

theorem Alike.trans (h : Alike m m') (h' : Alike m' m'') : Alike m m'' :=
  ⟨h'.bbt.trans h.bbt, h'.bbtTableSize.trans h.bbtTableSize, h'.allocated.trans h.allocated,
    h'.reserveAreaBegin.trans h.reserveAreaBegin⟩

theorem Alike.count (h : Alike m m') : reserveBlockCount node m' = reserveBlockCount node m := by
  rw [reserveBlockCount, reserveBlockCount, h.reserveAreaBegin]

theorem Fits.of_alike (hfits : Fits node m) (h : Alike m m') : Fits node m' :=
  ⟨by rw [h.count, h.allocated]; exact hfits.reserve, h.bbtTableSize ▸ hfits.bbtTableSize⟩

end Alike

theorem size_le_bmt (size : UInt8) : size.toNat ≤ MAX_BMT_SIZE :=
  Nat.le_of_lt size.toNat_lt

theorem size_le_bbt (size : UInt8) : size.toNat ≤ MAX_BBT_SIZE :=
  Nat.le_trans (Nat.le_of_lt size.toNat_lt) (by decide)

section Driver

variable {σ : Type} {node : Node} {chip : Chip σ} {m : Mem} {d : σ}

/-! ## Functions that stay inside -/

theorem completes_setStatus {i : ℕ} (status : BlockStatus) (hi : i < m.allocated) :
    Completes (fun m' => Alike m m' ∧ m'.bmtDirty = m.bmtDirty) (m.setStatus i status) :=
  completes_bind (completes_check hi) fun _ _ => completes_pure ⟨⟨rfl, rfl, rfl, rfl⟩, rfl⟩

theorem completes_findAvailableBlock (hfits : Fits node m) (startFromEnd : Bool) :
    Completes (fun r => ∀ k ∈ r, k < m.allocated) (findAvailableBlock node m startFromEnd) := by
  have hreserve := hfits.reserve
  unfold findAvailableBlock
  dsimp only
  split
  · exact (completes_findUp _ (by omega)).mono fun r hr k hk => by have := hr k hk; omega
  · exact (completes_findDown _ hreserve).mono fun r hr k hk => Nat.lt_of_lt_of_le (hr k hk) hreserve

theorem completes_sortBbt (size : UInt8) (table : ℕ → UInt16) :
    Completes (fun _ => True) (sortBbt size table) :=
  completes_bind (completes_checkAll (size_le_bbt size)) fun _ _ => completes_pure trivial

variable {n i : ℕ}

theorem completes_shiftFrom (h : i + n ≤ MAX_BBT_SIZE) (block : ℕ) :
    Completes (fun _ => True) (shiftFrom m n i block) := by
  induction n generalizing i block with
  | zero => exact completes_pure trivial
  | succ n ih =>
    exact completes_bind (completes_check (by omega)) fun _ _ => ih (by omega) _

theorem completes_getMappingBlockBbt (m : Mem) (block : ℕ) :
    Completes (fun _ => True) (getMappingBlockBbt m block) := by
  have hsize := size_le_bbt m.bbt.size
  exact completes_bind (completes_shiftFrom (by omega) block) fun _ _ => completes_pure trivial

theorem completes_getMappingBlock (m : Mem) (block : ℕ) :
    Completes (fun _ => True) (getMappingBlock m block) := by
  refine completes_bind (completes_getMappingBlockBbt m block) fun r _ => ?_
  cases r with
  | none => exact completes_pure trivial
  | some block =>
    refine completes_bind (completes_findDown _ (size_le_bmt m.bmt.size)) fun found _ => ?_
    cases found with
    | none => exact completes_pure trivial
    | some i => exact completes_pure trivial

theorem completes_erasePending (h : i + n ≤ m.allocated) :
    Completes (fun r => Alike m r.1 ∧ r.1.bmtDirty = m.bmtDirty) (erasePending node chip n i m d) := by
  induction n generalizing i m d with
  | zero => exact completes_pure ⟨.refl m, rfl⟩
  | succ n ih =>
    have hnext : ∀ (status : BlockStatus) (d : σ),
        Completes (fun r => Alike m r.1 ∧ r.1.bmtDirty = m.bmtDirty)
          (m.setStatus i status >>= fun m => erasePending node chip n (i + 1) m d) := by
      intro status d
      refine completes_bind (completes_setStatus status (by omega)) fun m' h' => ?_
      refine (ih (by rw [h'.1.allocated]; omega)).mono fun r hr => ?_
      exact ⟨h'.1.trans hr.1, hr.2.trans h'.2⟩
    unfold erasePending
    refine completes_bind (completes_check (by omega)) fun _ _ => ?_
    dsimp only
    split
    · exact ih (by omega)
    · split
      · exact hnext _ _
      · exact hnext _ _
      · exact hnext _ _

theorem completes_wErasePending (hfits : Fits node m) :
    Completes (fun r => Alike m r.1 ∧ r.1.bmtDirty = m.bmtDirty) (wErasePending node chip m d) :=
  completes_erasePending (by have := hfits.reserve; omega)

theorem completes_markFrom (status : BlockStatus) (h : i + n ≤ m.allocated) :
    Completes (fun m' => Alike m m' ∧ m'.bmtDirty = m.bmtDirty) (markFrom status n i m) := by
  induction n generalizing i m with
  | zero => exact completes_pure ⟨.refl m, rfl⟩
  | succ n ih =>
    unfold markFrom
    refine completes_bind (completes_check (by omega)) fun _ _ => ?_
    split
    · refine completes_bind (completes_setStatus _ (by omega)) fun m' h' => ?_
      refine (ih (by rw [h'.1.allocated]; omega)).mono fun r hr => ?_
      exact ⟨h'.1.trans hr.1, hr.2.trans h'.2⟩
    · exact ih (by omega)

theorem completes_markForErasure (hfits : Fits node m) (status : BlockStatus) :
    Completes (fun m' => Alike m m' ∧ m'.bmtDirty = m.bmtDirty) (markForErasure node m status) :=
  completes_markFrom status (by have := hfits.reserve; omega)

theorem completes_wUpdateTable (hfits : Fits node m) (startFromEnd : Bool) (buf : List UInt8)
    (tries : ℕ) :
    Completes (fun r => Alike m r.2.1 ∧ r.2.1.bmtDirty = m.bmtDirty ∧ ∀ i ∈ r.1, i < m.allocated)
      (wUpdateTable node chip startFromEnd buf tries m d) := by
  induction tries generalizing m d with
  | zero =>
    refine completes_pure ⟨.refl m, rfl, fun i hi => ?_⟩
    cases hi
  | succ tries ih =>
    unfold wUpdateTable
    refine completes_bind (completes_findAvailableBlock hfits startFromEnd) fun found hfound => ?_
    cases found with
    | none =>
      refine completes_pure ⟨.refl m, rfl, fun i hi => ?_⟩
      cases hi
    | some i =>
      dsimp only
      split
      · refine completes_pure ⟨.refl m, rfl, fun k hk => ?_⟩
        cases hk
        exact hfound i rfl
      · refine completes_bind (completes_setStatus _ (hfound i rfl)) fun m' h' => ?_
        refine (ih (hfits.of_alike h'.1)).mono fun r hr => ?_
        exact ⟨h'.1.trans hr.1, hr.2.1.trans h'.2, fun k hk => h'.1.allocated ▸ hr.2.2 k hk⟩

theorem completes_clearBbtFrom {table : ℕ → UInt16} (h : i + n ≤ MAX_BBT_SIZE ∨ n = 0) :
    Completes (fun _ => True) (clearBbtFrom n i table) := by
  induction n generalizing i table with
  | zero => exact completes_pure trivial
  | succ n ih =>
    exact completes_bind (completes_check (by omega)) fun _ _ => ih (by omega)

theorem completes_clearBmtFrom {bmt : Bmt} (h : i + n ≤ MAX_BMT_SIZE ∨ n = 0) :
    Completes (fun _ => True) (clearBmtFrom n i bmt) := by
  induction n generalizing i bmt with
  | zero => exact completes_pure trivial
  | succ n ih =>
    exact completes_bind (completes_check (by omega)) fun _ _ => ih (by omega)

/-- Clearing entries behind the last one is a breach. -/
theorem clearBmtFrom_eq_outside {bmt : Bmt} (hi : i ≤ MAX_BMT_SIZE) (h : MAX_BMT_SIZE < i + n) :
    clearBmtFrom n i bmt = .error .outside := by
  induction n generalizing i bmt with
  | zero => omega
  | succ n ih =>
    unfold clearBmtFrom
    by_cases hcheck : i < MAX_BMT_SIZE
    · rw [check, if_pos hcheck]
      exact ih hcheck (by omega)
    · rw [check, if_neg hcheck]
      rfl

/-! ## Writing the tables -/

/-- The entries of mapped blocks are not to be written, or the reserve area has no more blocks
than there are entries. -/
def SyncSound (node : Node) (m : Mem) : Prop :=
  m.bmtDirty = 0 ∨ reserveBlockCount node m ≤ MAX_BMT_SIZE

theorem completes_syncBmt (hfits : Fits node m) (hsound : SyncSound node m) :
    Completes (fun r => Alike m r.2.1) (syncBmt node chip m d) := by
  unfold syncBmt
  split
  · exact completes_pure (.refl m)
  next hdirty =>
    have hcount := hsound.resolve_left hdirty
    refine completes_bind (completes_clearBmtFrom (by omega)) fun bmt _ => ?_
    refine completes_bind (completes_checkAll (size_le_bmt _)) fun _ _ => ?_
    have halike : Alike m { m with bmt := { bmt with checksum := bmtChecksum bmt bmt.size.toNat } } :=
      ⟨rfl, rfl, rfl, rfl⟩
    have hfits' := hfits.of_alike halike
    refine completes_bind (completes_wUpdateTable hfits' true _ _) fun r hr => ?_
    obtain ⟨found, m', d'⟩ := r
    obtain ⟨h', -, hfound⟩ := hr
    cases found with
    | none => exact completes_pure (halike.trans h')
    | some i =>
      refine completes_bind (completes_markForErasure (hfits'.of_alike h') _) fun m'' h'' => ?_
      have hi : i < m''.allocated := by
        rw [h''.1.allocated, h'.allocated]
        exact hfound i rfl
      refine completes_bind (completes_setStatus _ hi) fun m₃ h₃ => completes_pure ?_
      exact (((halike.trans h').trans h''.1).trans h₃.1).trans ⟨rfl, rfl, rfl, rfl⟩

theorem syncBmt_eq_outside (hsound : ¬ SyncSound node m) :
    syncBmt node chip m d = .error .outside := by
  unfold SyncSound at hsound
  rw [not_or, Nat.not_le] at hsound
  have hsize := size_le_bmt m.bmt.size
  rw [syncBmt, if_neg hsound.1, clearBmtFrom_eq_outside hsize (by omega)]
  rfl

theorem completes_syncBbt (hfits : Fits node m) :
    Completes (fun r => Fits node r.2.1) (syncBbt node chip m d) := by
  have hsize := hfits.bbtTableSize
  unfold syncBbt
  split
  · exact completes_pure hfits
  · refine completes_bind (completes_clearBbtFrom (by omega)) fun table _ => ?_
    refine completes_bind (completes_checkAll hsize) fun _ _ => ?_
    have hfits' : Fits node { m with bbt := { m.bbt with table } } := ⟨hfits.reserve, hsize⟩
    refine completes_bind (completes_wUpdateTable hfits' false _ _) fun r hr => ?_
    obtain ⟨found, m', d'⟩ := r
    obtain ⟨h', -, hfound⟩ := hr
    cases found with
    | none => exact completes_pure (hfits'.of_alike h')
    | some i =>
      refine completes_bind (completes_markForErasure (hfits'.of_alike h') _) fun m'' h'' => ?_
      have hi : i < m''.allocated := by
        rw [h''.1.allocated, h'.allocated]
        exact hfound i rfl
      refine completes_bind (completes_setStatus _ hi) fun m₃ h₃ => completes_pure ?_
      have hall := (h'.trans h''.1).trans h₃.1
      exact ⟨(hfits'.of_alike hall).reserve, (hfits'.of_alike hall).bbtTableSize⟩

/-- The tables are written without a breach exactly when there is room for the reserve area or
nothing to write. -/
theorem returnsIff_wSyncTables (hfits : Fits node m) :
    ReturnsIff (SyncSound node m) (fun r => Fits node r.1) (wSyncTables node chip m d) := by
  refine returnsIff_bind_of_avoids (completes_wErasePending hfits) ?_
  rintro ⟨m', d'⟩ ⟨halike, hdirty⟩
  have hfits' := hfits.of_alike halike
  have hsame : SyncSound node m' ↔ SyncSound node m := by
    unfold SyncSound
    rw [hdirty, halike.count]
  by_cases hsound : SyncSound node m'
  · refine returnsIff_of_avoids (hsame.mp hsound) ?_
    refine completes_bind (completes_syncBmt hfits' hsound) fun r hr => ?_
    have hfits'' := hfits'.of_alike hr
    dsimp only
    split
    · exact completes_pure hfits''
    · refine completes_bind (completes_syncBbt hfits'') fun r' hr' => ?_
      split
      · exact completes_pure hr'
      · exact (completes_wErasePending hr').mono fun r h => hr'.of_alike h.1
  · dsimp only
    rw [syncBmt_eq_outside hsound]
    exact fun h => hsound (hsame.mpr h)

/-! ## Remapping -/

theorem completes_increase {size : UInt8} (h : size ≠ 0xff) :
    Completes (fun size' => size'.toNat = size.toNat + 1) (increase size) := by
  rw [increase, if_neg h]
  have hlt := size.toNat_lt
  have hne : size.toNat ≠ 255 := fun heq => h (UInt8.toNat.inj heq)
  refine completes_ok ?_
  rw [UInt8.toNat_add]
  exact Nat.mod_eq_of_lt (by change size.toNat + 1 < 256; omega)

theorem completes_decrease {size : UInt8} (h : 0 < size.toNat) :
    Completes (fun size' => size'.toNat = size.toNat - 1) (decrease size) := by
  have hne : size ≠ 0 := by
    rintro rfl
    exact absurd h (by decide)
  rw [decrease, if_neg hne]
  refine completes_ok ?_
  have hle : (1 : UInt8) ≤ size := by
    rw [UInt8.le_iff_toNat_le]
    exact h
  rw [UInt8.toNat_sub_of_le _ _ hle]
  rfl

theorem completes_remapEntry {bmt : Bmt} (h : bmt.size ≠ 0xff) (block newBlock : ℕ) :
    Completes (fun _ => True) (remapEntry bmt block newBlock) := by
  have hsize := size_le_bmt bmt.size
  refine completes_bind (completes_findUp _ (by omega)) fun found _ => ?_
  cases found with
  | some i => exact completes_pure trivial
  | none =>
    refine completes_bind (completes_check bmt.size.toNat_lt) fun _ _ => ?_
    exact completes_bind (completes_increase h) fun _ _ => completes_pure trivial

theorem completes_wRemapBlock (hfits : Fits node m) (block : ℕ) {maybeMapped : Option ℕ}
    (hmapped : ∀ i ∈ maybeMapped, i < m.allocated) (copyLen : ℕ) :
    Completes (fun r => Alike m r.2.1) (wRemapBlock node chip block maybeMapped copyLen m d) := by
  unfold wRemapBlock
  split
  · exact completes_pure (.refl m)
  next hfull =>
    refine completes_bind (completes_findAvailableBlock hfits false) fun found hfound => ?_
    cases found with
    | none => exact completes_pure (.refl m)
    | some new =>
      dsimp only
      split
      · refine completes_bind (completes_remapEntry hfull _ _) fun bmt _ => ?_
        have halike : Alike m { m with bmt, bmtDirty := m.bmtDirty + 1 } := ⟨rfl, rfl, rfl, rfl⟩
        refine completes_bind (completes_setStatus _ (hfound new rfl)) fun m' h' => ?_
        cases maybeMapped with
        | none => exact completes_pure (halike.trans h'.1)
        | some i =>
          have hi : i < m'.allocated := by
            rw [h'.1.allocated]
            exact hmapped i rfl
          exact completes_bind (completes_setStatus _ hi) fun m'' h'' =>
            completes_pure ((halike.trans h'.1).trans h''.1)
      · exact completes_bind (completes_setStatus _ (hfound new rfl)) fun m' h' =>
        completes_pure h'.1

theorem completes_unmapEntry {bmt : Bmt} {i : ℕ} (hi : i < bmt.size.toNat) :
    Completes (fun _ => True) (unmapEntry bmt i) := by
  have hlt : bmt.size.toNat < MAX_BMT_SIZE := bmt.size.toNat_lt
  refine completes_bind (completes_decrease (by omega)) fun size hsize => ?_
  refine completes_bind (completes_check (by omega)) fun _ _ => ?_
  exact completes_bind (completes_check (by omega)) fun _ _ => completes_pure trivial

theorem completes_wUnmapBlock (hfits : Fits node m) (block : ℕ) (erase : Bool) :
    Completes (fun r => Alike m r.2.1) (wUnmapBlock node chip block erase m d) := by
  have hsize := size_le_bmt m.bmt.size
  have hreserve := hfits.reserve
  refine completes_bind (completes_findUp _ (by omega)) fun found hfound => ?_
  cases found with
  | none => exact completes_pure (.refl m)
  | some bmtIndex =>
    have hindex := hfound bmtIndex rfl
    refine completes_bind (completes_findUp _ (by omega)) fun place hplace => ?_
    cases place with
    | none => exact completes_pure (.refl m)
    | some mapped =>
      have hmapped := hplace mapped rfl
      dsimp only
      split
      · refine completes_bind (completes_unmapEntry (by omega)) fun bmt _ => ?_
        have halike : Alike m { m with bmt, bmtDirty := m.bmtDirty + 1 } := ⟨rfl, rfl, rfl, rfl⟩
        refine completes_bind (completes_setStatus _ (by dsimp only; omega)) fun m' h' => ?_
        exact completes_pure (halike.trans h'.1)
      · exact completes_pure (.refl m)

/-! ## Reading the reserve area -/

theorem completes_tryParseBbt (hsize : m.bbtTableSize ≤ MAX_BBT_SIZE) (buf : List UInt8) :
    Completes (fun r => r.2.bbtTableSize = m.bbtTableSize ∧ r.2.allocated = m.allocated)
      (tryParseBbt m buf) := by
  unfold tryParseBbt
  split
  · exact completes_pure ⟨rfl, rfl⟩
  · refine completes_bind (completes_checkAll hsize) fun _ _ => ?_
    dsimp only
    split
    · exact completes_pure ⟨rfl, rfl⟩
    · split
      · exact completes_pure ⟨rfl, rfl⟩
      · exact completes_bind (completes_sortBbt _ _) fun _ _ => completes_pure ⟨rfl, rfl⟩

theorem completes_classify (hsize : m.bbtTableSize ≤ MAX_BBT_SIZE) (buf : List UInt8) (fdm : Fdm) :
    Completes (fun r => r.2.bbtTableSize = m.bbtTableSize ∧ r.2.allocated = m.allocated)
      (classify m buf fdm) := by
  unfold classify
  split
  · exact completes_pure ⟨rfl, rfl⟩
  · split
    · exact completes_pure ⟨rfl, rfl⟩
    · refine completes_bind (completes_tryParseBbt hsize buf) fun r hr => ?_
      dsimp only
      split
      · exact completes_pure hr
      · split
        · exact completes_pure hr
        · exact completes_pure hr

theorem completes_scanned (hsize : m.bbtTableSize ≤ MAX_BBT_SIZE)
    (readout : Option (List UInt8 × Fdm)) :
    Completes (fun r => r.2.bbtTableSize = m.bbtTableSize ∧ r.2.allocated = m.allocated)
      (scanned m readout) := by
  cases readout with
  | none => exact completes_pure ⟨rfl, rfl⟩
  | some readout => exact completes_classify hsize readout.1 readout.2

/-- The scan has a place for each block, and a block in `rblocks` for each of the reserve area it
returns. -/
theorem completes_scanFrom {cursor rblock goodBlocks : ℕ}
    (hcount : rblock + cursor = node.total - 1)
    (hallocated : m.allocated = if rblock = 0 then 0 else node.total - 1)
    (hsize : m.bbtTableSize ≤ MAX_BBT_SIZE) :
    Completes (fun r => ∀ m' ∈ r.1, Fits node m')
      (scanFrom node chip cursor rblock goodBlocks m d) := by
  induction cursor generalizing rblock goodBlocks m d with
  | zero =>
    refine completes_pure fun m' hm' => ?_
    cases hm'
  | succ cursor ih =>
    unfold scanFrom
    have hmore : (if m.allocated ≤ rblock then m.allocated + (cursor + 1) else m.allocated) =
        node.total - 1 := by
      rw [hallocated]
      split_ifs <;> omega
    dsimp only
    rw [hmore]
    split
    · refine completes_pure fun m' hm' => ?_
      cases hm'
    · have hread := completes_scanned (m := { m with allocated := node.total - 1 }) hsize
        (tryRead chip (cursor + 1) INITIAL_READ_TRIES d).1
      refine completes_bind hread fun r hr => ?_
      have hsize' : r.2.bbtTableSize ≤ MAX_BBT_SIZE := Nat.le_trans (Nat.le_of_eq hr.1) hsize
      have hplaces : r.2.allocated = node.total - 1 := hr.2
      refine completes_bind (completes_check (by omega)) fun _ _ => ?_
      generalize (if r.1 ≠ .bad then goodBlocks + 1 else goodBlocks) = good
      split
      · refine completes_pure fun m' hm' => ?_
        cases hm'
        refine ⟨?_, hsize'⟩
        change node.total - (cursor + 1) ≤ r.2.allocated
        omega
      · refine ih (by omega) ?_ hsize'
        rw [if_neg (Nat.succ_ne_zero rblock)]
        exact hplaces

theorem completes_rScanReserve (hsize : m.bbtTableSize ≤ MAX_BBT_SIZE) (hnew : m.allocated = 0) :
    Completes (fun r => ∀ m' ∈ r.1, Fits node m') (rScanReserve node chip m d) := by
  unfold rScanReserve
  split
  next hzero =>
    refine completes_pure fun m' hm' => ?_
    cases hm'
    refine ⟨?_, hsize⟩
    rw [reserveBlockCount, hzero]
    exact Nat.le_trans (Nat.sub_le 0 _) (Nat.zero_le _)
  next => exact completes_scanFrom (by omega) (by rw [if_pos rfl]; exact hnew) hsize

/-! ## Building the tables -/

/-- The user blocks that the good blocks of the reserve area, from below a block down, say they
are used for. -/
def backReferences (chip : Chip σ) (start : ℕ) : (block : ℕ) → σ → List UInt16 × σ
  | 0, d => ([], d)
  | block + 1, d =>
    if block < start then ([], d)
    else
      match chip.read block d with
      | (none, d) => backReferences chip start block d
      | (some (_, fdm), d) =>
        let mapped := fdm.b2.toUInt16 ||| fdm.b3.toUInt16 <<< 8
        if fdmIsBad fdm ≠ .good ∨ mapped.toNat ≥ start then backReferences chip start block d
        else
          let (blocks, d) := backReferences chip start block d
          (mapped :: blocks, d)

def Listed (blocks : List UInt16) (block : ℕ) : Prop := ∃ w ∈ blocks, w.toNat = block

instance (blocks : List UInt16) : DecidablePred (Listed blocks) :=
  fun block => inferInstanceAs (Decidable (∃ w ∈ blocks, w.toNat = block))

theorem listed_cons {w : UInt16} {blocks : List UInt16} {block : ℕ} :
    Listed (w :: blocks) block ↔ w.toNat = block ∨ Listed blocks block :=
  List.exists_mem_cons_iff _ _ _

def Maps (bmt : Bmt) (block : ℕ) : Prop :=
  ∃ j < bmt.size.toNat, (bmt.entry j).fromBlock.toNat = block

theorem maps_or_nil (bmt : Bmt) (block : ℕ) : Maps bmt block ↔ Maps bmt block ∨ Listed [] block :=
  ⟨.inl, fun h => h.resolve_right fun ⟨_, hw, _⟩ => List.not_mem_nil hw⟩

theorem maps_add {bmt : Bmt} {size : UInt8} (hsize : size.toNat = bmt.size.toNat + 1) (e : Entry)
    (block : ℕ) :
    Maps { bmt.setEntry bmt.size.toNat e with size } block ↔
      Maps bmt block ∨ e.fromBlock.toNat = block := by
  have hlt := bmt.size.toNat_lt
  have hlt' := size.toNat_lt
  have hentry : ∀ j, j < size.toNat →
      (bmt.setEntry bmt.size.toNat e).entry j = if j = bmt.size.toNat then e else bmt.entry j :=
    fun j hj => Bmt.entry_setEntry (by omega) hlt
  constructor
  · rintro ⟨j, hj, hfrom⟩
    have hfrom' : ((bmt.setEntry bmt.size.toNat e).entry j).fromBlock.toNat = block := hfrom
    rw [hentry j hj] at hfrom'
    split at hfrom'
    · exact .inr hfrom'
    · exact .inl ⟨j, by change j < size.toNat at hj; omega, hfrom'⟩
  · intro h
    obtain ⟨j, hj, hfrom⟩ | hfrom := h
    · refine ⟨j, by change j < size.toNat; omega, ?_⟩
      change ((bmt.setEntry bmt.size.toNat e).entry j).fromBlock.toNat = block
      rw [hentry j (by omega), if_neg (by omega)]
      exact hfrom
    · refine ⟨bmt.size.toNat, by change bmt.size.toNat < size.toNat; omega, ?_⟩
      change ((bmt.setEntry bmt.size.toNat e).entry bmt.size.toNat).fromBlock.toNat = block
      rw [hentry _ (by omega), if_pos rfl]
      exact hfrom

/-- Steps of a size field that come after one another must leave it at 255 at most. -/
theorem returnsIff_increase_bind {β : Type} {R : β → Prop} {size : UInt8} {k : ℕ}
    {f : UInt8 → Except Breach β}
    (hf : ∀ size', size'.toNat = size.toNat + 1 → ReturnsIff (size'.toNat + k ≤ 255) R (f size')) :
    ReturnsIff (size.toNat + (k + 1) ≤ 255) R (increase size >>= f) := by
  by_cases hfull : size = 0xff
  · rw [increase, if_pos hfull]
    have hsize : size.toNat = 255 := by rw [hfull]; rfl
    change ¬ size.toNat + (k + 1) ≤ 255
    omega
  · obtain ⟨size', hok, hsize'⟩ := (completes_increase hfull).exists_ok
    rw [hok]
    exact (hf size' hsize').mono (by omega) fun _ h => h

/-- The table of mapped blocks can be built when its size field can count them, and maps them
then. -/
theorem returnsIff_reconstructBmtFrom (start block : ℕ) (bmt : Bmt) (d : σ) :
    ReturnsIff (bmt.size.toNat + (backReferences chip start block d).1.length ≤ 255)
      (fun r => r.2 = (backReferences chip start block d).2 ∧ r.1.version = bmt.version ∧
        ∀ b, Maps r.1 b ↔ Maps bmt b ∨ Listed (backReferences chip start block d).1 b)
      (reconstructBmtFrom chip start block bmt d) := by
  induction block generalizing bmt d with
  | zero => exact returnsIff_pure (Nat.lt_succ_iff.mp bmt.size.toNat_lt) ⟨rfl, rfl, maps_or_nil bmt⟩
  | succ block ih =>
    unfold reconstructBmtFrom backReferences
    split
    · exact returnsIff_pure (Nat.lt_succ_iff.mp bmt.size.toNat_lt) ⟨rfl, rfl, maps_or_nil bmt⟩
    · cases hread : chip.read block d with
      | mk readout d =>
        cases readout with
        | none => exact ih bmt d
        | some readout =>
          obtain ⟨buf, fdm⟩ := readout
          dsimp only
          generalize fdm.b2.toUInt16 ||| fdm.b3.toUInt16 <<< 8 = mapped
          split
          · exact ih bmt d
          · refine returnsIff_bind_of_avoids (completes_check bmt.size.toNat_lt) fun _ _ => ?_
            refine returnsIff_increase_bind fun size hsize => ?_
            refine (ih _ d).mono Iff.rfl ?_
            rintro r ⟨hd, hversion, hmaps⟩
            refine ⟨hd, hversion, fun b => ?_⟩
            rw [hmaps, maps_add hsize, or_assoc, listed_cons]

/-- How many of the `n` blocks from a block up are neither mapped nor good nor worn. -/
def factoryBads (chip : Chip σ) (isMapped : ℕ → Prop) [DecidablePred isMapped] :
    (n block : ℕ) → σ → ℕ
  | 0, _, _ => 0
  | n + 1, block, d =>
    if isMapped block then factoryBads chip isMapped n (block + 1) d
    else
      match chip.read block d with
      | (none, d) => factoryBads chip isMapped n (block + 1) d + 1
      | (some (_, fdm), d) =>
        if fdmIsBad fdm = .good ∨ fdmIsBad fdm = .worn then
          factoryBads chip isMapped n (block + 1) d
        else factoryBads chip isMapped n (block + 1) d + 1

/-- The table of bad blocks can be built when its size field can count them. -/
theorem returnsIff_reconstructBbtFrom {bmt : Bmt} {isMapped : ℕ → Prop} [DecidablePred isMapped]
    (hmapped : ∀ b, Maps bmt b ↔ isMapped b) (n block : ℕ) (bbt : RawBbt) (d : σ) :
    ReturnsIff (bbt.size.toNat + factoryBads chip isMapped n block d ≤ 255) (fun _ => True)
      (reconstructBbtFrom chip bmt n block bbt d) := by
  induction n generalizing block bbt d with
  | zero => exact returnsIff_pure (Nat.lt_succ_iff.mp bbt.size.toNat_lt) trivial
  | succ n ih =>
    have hsize := size_le_bmt bmt.size
    -- a block that is added
    have hadd : ∀ d, ReturnsIff
        (bbt.size.toNat + (factoryBads chip isMapped n (block + 1) d + 1) ≤ 255) (fun _ => True) (do
          check bbt.size.toNat MAX_BBT_SIZE
          let size ← increase bbt.size
          let table := Function.update bbt.table bbt.size.toNat (UInt16.ofNat block)
          reconstructBbtFrom chip bmt n (block + 1) { bbt with size, table } d) := by
      intro d
      have hcheck : bbt.size.toNat < MAX_BBT_SIZE := Nat.lt_of_lt_of_le bbt.size.toNat_lt (by decide)
      refine returnsIff_bind_of_avoids (completes_check hcheck) fun _ _ => ?_
      exact returnsIff_increase_bind fun size _ => ih _ _ d
    unfold reconstructBbtFrom factoryBads
    rw [findUp_eq _ (by omega)]
    cases hfind : (List.range' 0 bmt.size.toNat).find?
        fun j => decide ((bmt.entry j).fromBlock.toNat = block) with
    | some j =>
      have hmem := List.mem_of_find?_eq_some hfind
      rw [List.mem_range'_1] at hmem
      have hj := List.find?_some hfind
      rw [if_pos ((hmapped block).mp ⟨j, by omega, of_decide_eq_true hj⟩)]
      exact ih _ bbt d
    | none =>
      have hnot : ¬ isMapped block := fun h => by
        obtain ⟨j, hj, hfrom⟩ := (hmapped block).mpr h
        have hmem : j ∈ List.range' 0 bmt.size.toNat := by
          rw [List.mem_range'_1]
          omega
        exact List.find?_eq_none.mp hfind j hmem (decide_eq_true hfrom)
      rw [if_neg hnot]
      cases hread : chip.read block d with
      | mk readout d =>
        cases readout with
        | none => exact hadd d
        | some readout =>
          obtain ⟨buf, fdm⟩ := readout
          by_cases hgood : fdmIsBad fdm = .good ∨ fdmIsBad fdm = .worn
          · have hdec : decide (fdmIsBad fdm = .good ∨ fdmIsBad fdm = .worn) = true :=
              decide_eq_true hgood
            dsimp only
            rw [if_pos hgood]
            change ReturnsIff _ _ (if decide _ = true then _ else _)
            rw [if_pos hdec]
            exact ih _ bbt d
          · have hdec : ¬ decide (fdmIsBad fdm = .good ∨ fdmIsBad fdm = .worn) = true :=
              fun h => hgood (of_decide_eq_true h)
            dsimp only
            rw [if_neg hgood]
            change ReturnsIff _ _ (if decide _ = true then _ else _)
            rw [if_neg hdec]
            exact hadd d

instance (bmt : Bmt) : DecidablePred (Maps bmt) :=
  fun block => inferInstanceAs (Decidable (∃ j < bmt.size.toNat, (bmt.entry j).fromBlock.toNat = block))

/-- The good blocks of the reserve area name no more user blocks than the size field counts. -/
def BmtSound (node : Node) (chip : Chip σ) (m : Mem) (d : σ) : Prop :=
  (backReferences chip m.reserveAreaBegin node.total d).1.length ≤ 255

theorem returnsIff_rReconstructBmt (hfits : Fits node m) :
    ReturnsIff (BmtSound node chip m d)
      (fun r => Fits node r.1 ∧ r.1.reserveAreaBegin = m.reserveAreaBegin ∧
        r.1.bmtDirty = m.bmtDirty + 1 ∧ r.1.bmt.version = 1 ∧
        r.2 = (backReferences chip m.reserveAreaBegin node.total d).2 ∧
        ∀ b, Maps r.1.bmt b ↔ Listed (backReferences chip m.reserveAreaBegin node.total d).1 b)
      (rReconstructBmt node chip m d) := by
  have hbuilt := @returnsIff_reconstructBmtFrom σ chip m.reserveAreaBegin node.total
    { Bmt.zero with
      signature := bmtSignature
      version := 1
      table := fun i => if (i : ℕ) < 251 then ⟨0, 0⟩ else m.bmt.table i } d
  have hcond : 0 + (backReferences chip m.reserveAreaBegin node.total d).1.length ≤ 255 ↔
      BmtSound node chip m d := by
    rw [Nat.zero_add]
    rfl
  refine (returnsIff_bind_avoids hbuilt ?_).mono hcond fun _ h => h
  rintro ⟨bmt, d'⟩ ⟨hd, hversion, hmaps⟩
  refine completes_pure ⟨⟨hfits.reserve, hfits.bbtTableSize⟩, rfl, rfl, hversion, hd, fun b => ?_⟩
  rw [hmaps]
  exact ⟨fun h => h.resolve_left fun ⟨_, hj, _⟩ => Nat.not_lt_zero _ hj, .inr⟩

theorem returnsIff_rReconstructBbt (hfits : Fits node m) {isMapped : ℕ → Prop}
    [DecidablePred isMapped] (hmapped : ∀ b, Maps m.bmt b ↔ isMapped b) :
    ReturnsIff (m.bmt.version = 0 ∨ factoryBads chip isMapped m.reserveAreaBegin 0 d ≤ 255)
      (fun r => Fits node r.2.1 ∧ r.2.1.reserveAreaBegin = m.reserveAreaBegin ∧
        r.2.1.bmtDirty = m.bmtDirty ∧ (m.bmt.version ≠ 0 → r.1 = .ok))
      (rReconstructBbt chip m d) := by
  unfold rReconstructBbt
  split
  next hversion =>
    exact returnsIff_pure (.inl hversion) ⟨hfits, rfl, rfl, fun h => absurd hversion h⟩
  next hversion =>
    refine returnsIff_bind_of_avoids (completes_checkAll hfits.bbtTableSize) fun _ _ => ?_
    have hbuilt := @returnsIff_reconstructBbtFrom σ chip m.bmt isMapped _ hmapped m.reserveAreaBegin 0
      ⟨1, 0, fun i => if i < m.bbtTableSize then 0 else m.bbt.table i⟩ d
    refine (returnsIff_bind_avoids hbuilt ?_).mono ?_ fun _ h => h
    · rintro ⟨bbt, d'⟩ _
      exact completes_bind (completes_sortBbt _ _) fun table _ =>
        completes_pure ⟨⟨hfits.reserve, hfits.bbtTableSize⟩, rfl, rfl, fun _ => rfl⟩
    · change 0 + _ ≤ 255 ↔ _
      rw [Nat.zero_add]
      exact ⟨.inr, fun h => h.resolve_left hversion⟩

/-- What the flash must not hold where a table was not found. -/
def TablesSound (node : Node) (chip : Chip σ) (m : Mem) (d : σ) : Prop :=
  if m.bbt.version ≠ 0 then m.bmt.version = 0 → BmtSound node chip m d
  else if ¬ m.canWriteFactoryBbt then True
  else if node.factoryBadblocks.isSome then m.bmt.version = 0 → BmtSound node chip m d
  else if m.bmt.version ≠ 0 then factoryBads chip (Maps m.bmt) m.reserveAreaBegin 0 d ≤ 255
  else
    let (blocks, d') := backReferences chip m.reserveAreaBegin node.total d
    blocks.length ≤ 255 ∧ factoryBads chip (Listed blocks) m.reserveAreaBegin 0 d' ≤ 255

/-- A table of mapped blocks that was not found is built. -/
theorem returnsIff_bmtOrReconstruct (hfits : Fits node m) :
    ReturnsIff (m.bmt.version = 0 → BmtSound node chip m d) (fun r => Fits node r.2.1)
      (if m.bmt.version = 0 then do
        let (m, d) ← rReconstructBmt node chip m d
        pure (Ret.ok, m, d)
      else pure (.ok, m, d)) := by
  split
  next hversion =>
    refine (returnsIff_bind_avoids (returnsIff_rReconstructBmt hfits) ?_).mono ?_ fun _ h => h
    · exact fun r hr => completes_pure hr.1
    · exact ⟨fun h _ => h, fun h => h hversion⟩
  next hversion => exact returnsIff_pure (fun h => absurd h hversion) hfits

theorem returnsIff_wInitTables (hfits : Fits node m) :
    ReturnsIff (TablesSound node chip m d) (fun r => Fits node r.2.1) (wInitTables node chip m d) := by
  unfold wInitTables TablesSound
  split
  · exact returnsIff_bmtOrReconstruct hfits
  · split
    · exact returnsIff_pure trivial hfits
    · split
      · exact returnsIff_bmtOrReconstruct hfits
      · split
        next hversion =>
          refine (returnsIff_rReconstructBbt hfits fun b => Iff.rfl).mono ?_ fun _ h => h.1
          exact ⟨fun h => h.resolve_left hversion, .inr⟩
        next =>
          cases hscan : backReferences chip m.reserveAreaBegin node.total d with
          | mk blocks d' =>
            have hbmt := @returnsIff_rReconstructBmt σ node chip m d hfits
            unfold BmtSound at hbmt
            rw [hscan] at hbmt
            refine returnsIff_bind_and hbmt ?_
            rintro ⟨m', d₁⟩ ⟨hfits', hbegin, -, hversion', hd, hmaps⟩
            cases hd
            refine (returnsIff_rReconstructBbt hfits' hmaps).mono ?_ fun _ h => h.1
            rw [hbegin]
            refine ⟨fun h => h.resolve_left ?_, .inr⟩
            rw [hversion']
            decide

/-! ## Starting -/

theorem foldl_addRemapRange_eq (ranges : List (ℕ × ℕ)) (m : Mem) :
    ∃ canRemapRanges, ranges.foldl addRemapRange m = { m with canRemapRanges } := by
  induction ranges generalizing m with
  | nil => exact ⟨m.canRemapRanges, rfl⟩
  | cons r ranges ih =>
    rw [List.foldl_cons]
    unfold addRemapRange
    split
    · exact ih m
    · exact ih { m with canRemapRanges := m.canRemapRanges ++ [(r.1, r.1 + r.2)] }

theorem addRemapRanges_eq (node : Node) (m : Mem) :
    ∃ canRemapRanges, (if node.enableRemap then addRemapRange m (0, m.reserveAreaBegin)
      else node.remapPartitions.foldl addRemapRange m) = { m with canRemapRanges } := by
  split
  · exact foldl_addRemapRange_eq [(0, m.reserveAreaBegin)] m
  · exact foldl_addRemapRange_eq node.remapPartitions m

theorem completes_wInitScan :
    Completes (fun r => ∀ m ∈ r.1, Fits node m) (wInitScan node chip d) := by
  have hnone : ∀ d : σ, Completes (fun r => ∀ m ∈ r.1, Fits node m)
      (pure (none, d) : Except Breach (Option Mem × σ)) := fun d =>
    completes_pure fun m hm => by cases hm
  unfold wInitScan
  dsimp only
  split
  · exact hnone d
  next hle =>
    have hscan := @completes_rScanReserve σ node chip
      (.initial (node.bbtTableSize.getD 1000).toNat) d (Nat.le_of_not_lt hle) rfl
    refine completes_bind hscan ?_
    rintro ⟨found, d'⟩ hfits
    cases found with
    | none => exact hnone d'
    | some m =>
      dsimp only
      split
      · exact hnone d'
      · obtain ⟨canRemapRanges, hranges⟩ := addRemapRanges_eq node
          { m with canWriteFactoryBbt := node.canWriteFactoryBbt }
        refine completes_pure fun m' hm' => ?_
        cases hm'
        rw [hranges]
        exact ⟨(hfits m rfl).reserve, (hfits m rfl).bbtTableSize⟩

/-- The table of bad blocks is cleared from its last entry down, so that its size is the number
of entries to go. -/
theorem completes_clearBbt (blocks : List UInt32) {n : ℕ} (hfits : Fits node m)
    (hsize : m.bbt.size.toNat = n) :
    Completes (fun r => Fits node r.1 ∧ r.1.bbt.size.toNat = 0) (clearBbt node chip blocks n m d) := by
  have hle := size_le_bbt m.bbt.size
  induction n generalizing m d with
  | zero => exact completes_pure ⟨hfits, hsize⟩
  | succ i ih =>
    unfold clearBbt
    refine completes_bind (completes_check (by omega)) fun _ _ => ?_
    refine completes_bind (completes_decrease (by omega)) fun size hnext => ?_
    refine completes_bind (completes_check (by omega)) fun _ _ => ?_
    dsimp only
    split
    · exact ih ⟨hfits.reserve, hfits.bbtTableSize⟩ (by dsimp only; omega) (size_le_bbt _)
    · exact ih ⟨hfits.reserve, hfits.bbtTableSize⟩ (by dsimp only; omega) (size_le_bbt _)

theorem completes_unmapAll (blocks : List UInt32) (hfits : Fits node m) :
    Completes (fun r => Alike m r.1) (unmapAll node chip blocks m d) := by
  induction blocks generalizing m d with
  | nil => exact completes_pure (.refl m)
  | cons block blocks ih =>
    refine completes_bind (completes_getMappingBlock m _) fun found _ => ?_
    cases found with
    | none => exact ih hfits
    | some mapped =>
      dsimp only
      split
      · exact ih hfits
      · refine completes_bind (completes_wUnmapBlock hfits _ _) fun r halike => ?_
        exact (ih (hfits.of_alike halike)).mono fun r' h => halike.trans h

/-- There is room for the blocks of the device tree in a table that was cleared. -/
theorem completes_addAll (blocks : List UInt32) (hfits : Fits node m)
    (hroom : m.bbt.size.toNat + blocks.length ≤ 255) :
    Completes (fun r => Fits node r.1) (addAll node chip blocks m d) := by
  induction blocks generalizing m d with
  | nil => exact completes_pure hfits
  | cons block blocks ih =>
    rw [List.length_cons] at hroom
    have hle := size_le_bbt m.bbt.size
    refine completes_bind (completes_findUp _ (by omega)) fun found _ => ?_
    cases found with
    | some j => exact ih hfits (by omega)
    | none =>
      have hfull : m.bbt.size ≠ 0xff := fun h => by
        rw [h] at hroom
        change 255 + _ ≤ 255 at hroom
        omega
      have hcheck : m.bbt.size.toNat < MAX_BBT_SIZE :=
        Nat.lt_of_lt_of_le m.bbt.size.toNat_lt (by decide)
      refine completes_bind (completes_check hcheck) fun _ _ => ?_
      refine completes_bind (completes_increase hfull) fun size hsize => ?_
      exact ih ⟨hfits.reserve, hfits.bbtTableSize⟩ (by dsimp only; omega)

theorem completes_allListed (m : Mem) (blocks : List UInt32) :
    Completes (fun _ => True) (allListed m blocks) := by
  have hle := size_le_bbt m.bbt.size
  induction blocks with
  | nil => exact completes_pure trivial
  | cons block blocks ih =>
    refine completes_bind (completes_findUp _ (by omega)) fun found _ => ?_
    cases found with
    | some j => exact ih
    | none =>
      dsimp only
      split
      · exact ih
      · exact completes_pure trivial

theorem completes_wFactoryBadblocks {blocks : List UInt32} (hblocks : blocks.length ≤ 32)
    (hfits : Fits node m) :
    Completes (fun r => Fits node r.2.1) (wFactoryBadblocks node chip blocks m d) := by
  unfold wFactoryBadblocks
  split
  · exact completes_pure hfits
  · split
    · exact completes_pure hfits
    · split
      · exact completes_pure hfits
      · split
        · split
          · exact completes_pure hfits
          · exact completes_bind (completes_allListed m blocks) fun _ _ => completes_pure hfits
        · refine completes_bind (completes_clearBbt blocks hfits rfl) fun r hr => ?_
          obtain ⟨hfits₁, hzero⟩ := hr
          refine completes_bind (completes_unmapAll blocks hfits₁) fun r₂ halike => ?_
          have hroom : r₂.1.bbt.size.toNat + blocks.length ≤ 255 := by
            rw [halike.bbt]
            omega
          refine completes_bind (completes_addAll blocks (hfits₁.of_alike halike) hroom) fun r₃ h₃ => ?_
          refine completes_bind (completes_sortBbt _ _) fun table _ => ?_
          exact completes_pure ⟨h₃.reserve, h₃.bbtTableSize⟩

theorem completes_wInitFactory (hfits : Fits node m) :
    Completes (fun r => Fits node r.2.1) (wInitFactory node chip m d) := by
  unfold wInitFactory
  cases hblocks : node.factoryBadblocks with
  | none => exact completes_pure hfits
  | some blocks => exact completes_wFactoryBadblocks (node.factoryBadblocks_le blocks hblocks) hfits

/-- In the state that the scan leaves, what the flash must not hold where a table was not
found. -/
def ScanSound (node : Node) (chip : Chip σ) (d : σ) : Prop :=
  ∀ m d', wInitScan node chip d = .ok (some m, d') → TablesSound node chip m d'

theorem returnsIff_pubInitHead :
    ReturnsIff (ScanSound node chip d) (fun r => ∀ m ∈ r.1, Fits node m) (pubInitHead node chip d) := by
  have hnone : ∀ d : σ, Completes (fun r => ∀ m ∈ r.1, Fits node m)
      (pure (none, d) : Except Breach (Option Mem × σ)) := fun d =>
    completes_pure fun m hm => by cases hm
  obtain ⟨⟨found, d'⟩, hscan, hfits⟩ :=
    (@completes_wInitScan σ node chip d).exists_ok
  unfold pubInitHead ScanSound
  rw [hscan]
  cases found with
  | none =>
    refine returnsIff_of_avoids (fun m d₁ h => ?_) (hnone d')
    cases h
  | some m =>
    have hsound : TablesSound node chip m d' ↔
        ∀ m₁ d₁, (Except.ok (some m, d') : Except Breach _) = .ok (some m₁, d₁) →
          TablesSound node chip m₁ d₁ := by
      constructor
      · intro h m₁ d₁ heq
        cases heq
        exact h
      · exact fun h => h m d' rfl
    refine (returnsIff_bind_avoids (returnsIff_wInitTables (hfits m rfl)) ?_).mono hsound fun _ h => h
    rintro ⟨ret, m₁, d₁⟩ hfits₁
    cases ret with
    | ok =>
      refine completes_bind (completes_wInitFactory hfits₁) ?_
      rintro ⟨ret₂, m₂, d₂⟩ hfits₂
      cases ret₂ with
      | ok =>
        refine completes_bind (completes_checkAll (size_le_bbt _)) fun _ _ => ?_
        refine completes_bind (completes_checkAll (size_le_bmt _)) fun _ _ => ?_
        refine completes_pure fun m' hm' => ?_
        cases hm'
        exact hfits₂
      | _ => exact hnone d₂
    | _ => exact hnone d₁

/-! ## Calls -/

theorem completes_pubRemapHead (hfits : Fits node m) (userBlock mappedBlockIdx copyLen : ℕ) :
    Completes (fun r => Fits node r.2.1)
      (pubRemapHead node chip userBlock mappedBlockIdx copyLen m d) := by
  have hreserve := hfits.reserve
  unfold pubRemapHead
  split
  · exact completes_pure hfits
  · refine completes_bind (completes_getMappingBlockBbt m userBlock) fun found _ => ?_
    dsimp only
    split
    · exact completes_pure hfits
    · split
      · refine completes_bind (completes_wRemapBlock hfits _ (fun i hi => by cases hi) copyLen)
          fun r halike => ?_
        exact completes_pure (hfits.of_alike halike)
      · refine completes_bind (completes_findUp _ (by omega)) fun place hplace => ?_
        cases place with
        | none => exact completes_pure hfits
        | some i =>
          have hi := hplace i rfl
          have hmapped : ∀ k ∈ some i, k < m.allocated := fun k hk => by
            cases hk
            omega
          refine completes_bind (completes_wRemapBlock hfits _ hmapped copyLen) fun r halike => ?_
          exact completes_pure (hfits.of_alike halike)

theorem completes_pubUnmapHead (hfits : Fits node m) (userBlock : ℕ) :
    Completes (fun r => Fits node r.2.1) (pubUnmapHead node chip userBlock m d) := by
  refine completes_bind (completes_getMappingBlockBbt m userBlock) fun found _ => ?_
  cases found with
  | none => exact completes_pure hfits
  | some block =>
    dsimp only
    split
    · exact completes_pure hfits
    · refine completes_bind (completes_wUnmapBlock hfits _ _) fun r halike => ?_
      exact completes_pure (hfits.of_alike halike)

theorem completes_head (hfits : Fits node m) (call : Call) :
    Completes (fun r => Fits node r.2.1) (call.head node chip m d) := by
  cases call with
  | remapBlock userBlock mappedBlockIdx copyLen => exact completes_pubRemapHead hfits _ _ _
  | unmapBlock userBlock => exact completes_pubUnmapHead hfits _
  | getMappingBlock userBlock =>
    exact completes_bind (completes_getMappingBlock m userBlock) fun _ _ => completes_pure hfits

/-- Where the call has changed a table, there is room for the reserve area when it is written. -/
def CallSound (node : Node) (chip : Chip σ) (state : Mem × σ) (call : Call) : Prop :=
  ∀ m d, call.head node chip state.1 state.2 = .ok (true, m, d) → SyncSound node m

theorem returnsIff_run_call {state : Mem × σ} (hfits : Fits node state.1) (call : Call) :
    ReturnsIff (CallSound node chip state call) (fun state' => Fits node state'.1)
      (call.run node chip state) := by
  obtain ⟨⟨isChanged, m, d⟩, hhead, hfits'⟩ :=
    (@completes_head σ node chip state.1 state.2 hfits call).exists_ok
  unfold Call.run CallSound
  rw [hhead]
  cases isChanged with
  | false =>
    refine returnsIff_of_avoids (fun m₁ d₁ h => ?_) (completes_pure hfits')
    cases h
  | true =>
    refine (returnsIff_wSyncTables hfits').mono ?_ fun _ h => h
    constructor
    · intro h m₁ d₁ heq
      cases heq
      exact h
    · exact fun h => h m d rfl

/-- The tables that the start leaves can be written. -/
def HeadSound (node : Node) (chip : Chip σ) (d : σ) : Prop :=
  ∀ m d', pubInitHead node chip d = .ok (some m, d') → SyncSound node m

theorem returnsIff_pubInit :
    ReturnsIff (ScanSound node chip d ∧ HeadSound node chip d)
      (fun r => ∀ state ∈ r, Fits node state.1) (pubInit node chip d) := by
  have hhead := @returnsIff_pubInitHead σ node chip d
  unfold pubInit HeadSound
  cases hrun : pubInitHead node chip d with
  | error e =>
    rw [hrun] at hhead
    exact fun h => hhead h.1
  | ok r =>
    rw [hrun] at hhead
    obtain ⟨found, d'⟩ := r
    obtain ⟨hscan, hfits⟩ := hhead
    cases found with
    | none =>
      refine returnsIff_pure ⟨hscan, fun m₁ d₁ h => ?_⟩ fun state h => ?_
      · cases h
      · cases h
    | some m =>
      refine (returnsIff_bind_avoids (returnsIff_wSyncTables (hfits m rfl)) ?_).mono ?_ fun _ h => h
      · refine fun state h => completes_pure fun state' hstate' => ?_
        cases hstate'
        exact h
      · refine ⟨fun h => ⟨hscan, fun m₁ d₁ heq => ?_⟩, fun h => h.2 m d' rfl⟩
        cases heq
        exact h

/-- The start and every call after it meet their conditions. -/
def RunSound (node : Node) (chip : Chip σ) (calls : List Call) (d : σ) : Prop :=
  (ScanSound node chip d ∧ HeadSound node chip d) ∧
    ∀ state, pubInit node chip d = .ok (some state) →
      MeetsAlong (Call.run node chip) (CallSound node chip) state calls

theorem returnsIff_runs (calls : List Call) :
    ReturnsIff (RunSound node chip calls d) (fun _ => True) (run node chip calls d) := by
  have hstart := @returnsIff_pubInit σ node chip d
  unfold run RunSound
  cases hrun : pubInit node chip d with
  | error e =>
    rw [hrun] at hstart
    exact fun h => hstart h.1
  | ok found =>
    rw [hrun] at hstart
    cases found with
    | none =>
      refine returnsIff_pure ⟨hstart.1, fun state h => ?_⟩ trivial
      cases h
    | some state =>
      have hcalls : ReturnsIff (MeetsAlong (Call.run node chip) (CallSound node chip) state calls)
          (fun state' => Fits node state'.1) (calls.foldlM (Call.run node chip) state) :=
        returnsIff_run (fun _ call h => returnsIff_run_call h call) (hstart.2 state rfl)
      refine (returnsIff_bind_avoids hcalls fun _ _ => completes_pure trivial).mono ?_ fun _ h => h
      refine ⟨fun h => ⟨hstart.1, fun state' heq => ?_⟩, fun h => h.2 state rfl⟩
      cases heq
      exact h

theorem runSound_of_ok {calls : List Call} {r : Option (Mem × σ)}
    (hrun : run node chip calls d = .ok r) : RunSound node chip calls d :=
  ((returnsIff_runs calls).of_ok hrun).1

/-- Every access of the start and of the calls after it is inside its array, and no size field
wraps, exactly when each table that is built fits its size field and each reserve area that is
cleared for writing fits the table. -/
theorem stays_inside_iff (node : Node) (chip : Chip σ) (calls : List Call) (d : σ) :
    (∃ r, run node chip calls d = .ok r ∧ ∀ state ∈ r,
      state.1.bmt.size.toNat ≤ MAX_BMT_SIZE ∧ state.1.bbt.size.toNat ≤ MAX_BBT_SIZE) ↔
      RunSound node chip calls d := by
  rw [← (returnsIff_runs calls).exists_ok_iff]
  constructor
  · rintro ⟨r, hr, -⟩
    exact ⟨r, hr⟩
  · rintro ⟨r, hr⟩
    exact ⟨r, hr, fun state _ => ⟨size_le_bmt _, size_le_bbt _⟩⟩

end Driver

/-! ## A blank flash -/

def blankPage : List UInt8 := List.replicate 2048 0xff

/-- A flash with nothing on it, where everything works. -/
def blankChip : Chip Unit where
  read _ d := (some (blankPage, .blank), d)
  write _ _ _ d := (true, d)
  erase _ d := (true, d)
  copy _ _ _ d := (true, d)
  krealloc _ := true

/-- A flash of 4096 blocks whose table of bad blocks may be written. -/
def largeNode : Node where
  totalBlks := 4096
  bbtTableSize := none
  assertReserveSize := none
  canWriteFactoryBbt := true
  factoryBadblocks := none
  factoryBadblocks_le _ h := by cases h
  enableRemap := true
  remapPartitions := []

/-- An erased page has no table, and leaves entries in the workspace. -/
theorem scanned_blank (m : Mem) (hsize : m.bbtTableSize = 1000) :
    ∃ workspace, scanned m (some (blankPage, .blank)) = .ok (.available, { m with workspace }) := by
  have hbbt : ∃ workspace, tryParseBbt m blankPage = .ok (false, { m with workspace }) := by
    have hlength : ¬ blankPage.length < bbtHeaderSize + 2 * m.bbtTableSize := by
      rw [hsize, blankPage, List.length_replicate]
      decide
    have hentries : checkAll m.bbtTableSize MAX_BBT_SIZE = .ok () := by
      rw [hsize]
      rfl
    refine ⟨fun i => if i < m.bbtTableSize then halfAt blankPage (bbtHeaderSize + 2 * i)
      else m.workspace i, ?_⟩
    have hsignature : blankPage.take 4 ≠ [82, 65, 87, 66] := by decide
    rw [tryParseBbt, if_neg hlength, hentries]
    simp only [bind, Except.bind, if_pos hsignature]
    rfl
  obtain ⟨workspace, hbbt⟩ := hbbt
  have hbmt : tryParseBmt blankPage = none := by
    rw [tryParseBmt, if_neg (by rw [blankPage, List.length_replicate]; decide)]
    exact if_pos (by decide)
  have herased : blockIsErased blankPage .blank = true := by
    rw [blockIsErased, blankPage, List.all_replicate]
    rfl
  refine ⟨workspace, ?_⟩
  unfold scanned classify
  dsimp only
  rw [if_neg (by decide), if_neg (by decide), hbbt, hbmt, herased]
  rfl

/-- The scan of a blank flash takes as many blocks as are required. -/
theorem scanFrom_blank {node : Node} {cursor rblock : ℕ} (hlt : rblock < requiredGoodBlocks node.total)
    (henough : requiredGoodBlocks node.total ≤ rblock + cursor) (m : Mem)
    (hsize : m.bbtTableSize = 1000) (hallocated : m.allocated = if rblock = 0 then 0 else rblock + cursor) :
    ∃ m', scanFrom node blankChip cursor rblock rblock m () = .ok (some m', ()) ∧
      m'.reserveAreaBegin = rblock + cursor + 1 - requiredGoodBlocks node.total ∧
      m'.bbt = m.bbt ∧ m'.bmt = m.bmt ∧ m'.bmtDirty = m.bmtDirty := by
  induction cursor generalizing rblock m with
  | zero => omega
  | succ cursor ih =>
    have hmore : (if m.allocated ≤ rblock then m.allocated + (cursor + 1) else m.allocated) =
        rblock + (cursor + 1) := by
      rw [hallocated]
      split_ifs <;> omega
    obtain ⟨workspace, hscanned⟩ := scanned_blank { m with allocated := rblock + (cursor + 1) } hsize
    have hcheck : check rblock (rblock + (cursor + 1)) = .ok () := if_pos (by omega)
    unfold scanFrom
    dsimp only
    rw [hmore, if_neg (fun h => h.2 rfl)]
    change ∃ m', ((scanned _ (some (blankPage, .blank))) >>= _) = _ ∧ _
    rw [hscanned]
    change ∃ m', (check rblock (rblock + (cursor + 1)) >>= _) = _ ∧ _
    rw [hcheck]
    change ∃ m', (if rblock + 1 ≥ _ then _ else _) = _ ∧ _
    by_cases hdone : rblock + 1 ≥ requiredGoodBlocks node.total
    · rw [if_pos hdone]
      refine ⟨_, rfl, ?_, rfl, rfl, rfl⟩
      change cursor + 1 = _
      omega
    · rw [if_neg hdone]
      obtain ⟨m', hrun, hbegin, hrest⟩ := @ih (rblock + 1) (by omega) (by omega)
        { m with
          workspace
          allocated := rblock + (cursor + 1)
          rblocks := Function.update m.rblocks rblock ⟨cursor + 1, .available⟩ }
        hsize (by rw [if_neg (by omega)]; dsimp only; omega)
      exact ⟨m', hrun, by omega, hrest⟩

/-- The scan of a blank flash finds no table. -/
theorem wInitScan_blank {node : Node} (hsize : node.bbtTableSize = none)
    (hassert : node.assertReserveSize = none) (hwrite : node.canWriteFactoryBbt = true)
    (hrequired : 0 < requiredGoodBlocks node.total)
    (hfew : requiredGoodBlocks node.total ≤ node.total - 1) :
    ∃ m, wInitScan node blankChip () = .ok (some m, ()) ∧ m.bbt.version = 0 ∧ m.bmt.version = 0 ∧
      m.bmtDirty = 0 ∧ m.reserveAreaBegin = node.total - requiredGoodBlocks node.total ∧
      m.canWriteFactoryBbt = true := by
  obtain ⟨m, hrun, hbegin, hbbt, hbmt, hdirty⟩ := @scanFrom_blank node (node.total - 1) 0
    hrequired (by omega) (.initial 1000) rfl rfl
  have hzero : node.total ≠ 0 := by omega
  obtain ⟨canRemapRanges, hranges⟩ := addRemapRanges_eq node { m with canWriteFactoryBbt := true }
  unfold wInitScan rScanReserve
  rw [hsize]
  dsimp only
  rw [if_neg (by decide), if_neg hzero]
  change ∃ m', (scanFrom node blankChip (node.total - 1) 0 0 (.initial 1000) () >>= _) = _ ∧ _
  rw [hrun, hassert, hwrite]
  refine ⟨_, rfl, ?_⟩
  rw [hranges]
  refine ⟨?_, ?_, hdirty, ?_, rfl⟩
  · change m.bbt.version = 0
    rw [hbbt]
    rfl
  · change m.bmt.version = 0
    rw [hbmt]
    rfl
  · change m.reserveAreaBegin = _
    omega

/-- Where both tables are built and the device tree has no blocks, the start goes on to write. -/
theorem pubInitHead_eq {σ : Type} {node : Node} {chip : Chip σ} {m m' : Mem} {d d' d'' : σ}
    (hscan : wInitScan node chip d = .ok (some m, d'))
    (htables : wInitTables node chip m d' = .ok (.ok, m', d''))
    (hblocks : node.factoryBadblocks = none) :
    pubInitHead node chip d = .ok (some m', d'') := by
  have hbbtSize : checkAll m'.bbt.size.toNat MAX_BBT_SIZE = .ok () := if_pos (size_le_bbt _)
  have hbmtSize : checkAll m'.bmt.size.toNat MAX_BMT_SIZE = .ok () := if_pos (size_le_bmt _)
  unfold pubInitHead
  rw [hscan]
  change (wInitTables node chip m d' >>= _) = _
  rw [htables]
  change (wInitFactory node chip m' d'' >>= _) = _
  rw [wInitFactory, hblocks]
  change (checkAll _ MAX_BBT_SIZE >>= fun _ => checkAll _ MAX_BMT_SIZE >>= _) = _
  rw [hbbtSize, hbmtSize]
  rfl

/-- A blank flash with more required blocks than entries is not written without a breach. -/
theorem not_runSound_of_blank {node : Node} (hsize : node.bbtTableSize = none)
    (hassert : node.assertReserveSize = none) (hwrite : node.canWriteFactoryBbt = true)
    (hblocks : node.factoryBadblocks = none) (hmany : MAX_BMT_SIZE < requiredGoodBlocks node.total)
    (hfew : requiredGoodBlocks node.total ≤ node.total - 1) (calls : List Call) :
    ¬ RunSound node blankChip calls () := by
  rintro ⟨⟨hscan, hhead⟩, -⟩
  obtain ⟨m₁, hscanned, hbbt, hbmt, hdirty₁, hbegin₁, hwrite₁⟩ :=
    wInitScan_blank hsize hassert hwrite (by omega) hfew
  have hfits : Fits node m₁ :=
    Avoids.of_ok (@completes_wInitScan Unit node blankChip ()) hscanned m₁ rfl
  have hbbtVersion : ¬ m₁.bbt.version ≠ 0 := not_not.mpr hbbt
  have hbmtVersion : ¬ m₁.bmt.version ≠ 0 := not_not.mpr hbmt
  have htables := hscan m₁ () hscanned
  unfold TablesSound at htables
  rw [if_neg hbbtVersion, if_neg (not_not.mpr hwrite₁), hblocks, if_neg (by decide),
    if_neg hbmtVersion] at htables
  -- both tables are built
  obtain ⟨⟨m₂, d₂⟩, hrun₂, hfits₂, hbegin₂, hdirty₂, hversion₂, hd₂, hmaps₂⟩ :=
    Completes.exists_ok ((returnsIff_rReconstructBmt hfits).avoids htables.1)
  cases hd₂
  have hbads := htables.2
  rw [← show m₂.reserveAreaBegin = m₁.reserveAreaBegin from hbegin₂] at hbads hmaps₂
  obtain ⟨⟨ret, m₃, d₃⟩, hrun₃, -, hbegin₃, hdirty₃, hret⟩ :=
    Completes.exists_ok ((returnsIff_rReconstructBbt hfits₂ hmaps₂).avoids (.inr hbads))
  have hok : ret = .ok := hret (by rw [hversion₂]; decide)
  have hbuilt : wInitTables node blankChip m₁ () = .ok (.ok, m₃, d₃) := by
    unfold wInitTables
    rw [if_neg hbbtVersion, if_neg (not_not.mpr hwrite₁), hblocks, if_neg (by decide),
      if_neg hbmtVersion, hrun₂]
    change rReconstructBbt blankChip m₂ _ = _
    rw [hrun₃, hok]
  -- the entries that are cleared are more than there are
  have hsync := hhead m₃ d₃ (pubInitHead_eq hscanned hbuilt hblocks)
  have hplace : m₃.reserveAreaBegin = m₁.reserveAreaBegin := Eq.trans hbegin₃ hbegin₂
  have hcount : reserveBlockCount node m₃ = requiredGoodBlocks node.total := by
    unfold reserveBlockCount
    omega
  obtain hclean | hroom := hsync
  · have hone : m₃.bmtDirty = 0 + 1 := by
      rw [hdirty₃, hdirty₂, hdirty₁]
    rw [hone] at hclean
    exact absurd hclean (by decide)
  · omega

/-- A reserve area of 327 blocks does not fit in the table of mapped blocks. -/
theorem not_stays_inside_of_blank :
    ¬ ∃ r, run largeNode blankChip [] () = .ok r ∧ ∀ state ∈ r,
      state.1.bmt.size.toNat ≤ MAX_BMT_SIZE ∧ state.1.bbt.size.toNat ≤ MAX_BBT_SIZE := by
  rintro ⟨r, hrun, -⟩
  exact not_runSound_of_blank rfl rfl rfl rfl (by decide) (by decide) [] (runSound_of_ok hrun)

end OpenWrt.MtkBmt.En75.Checked
