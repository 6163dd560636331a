/-
# The ids that are kept

A lookup with the ids that others kept goes the same way as one on a fresh state, as long as the
end of a block is in a sector that would be used. So what it collects are the segments of the good
sectors, whatever was looked for before.
-/

import OpenWrt.Lib.Fault
import OpenWrt.Fritz.TffsLookup

namespace OpenWrt.Fritz.TffsNand

open Lib Lib.Memory
open Flash (Scan Segment Collected Search)

variable {f : Flash} {sectors : ℕ → UInt8} {id sector : ℕ} {ids fresh : ℕ → ℕ} {c : Collected}

/-! ## One sector -/

def Flash.idOf (f : Flash) (sector : ℕ) : ℕ := f.readUint32 (f.sector sector) 0

def Kept (f : Flash) (ids : ℕ → ℕ) : Prop := ∀ sector, ids sector = 0 ∨ ids sector = f.idOf sector

theorem Kept.readSector (h : Kept f ids) (sector : ℕ) : Kept f (f.readSector ids sector) := by
  intro other
  unfold Flash.readSector
  by_cases heq : other = sector
  · rw [heq, Function.update_self]
    exact .inr rfl
  · rw [Function.update_of_ne heq]
    exact h other

theorem inspect_of_end (hends : EndsAgree f sectors) (hgood : f.getGood sectors sector = .ok true)
    (hid : f.idOf sector = idEnd) : f.inspect id sector = .blockEnd := by
  have hconsistent : ¬ (f.readOobSectorHealth && !f.isConsistent sector) = true := by
    intro h
    obtain ⟨hoob, hnot⟩ := Bool.and_eq_true_iff.mp h
    rw [hends hoob sector hgood hid] at hnot
    cases hnot
  unfold Flash.inspect
  dsimp only
  rw [if_neg hconsistent]
  exact if_pos hid

theorem inspect_of_ne (hend : f.idOf sector ≠ idEnd) (hid : f.idOf sector ≠ id) :
    f.inspect id sector = .nothing := by
  unfold Flash.inspect
  dsimp only
  split
  · rfl
  · have hnot : ¬ f.readUint32 (f.sector sector) 0 = idEnd := hend
    rw [if_neg hnot]
    split
    · rfl
    · exact if_pos hid

/-- What comes of a sector that was looked at. -/
def Flash.after (f : Flash) (c : Collected) (ids : ℕ → ℕ) : Flash.Found → Except Stop Search
  | .nothing => .ok ⟨false, c, ids⟩
  | .blockEnd => .ok ⟨true, c, ids⟩
  | .segment segment => (f.collect c segment).map fun collected => ⟨false, collected, ids⟩

theorem visit_of_blockEnd : f.visit sectors id ⟨true, c, ids⟩ sector =
    .ok ⟨sector * sectorSize % f.blocksize != 0, c, ids⟩ := by
  unfold Flash.visit
  rw [if_pos rfl]
  by_cases hstart : sector * sectorSize % f.blocksize = 0
  · rw [if_pos hstart, hstart]
    rfl
  · rw [if_neg hstart, bne_iff_ne.mpr hstart]

theorem visit_of_bad (hgood : f.getGood sectors sector = .ok false) :
    f.visit sectors id ⟨false, c, ids⟩ sector = .ok ⟨false, c, ids⟩ := by
  unfold Flash.visit
  rw [if_neg Bool.false_ne_true, hgood]
  rfl

/-- A good sector is looked at, unless it need not be, or cannot be read. -/
theorem visit_of_good (hgood : f.getGood sectors sector = .ok true) :
    f.visit sectors id ⟨false, c, ids⟩ sector =
      if ids sector ≠ 0 ∧ ids sector = idEnd then .ok ⟨true, c, ids⟩
      else if ids sector ≠ 0 ∧ ids sector ≠ id then .ok ⟨false, c, ids⟩
      else if !(f.readsOob sector && f.canRead sector) then .error .exit
      else f.after c (f.readSector ids sector) (f.inspect id sector) := by
  unfold Flash.visit
  rw [if_neg Bool.false_ne_true, hgood]
  dsimp only [Except.bind]
  rw [if_neg (by decide)]
  cases f.inspect id sector <;> rfl

theorem visit_of_unknown (hgood : f.getGood sectors sector = .ok true) (hzero : ids sector = 0)
    (hreads : (f.readsOob sector && f.canRead sector) = true) :
    f.visit sectors id ⟨false, c, ids⟩ sector =
      f.after c (f.readSector ids sector) (f.inspect id sector) := by
  rw [visit_of_good hgood, if_neg (fun h => h.1 hzero), if_neg (fun h => h.1 hzero), hreads]
  rfl

theorem visit_spec (hends : EndsAgree f sectors) (hkept : Kept f ids)
    (hgood : f.getGood sectors sector = .ok true) :
    f.visit sectors id ⟨false, c, ids⟩ sector = .error .exit ∨ ∃ ids', Kept f ids' ∧
      f.visit sectors id ⟨false, c, ids⟩ sector = f.after c ids' (f.inspect id sector) := by
  rw [visit_of_good hgood]
  split
  case isTrue hend =>
    have hid : f.idOf sector = idEnd := (hkept sector).resolve_left hend.1 ▸ hend.2
    right
    rw [inspect_of_end hends hgood hid]
    exact ⟨ids, hkept, rfl⟩
  case isFalse hend =>
    split
    case isTrue hother =>
      have heq := (hkept sector).resolve_left hother.1
      have hne : f.idOf sector ≠ idEnd := fun h => hend ⟨hother.1, heq.trans h⟩
      right
      rw [inspect_of_ne hne (heq ▸ hother.2)]
      exact ⟨ids, hkept, rfl⟩
    case isFalse =>
      split
      · exact .inl rfl
      · exact .inr ⟨_, hkept.readSector sector, rfl⟩

theorem exists_getGood (hsector : sector < f.numSectors) :
    ∃ good, f.getGood sectors sector = .ok good := by
  have hsize := f.size_lt
  have hle : f.numSectors * sectorSize ≤ f.size := Nat.div_mul_le_self _ _
  have hbound : sector < 2 ^ 31 ∧ sector / 8 < f.bitmapSize := by
    unfold sectorSize at hle
    unfold Flash.bitmapSize
    omega
  exact ⟨_, if_pos hbound⟩

/-! ## All sectors -/

def Collects (f : Flash) (c : Collected) (segments : List Segment) : Except Stop Search → Prop
  | .ok s => segments.foldlM f.collect c = .ok s.collected
  | .error .fault => ∀ c', segments.foldlM f.collect c ≠ .ok c'
  | .error .exit => True

theorem Collects.cons {s : Segment} {segments : List Segment} {rest : List ℕ}
    (h : ∀ c', f.collect c s = .ok c' →
      Collects f c' segments (rest.foldlM (f.visit sectors id) ⟨false, c', ids⟩)) :
    Collects f c (s :: segments)
      (f.after c ids (.segment s) >>= fun next => rest.foldlM (f.visit sectors id) next) := by
  unfold Flash.after
  dsimp only
  cases hcollect : f.collect c s with
  | ok c' =>
    have hrest := h c' hcollect
    change Collects f c (s :: segments) (rest.foldlM (f.visit sectors id) ⟨false, c', ids⟩)
    unfold Collects at hrest ⊢
    rw [List.foldlM_cons, hcollect]
    exact hrest
  | error stop =>
    cases stop with
    | exit => trivial
    | fault =>
      intro c' hc'
      rw [List.foldlM_cons, hcollect] at hc'
      cases hc'

/-- The lookup collects the segments of the good sectors. -/
theorem collects_foldlM (hends : EndsAgree f sectors) {rest : List ℕ} {blockEnd : Bool}
    (hrest : ∀ sector ∈ rest, sector < f.numSectors) (hkept : Kept f ids) :
    Collects f c (f.segmentsOf sectors id blockEnd rest)
      (rest.foldlM (f.visit sectors id) ⟨blockEnd, c, ids⟩) := by
  induction rest generalizing blockEnd c ids with
  | nil => cases blockEnd <;> exact rfl
  | cons sector rest ih =>
    obtain ⟨hsector, htail⟩ := List.forall_mem_cons.mp hrest
    rw [List.foldlM_cons]
    cases blockEnd with
    | true =>
      rw [visit_of_blockEnd]
      exact ih htail hkept
    | false =>
      obtain ⟨good, hgood⟩ : ∃ good, f.getGood sectors sector = .ok good :=
        exists_getGood hsector
      unfold Flash.segmentsOf
      rw [hgood]
      cases good with
      | false =>
        rw [visit_of_bad hgood]
        exact ih htail hkept
      | true =>
        have hspec : f.visit sectors id ⟨false, c, ids⟩ sector = .error .exit ∨ _ :=
          visit_spec hends hkept hgood
        rcases hspec with hexit | ⟨ids', hkept', hvisit⟩
        · rw [hexit]
          trivial
        · rw [hvisit]
          cases f.inspect id sector with
          | nothing => exact ih htail hkept'
          | blockEnd => exact ih htail hkept'
          | segment s => exact Collects.cons fun c' _ => ih htail hkept'

theorem findEntry_right (hends : EndsAgree f sectors) (hagrees : Agrees f (f.segments sectors id))
    (hkept : Kept f ids) :
    f.findEntry sectors ids id ≠ .error .fault ∧
      ∀ result ids', f.findEntry sectors ids id = .ok (result, ids') →
        ResultRight (f.segments sectors id) result := by
  have hcollects : Collects f ⟨0, []⟩ (f.segments sectors id)
      ((List.range f.numSectors).foldlM (f.visit sectors id) ⟨false, ⟨0, []⟩, ids⟩) :=
    collects_foldlM hends (fun sector hsector => List.mem_range.mp hsector) hkept
  obtain ⟨last, hlast⟩ := (foldlM_collect_iff (f := f) (c := ⟨0, []⟩)).mpr hagrees.links
  unfold Flash.findEntry
  generalize (List.range f.numSectors).foldlM (f.visit sectors id) ⟨false, ⟨0, []⟩, ids⟩ = found
    at hcollects
  cases found with
  | error stop =>
    cases stop with
    | exit => exact ⟨fun h => (by cases h), fun _ _ h => (by cases h)⟩
    | fault => exact absurd hlast (hcollects last)
  | ok s =>
    refine ⟨fun h => (by cases h), fun result ids' h => ?_⟩
    cases h
    obtain ⟨hholds, hattained⟩ := holds_nil.foldlM (.inl ⟨rfl, rfl⟩) hcollects
    exact hholds.resultRight hattained hagrees.cleared hagrees.next

/-! ## Other ids -/

/-- Ids that are not those of the fresh state are of sectors that were read. -/
def Seen (f : Flash) (fresh ids : ℕ → ℕ) : Prop :=
  ∀ sector, ids sector = fresh sector ∨
    ids sector = f.idOf sector ∧ (f.readsOob sector && f.canRead sector) = true

theorem Seen.readSector (h : Seen f fresh ids)
    (hreads : (f.readsOob sector && f.canRead sector) = true) :
    Seen f fresh (f.readSector ids sector) := by
  intro other
  unfold Flash.readSector
  by_cases heq : other = sector
  · rw [heq, Function.update_self]
    exact .inr ⟨rfl, hreads⟩
  · rw [Function.update_of_ne heq]
    exact h other

theorem Seen.readSector_both (h : Seen f fresh ids) (sector : ℕ) :
    Seen f (f.readSector fresh sector) (f.readSector ids sector) := by
  intro other
  unfold Flash.readSector
  by_cases heq : other = sector
  · rw [heq, Function.update_self, Function.update_self]
    exact .inl rfl
  · rw [Function.update_of_ne heq, Function.update_of_ne heq]
    exact h other

theorem Seen.readSector_fresh (h : Seen f fresh ids) (hid : ids sector = f.idOf sector) :
    Seen f (f.readSector fresh sector) ids := by
  intro other
  unfold Flash.readSector
  by_cases heq : other = sector
  · rw [heq, Function.update_self]
    exact .inl hid
  · rw [Function.update_of_ne heq]
    exact h other

/-- Two searches that differ in the ids only. -/
structure Alike (f : Flash) (s s' : Search) : Prop where
  blockEnd : s.blockEnd = s'.blockEnd
  collected : s.collected = s'.collected
  seen : Seen f s'.ids s.ids
  kept : Kept f s'.ids

theorem alike_after {found : Flash.Found} (hseen : Seen f fresh ids)
    (hkept : Kept f fresh) : Twin (Alike f) (f.after c ids found) (f.after c fresh found) := by
  cases found with
  | nothing => exact ⟨rfl, rfl, hseen, hkept⟩
  | blockEnd => exact ⟨rfl, rfl, hseen, hkept⟩
  | segment s =>
    unfold Flash.after
    dsimp only
    cases f.collect c s with
    | ok c' => exact ⟨rfl, rfl, hseen, hkept⟩
    | error stop => exact rfl

/-- A sector that was seen is passed over as if it were looked at. -/
theorem alike_visit_good (hends : EndsAgree f sectors) (hgood : f.getGood sectors sector = .ok true)
    (hseen : Seen f fresh ids) (hkept : Kept f fresh) :
    Twin (Alike f) (f.visit sectors id ⟨false, c, ids⟩ sector)
      (f.visit sectors id ⟨false, c, fresh⟩ sector) := by
  rcases hseen sector with heq | ⟨hid, hreads⟩
  · -- both go the same way
    rw [visit_of_good hgood, visit_of_good hgood, heq]
    split
    · exact ⟨rfl, rfl, hseen, hkept⟩
    · split
      · exact ⟨rfl, rfl, hseen, hkept⟩
      · split
        · exact rfl
        · exact alike_after (hseen.readSector_both sector) (hkept.readSector sector)
  · by_cases hzero : fresh sector = 0
    · rw [visit_of_unknown hgood hzero hreads, visit_of_good hgood, hid]
      by_cases hend : f.idOf sector ≠ 0 ∧ f.idOf sector = idEnd
      · rw [if_pos hend, inspect_of_end hends hgood hend.2]
        exact ⟨rfl, rfl, hseen.readSector_fresh hid, hkept.readSector sector⟩
      · rw [if_neg hend]
        by_cases hother : f.idOf sector ≠ 0 ∧ f.idOf sector ≠ id
        · rw [if_pos hother, inspect_of_ne (fun h => hend ⟨hother.1, h⟩) hother.2]
          exact ⟨rfl, rfl, hseen.readSector_fresh hid, hkept.readSector sector⟩
        · rw [if_neg hother, hreads]
          exact alike_after (hseen.readSector_both sector) (hkept.readSector sector)
    · -- the fresh one knows the id too
      rw [visit_of_good hgood, visit_of_good hgood, hid, (hkept sector).resolve_left hzero]
      split
      · exact ⟨rfl, rfl, hseen, hkept⟩
      · split
        · exact ⟨rfl, rfl, hseen, hkept⟩
        · split
          · exact rfl
          · exact alike_after (hseen.readSector_both sector) (hkept.readSector sector)

theorem alike_visit (hends : EndsAgree f sectors) (hsector : sector < f.numSectors)
    {s s' : Search} (h : Alike f s s') :
    Twin (Alike f) (f.visit sectors id s sector) (f.visit sectors id s' sector) := by
  obtain ⟨blockEnd, collected, ids⟩ := s
  obtain ⟨blockEnd', collected', fresh⟩ := s'
  obtain ⟨hblockEnd, hcollected, hseen, hkept⟩ := h
  dsimp only at hblockEnd hcollected hseen hkept
  subst hblockEnd hcollected
  cases blockEnd with
  | true =>
    rw [visit_of_blockEnd, visit_of_blockEnd]
    exact ⟨rfl, rfl, hseen, hkept⟩
  | false =>
    obtain ⟨good, hgood⟩ : ∃ good, f.getGood sectors sector = .ok good :=
      exists_getGood hsector
    cases good with
    | true => exact alike_visit_good hends hgood hseen hkept
    | false =>
      rw [visit_of_bad hgood, visit_of_bad hgood]
      exact ⟨rfl, rfl, hseen, hkept⟩

/-- What others have looked for does not matter. -/
theorem findEntry_fst (hends : EndsAgree f sectors) (hseen : Seen f fresh ids)
    (hkept : Kept f fresh) :
    (f.findEntry sectors ids id).map Prod.fst = (f.findEntry sectors fresh id).map Prod.fst := by
  have htwin : Twin (Alike f)
      ((List.range f.numSectors).foldlM (f.visit sectors id) ⟨false, ⟨0, []⟩, ids⟩)
      ((List.range f.numSectors).foldlM (f.visit sectors id) ⟨false, ⟨0, []⟩, fresh⟩) :=
    twin_foldlM (fun s s' sector hsector h => alike_visit hends (List.mem_range.mp hsector) h)
      ⟨rfl, rfl, hseen, hkept⟩
  have hvalue : Twin (fun found found' => found.1 = found'.1) (f.findEntry sectors ids id)
      (f.findEntry sectors fresh id) :=
    htwin.map fun s s' h => congrArg Collected.value h.collected
  exact Twin.eq (hvalue.map fun _ _ h => h)

/-! ## Runs -/

theorem yields_after {found : Flash.Found} (h : Seen f fresh ids) :
    Yields (fun s => Seen f fresh s.ids) (f.after c ids found) := by
  cases found with
  | nothing => exact h
  | blockEnd => exact h
  | segment s =>
    unfold Flash.after
    dsimp only
    cases f.collect c s with
    | ok c' => exact h
    | error stop => exact fun h => h

/-- A lookup keeps the ids of sectors that it reads, and of no others. -/
theorem yields_visit {s : Search} (h : Seen f fresh s.ids) :
    Yields (fun s' => Seen f fresh s'.ids) (f.visit sectors id s sector) := by
  obtain ⟨blockEnd, collected, ids⟩ := s
  cases blockEnd with
  | true =>
    rw [visit_of_blockEnd]
    exact h
  | false =>
    cases hgood : f.getGood sectors sector with
    | error stop =>
      unfold Flash.visit
      rw [if_neg Bool.false_ne_true, hgood]
      exact fun h => h
    | ok good =>
      cases good with
      | false =>
        rw [visit_of_bad hgood]
        exact h
      | true =>
        rw [visit_of_good hgood]
        split
        · exact h
        · split
          · exact h
          · split
            case isTrue => exact fun h => h
            case isFalse hreads =>
              exact yields_after (h.readSector (by simpa using hreads))

theorem yields_findEntry (h : Seen f fresh ids) :
    Yields (fun found => Seen f fresh found.2) (f.findEntry sectors ids id) := by
  have hfold : Yields (fun s => Seen f fresh s.ids)
      ((List.range f.numSectors).foldlM (f.visit sectors id) ⟨false, ⟨0, []⟩, ids⟩) :=
    avoids_foldlM (fun s sector _ hs => yields_visit hs) h
  unfold Flash.findEntry
  cases hfound : (List.range f.numSectors).foldlM (f.visit sectors id) ⟨false, ⟨0, []⟩, ids⟩ with
  | ok s =>
    rw [hfound] at hfold
    exact hfold
  | error stop => exact fun h => h

theorem yields_checkBlock {s : Scan} (h : Kept f s.ids) :
    Yields (fun s' => Kept f s'.ids) (f.checkBlock s sector) := by
  unfold Flash.checkBlock
  have hread : Kept f (if (f.checkSector sector && f.canRead sector) = true then
      { s with ids := f.readSector s.ids sector } else s).ids := by
    split
    · exact h.readSector sector
    · exact h
  generalize (if (f.checkSector sector && f.canRead sector) = true then
    { s with ids := f.readSector s.ids sector } else s) = read at hread
  dsimp only
  split
  · exact yields_map fun _ => hread
  · exact hread

/-- Scanning keeps the ids of the sectors it reads. -/
theorem yields_scanSector {s : Scan} (h : Kept f s.ids) :
    Yields (fun s' => Kept f s'.ids) (f.scanSector s sector) := by
  unfold Flash.scanSector
  split
  · exact yields_bind (yields_checkBlock h) fun s' hs' => yields_map fun _ => hs'
  · split
    · exact yields_map fun _ => h
    · refine yields_bind (yields_self _) fun good _ => ?_
      split
      · exact yields_map fun _ => h
      · exact h

theorem kept_scanMtd {scan : Scan} (hscan : f.scanMtd = .ok scan) : Kept f scan.ids := by
  have hfold : Yields (fun s => Kept f s.ids) f.scanMtd :=
    avoids_foldlM (fun s sector _ hs => yields_scanSector hs) fun _ => .inl rfl
  exact hfold.of_ok hscan

/-- The ids that lookups one after the other keep. -/
theorem seen_idsAfter {scan : Scan} {history : List ℕ} (h : f.idsAfter scan history = .ok ids) :
    Seen f scan.ids ids := by
  have hfold : Yields (Seen f scan.ids) (f.idsAfter scan history) :=
    avoids_foldlM (fun ids id _ hids => by
      have hfind : Yields _ (f.findEntry scan.sectors ids id) := yields_findEntry hids
      cases hfound : f.findEntry scan.sectors ids id with
      | ok found =>
        rw [hfound] at hfind
        exact hfind
      | error stop => exact fun h => h) fun _ => .inl rfl
  exact hfold.of_ok h

/-- Whatever was looked for before, the entry of an id is that of the newest segments, where the
ends of the blocks would be used and these segments agree. -/
theorem lookupRight_of_agrees {scan : Scan} (hscan : f.scanMtd = .ok scan)
    (hends : EndsAgree f scan.sectors) (hagrees : Agrees f (f.segments scan.sectors id))
    (history : List ℕ) : LookupRight f scan history id := by
  have hkept := kept_scanMtd hscan
  obtain ⟨hinside, hright⟩ := findEntry_right hends hagrees hkept
  exact
    { transparent := fun ids hids => findEntry_fst hends (seen_idsAfter hids) hkept
      inside := hinside
      right := hright }

/-- The sector at the start of a block. -/
def headerSector : List UInt8 :=
  [0x41, 0x56, 0x4d, 0x5f, 0x54, 0x46, 0x46, 0x53, 0, 0, 0, 0, 0, 0, 0, 2] ++
    List.replicate 32 0

def entrySector : List UInt8 :=
  [0, 0, 0, 5, 0, 0, 0, 1, 0, 0, 0, 0, 0, 0, 0, 1, 0, 0, 0, 0, 0, 0, 0, 0, 0x2a]

/-- The OOB data of this sector. -/
def entryOob : List UInt8 := [0xff, 0xff, 0, 0, 0, 5, 0, 0, 0, 1, 0, 0, 0, 1]

/-- The name table, in which this entry is called `a`. -/
def namesSector : List UInt8 :=
  [0, 0, 1, 0xff, 0, 0, 0, 8, 0, 0, 0, 0, 0, 0, 0, 1, 0, 0, 0, 0, 0, 0, 0, 0, 0, 0, 0, 5, 0x61, 0, 0, 0]

/-- The OOB data of the name table. -/
def namesOob : List UInt8 := [0xff, 0xff, 0, 0, 1, 0xff, 0, 0, 0, 8, 0, 0, 0, 1]

/-- A block with the name table and one entry. The sector before the entry, whose OOB data is the
same, is given. -/
def oneEntry (first : List UInt8) : Flash where
  size := 4 * sectorSize
  blocksize := 4 * sectorSize
  sector
    | 0, off => headerSector.getD off 0xff
    | 1, off => namesSector.getD off 0xff
    | 2, off => first.getD off 0xff
    | 3, off => entrySector.getD off 0xff
    | _, _ => 0xff
  oob
    | 1, off => namesOob.getD off 0xff
    | 2, off => entryOob.getD off 0xff
    | 3, off => entryOob.getD off 0xff
    | _, _ => 0xff
  reads _ := true
  readsOob _ := true
  allocates _ := true
  isBig := true
  readOobSectorHealth := true
  blocksize_pos := fourSectors_pos
  size_lt := fourSectors_lt

theorem endsAgree_oneEntry (sectors : ℕ → UInt8) : EndsAgree (oneEntry entrySector) sectors := by
  intro _ sector _ hend
  have hid : (oneEntry entrySector).idOf 0 ≠ idEnd ∧ (oneEntry entrySector).idOf 1 ≠ idEnd ∧
      (oneEntry entrySector).idOf 2 ≠ idEnd ∧ (oneEntry entrySector).idOf 3 ≠ idEnd := by
    decide +kernel
  change (oneEntry entrySector).idOf sector = idEnd at hend
  match sector with
  | 0 => exact absurd hend hid.1
  | 1 => exact absurd hend hid.2.1
  | 2 => exact absurd hend hid.2.2.1
  | 3 => exact absurd hend hid.2.2.2
  | _ + 4 => simp [Flash.isConsistent, Flash.readUint32, oneEntry, slice]

theorem segments_oneEntry : ((oneEntry entrySector).scanMtd.toOption.map fun scan =>
  (oneEntry entrySector).segments scan.sectors 5) =
    some [⟨1, 0, 0, [0x2a]⟩, ⟨1, 0, 0, [0x2a]⟩] := by decide +kernel

theorem exists_of_toOption_map {ε α β : Type*} {x : Except ε α} {g : α → β} {b : β}
    (h : x.toOption.map g = some b) : ∃ a, x = .ok a ∧ g a = b := by
  cases x with
  | ok a => exact ⟨a, rfl, Option.some.inj h⟩
  | error e => cases h

/-- The entry is found after any other lookups where it is there twice. -/
theorem lookupRight_oneEntry : ∃ scan, (oneEntry entrySector).scanMtd = .ok scan ∧
    ∀ history, LookupRight (oneEntry entrySector) scan history 5 := by
  obtain ⟨scan, hscan, hsegments⟩ := exists_of_toOption_map segments_oneEntry
  refine ⟨scan, hscan, lookupRight_of_agrees hscan (endsAgree_oneEntry _) ?_⟩
  rw [hsegments]
  have hnewest : ∀ s, Newest [⟨1, 0, 0, [0x2a]⟩, ⟨1, 0, 0, [0x2a]⟩] s → s = ⟨1, 0, 0, [0x2a]⟩ := by
    rintro s ⟨hmem, -⟩
    simpa using hmem
  refine ⟨⟨fun _ => rfl, by decide, by decide, by decide, trivial⟩, fun s other hs _ hseg => ?_,
    fun s hs => ?_⟩
  · rw [hnewest s hs] at hseg
    exact absurd hseg (by decide)
  · rw [hnewest s hs]
    decide

theorem findEntry_erased : ((oneEntry []).scanMtd.toOption.map fun scan =>
  ((oneEntry []).idsAfter scan [idTableName]).toOption.map fun ids =>
    (((oneEntry []).findEntry scan.sectors ids 5).toOption.map Prod.fst,
      ((oneEntry []).findEntry scan.sectors scan.ids 5).toOption.map Prod.fst)) =
  some (some (some none, some (some [0x2a]))) := by decide +kernel

/-- An erased sector with other OOB data is not used, but its id is kept when the name table is
looked for, and the next lookup takes it for the end of the block. -/
theorem not_lookupRight_of_erased : ∃ scan, (oneEntry []).scanMtd = .ok scan ∧
    ¬ LookupRight (oneEntry []) scan [idTableName] 5 := by
  obtain ⟨scan, hscan, hrun⟩ := exists_of_toOption_map findEntry_erased
  obtain ⟨ids, hids, hfound⟩ := exists_of_toOption_map hrun
  refine ⟨scan, hscan, fun h => ?_⟩
  have hsame := congrArg Except.toOption (h.transparent ids hids)
  have hmap : ∀ x : Except Stop (Option (List UInt8) × (ℕ → ℕ)),
      (x.map Prod.fst).toOption = x.toOption.map Prod.fst := fun x => by cases x <;> rfl
  rw [hmap, hmap, (Prod.mk.inj hfound).1, (Prod.mk.inj hfound).2] at hsame
  cases hsame

end OpenWrt.Fritz.TffsNand
