/-
# Accesses of the NAND reader

The bitmap has a bit for each whole sector, the table of segments a place for each number up to the
last one that was announced, and a name ends in a zero. None of this is checked, so the numbers in
the flash have to be such that every access is inside.
-/

import Mathlib.Algebra.Order.BigOperators.Group.List
import Mathlib.Algebra.Order.Ring.Nat
import Mathlib.Data.List.TakeWhile
import OpenWrt.Lib.Loop
import OpenWrt.Fritz.TffsCache

namespace OpenWrt.Fritz.TffsNand

open Lib Lib.Memory Relation
open Flash (Scan Segment Collected Search)

/-! ## The condition -/

/-- The bit of a sector is in the bitmap. -/
def Flash.InBitmap (f : Flash) (num : ℕ) : Prop := num < 2 ^ 31 ∧ num / 8 < f.bitmapSize

def Flash.BadFit (f : Flash) (sector : ℕ) : Prop :=
  sector * sectorSize % f.blocksize = 0 → f.isBlockHeader sector = true →
    ∀ i < f.numHdrBad sector, f.InBitmap (f.hdrBad sector i)

/-- The segments that a lookup comes to with some ids, up to a sector that cannot be read. -/
def Flash.reached (f : Flash) (sectors : ℕ → UInt8) (ids : ℕ → ℕ) (id : ℕ) :
    (blockEnd : Bool) → List ℕ → List Segment
  | _, [] => []
  | true, sector :: rest =>
    f.reached sectors ids id (sector * sectorSize % f.blocksize != 0) rest
  | false, sector :: rest =>
    match f.getGood sectors sector with
    | .ok true =>
      if ids sector ≠ 0 ∧ ids sector = idEnd then f.reached sectors ids id true rest
      else if ids sector ≠ 0 ∧ ids sector ≠ id then f.reached sectors ids id false rest
      else if !(f.readsOob sector && f.canRead sector) then []
      else
        match f.inspect id sector with
        | .nothing => f.reached sectors ids id false rest
        | .blockEnd => f.reached sectors ids id true rest
        | .segment segment => segment :: f.reached sectors ids id false rest
    | _ => f.reached sectors ids id false rest

/-- At a position there are an id and a text that ends. -/
def NameFits (val : List UInt8) (pos : ℕ) : Prop :=
  ∃ i, pos + 4 ≤ i ∧ val[i]? = some 0

/-- The next name is at another position. -/
def NameFollows (val : List UInt8) (pos next : ℕ) : Prop :=
  next = pos + 4 + Flash.walkSize (((val.drop (pos + 4)).takeWhile (· ≠ 0)).length + 1) ∧
    next < val.length

/-- The numbers of a flash lead to no access outside. -/
structure Flash.Fits (f : Flash) : Prop where
  /-- A part of a sector at the end has a bit too. -/
  last : f.size % sectorSize = 0 ∨ f.numSectors % 8 ≠ 0
  bad : ∀ sector, sector * sectorSize < f.size → f.BadFit sector
  /-- Each segment has a place in the table, which can be allocated. -/
  segments : ∀ scan, f.scanMtd = .ok scan → ∀ history ids, f.idsAfter scan history = .ok ids →
    ∀ id, Links f 0 0 (f.reached scan.sectors ids id false (List.range f.numSectors))
  /-- The names end. -/
  names : ∀ scan, f.scanMtd = .ok scan → ∀ val ids,
    f.findEntry scan.sectors scan.ids idTableName = .ok (some val, ids) →
      ∀ pos, ReflTransGen (NameFollows val) 0 pos → NameFits val pos

/-- All accesses to a flash are inside, and the loops end. -/
structure Flash.Inside (f : Flash) : Prop where
  scan : ∃ scan, f.scanMtd = .ok scan
  find : ∀ scan, f.scanMtd = .ok scan → ∀ history ids, f.idsAfter scan history = .ok ids → ∀ id,
    f.findEntry scan.sectors ids id ≠ .error .fault ∧
      ∀ val ids', f.findEntry scan.sectors ids id = .ok (some val, ids') → val.length < 2 ^ 32
  names : ∀ scan, f.scanMtd = .ok scan → ∀ val ids,
    f.findEntry scan.sectors scan.ids idTableName = .ok (some val, ids) →
      ∃ n names, Loop.after (f.parseRound val) n (0, []) = .inr (.ok names)

variable {f : Flash} {sectors : ℕ → UInt8} {id sector : ℕ} {ids : ℕ → ℕ} {c : Collected}

/-! ## The scan -/

theorem returnsIff_markBad : ReturnsIff (f.InBitmap sector) (fun _ => True)
    (f.markBad sectors sector) := by
  unfold Flash.markBad
  split
  case isTrue h => exact ⟨h, trivial⟩
  case isFalse h => exact h

theorem returnsIff_getGood : ReturnsIff (f.InBitmap sector) (fun _ => f.InBitmap sector)
    (f.getGood sectors sector) := by
  unfold Flash.getGood
  split
  case isTrue h => exact ⟨h, h⟩
  case isFalse h => exact h

theorem returnsIff_checkBlock {s : Scan} :
    ReturnsIff (f.isBlockHeader sector = true → ∀ i < f.numHdrBad sector,
      f.InBitmap (f.hdrBad sector i)) (fun _ => True) (f.checkBlock s sector) := by
  unfold Flash.checkBlock
  generalize (if (f.checkSector sector && f.canRead sector) = true then
    { s with ids := f.readSector s.ids sector } else s) = read
  dsimp only
  by_cases hheader : f.isBlockHeader sector = true
  · rw [if_pos hheader]
    have hmarks : ReturnsIff (∀ i ∈ List.range (f.numHdrBad sector),
        f.InBitmap (f.hdrBad sector i)) (fun _ => True) ((List.range (f.numHdrBad sector)).foldlM
          (fun sectors i => f.markBad sectors (f.hdrBad sector i)) read.sectors) :=
      returnsIff_foldlM fun _ _ => returnsIff_markBad
    refine (hmarks.map (R := fun _ => True) fun _ _ => trivial).mono ⟨fun h _ i hi => ?_,
      fun h i hi => ?_⟩ fun _ h => h
    · exact h i (List.mem_range.mpr hi)
    · exact h hheader i (List.mem_range.mp hi)
  · rw [if_neg hheader]
    exact ⟨fun h => absurd h hheader, trivial⟩

/-- A sector is scanned where its bit is there, and those of the bad sectors at a block. -/
theorem returnsIff_scanSector {s : Scan} :
    ReturnsIff (f.BadFit sector ∧ f.InBitmap sector) (fun _ => True) (f.scanSector s sector) := by
  unfold Flash.scanSector Flash.BadFit
  by_cases hstart : sector * sectorSize % f.blocksize = 0
  · rw [if_pos hstart]
    refine (returnsIff_bind_and returnsIff_checkBlock fun s' _ =>
      returnsIff_markBad.map (R := fun _ => True) fun _ _ => trivial).mono ?_ fun _ h => h
    exact and_congr_left' ⟨fun h _ => h, fun h => h hstart⟩
  · rw [if_neg hstart]
    have hrest : ReturnsIff (f.InBitmap sector) (fun _ => True)
        (if (!s.blockOk) = true then
          (f.markBad s.sectors sector).map fun sectors => { s with sectors }
        else (f.getGood s.sectors sector).bind fun good =>
          if (!good || !f.checkSector sector) = true then
            (f.markBad s.sectors sector).map fun sectors => { s with sectors }
          else .ok s) := by
      split
      · exact returnsIff_markBad.map fun _ _ => trivial
      · refine returnsIff_bind_avoids returnsIff_getGood fun good hin => ?_
        split
        · exact (returnsIff_markBad.map fun _ _ => trivial).avoids hin
        · trivial
    exact hrest.mono ⟨fun h => ⟨fun h' => absurd h' hstart, h⟩, And.right⟩ fun _ h => h

/-- The bits of all sectors are there, also that of a part of one. -/
theorem forall_inBitmap_iff : (∀ sector, sector * sectorSize < f.size → f.InBitmap sector) ↔
    f.size % sectorSize = 0 ∨ f.numSectors % 8 ≠ 0 := by
  have hsize := f.size_lt
  unfold Flash.InBitmap Flash.bitmapSize Flash.numSectors sectorSize
  constructor
  · intro h
    by_cases hwhole : f.size % 0x800 = 0
    · exact .inl hwhole
    · have hpart := (h (f.size / 0x800) (by omega)).2
      omega
  · intro h sector hsector
    omega

/-- The scan returns exactly where the bits of all sectors that it marks are there. -/
theorem exists_scanMtd_iff : (∃ scan, f.scanMtd = .ok scan) ↔
    (f.size % sectorSize = 0 ∨ f.numSectors % 8 ≠ 0) ∧
      ∀ sector, sector * sectorSize < f.size → f.BadFit sector := by
  have hmem : ∀ sector, sector ∈ List.range ((f.size + (sectorSize - 1)) / sectorSize) ↔
      sector * sectorSize < f.size := by
    intro sector
    rw [List.mem_range]
    unfold sectorSize
    omega
  have hscan : ReturnsIff (∀ sector ∈ List.range ((f.size + (sectorSize - 1)) / sectorSize),
      f.BadFit sector ∧ f.InBitmap sector) (fun _ => True) f.scanMtd :=
    returnsIff_foldlM fun _ _ => returnsIff_scanSector
  rw [hscan.exists_ok_iff, ← forall_inBitmap_iff]
  refine ⟨fun h => ⟨fun sector hsector => ?_, fun sector hsector => ?_⟩, fun h sector hsector => ?_⟩
  · exact (h sector ((hmem sector).mpr hsector)).2
  · exact (h sector ((hmem sector).mpr hsector)).1
  · have hin := (hmem sector).mp hsector
    exact ⟨h.2 sector hin, h.1 sector hin⟩

/-! ## The lookup -/

variable {rest : List ℕ} {blockEnd : Bool} {val : List UInt8}

theorem reached_congr {ids' : ℕ → ℕ} (h : ∀ sector ∈ rest, ids sector = ids' sector) :
    f.reached sectors ids id blockEnd rest = f.reached sectors ids' id blockEnd rest := by
  induction rest generalizing blockEnd with
  | nil => cases blockEnd <;> rfl
  | cons sector rest ih =>
    obtain ⟨hsector, hrest⟩ := List.forall_mem_cons.mp h
    cases blockEnd with
    | true => exact ih hrest
    | false =>
      unfold Flash.reached
      rw [hsector, ih hrest, ih hrest]

theorem length_reached_le : (f.reached sectors ids id blockEnd rest).length ≤ rest.length := by
  induction rest generalizing blockEnd with
  | nil => cases blockEnd <;> exact Nat.le_refl 0
  | cons sector rest ih =>
    have hnext : ∀ blockEnd, (f.reached sectors ids id blockEnd rest).length ≤
        (sector :: rest).length := fun blockEnd => Nat.le_succ_of_le ih
    cases blockEnd with
    | true => exact hnext _
    | false =>
      unfold Flash.reached
      split
      · split
        · exact hnext true
        · split
          · exact hnext false
          · split
            · exact Nat.zero_le _
            · split
              · exact hnext false
              · exact hnext true
              · exact Nat.succ_le_succ ih
      · exact hnext false

theorem length_val_of_inspect {s : Segment} (h : f.inspect id sector = .segment s) :
    s.val.length ≤ maximumSegmentSize := by
  unfold Flash.inspect at h
  dsimp only at h
  split at h
  · cases h
  · split at h
    · cases h
    · split at h
      · cases h
      case isFalse hlen =>
        split at h
        · cases h
        · cases h
          rw [length_slice]
          exact Nat.le_of_not_lt hlen

/-- No segment is longer than a sector has place for. -/
theorem length_val_le :
    ∀ s ∈ f.reached sectors ids id blockEnd rest, s.val.length ≤ maximumSegmentSize := by
  induction rest generalizing blockEnd with
  | nil => cases blockEnd <;> exact fun s hs => by cases hs
  | cons sector rest ih =>
    cases blockEnd with
    | true => exact ih
    | false =>
      unfold Flash.reached
      split
      · split
        · exact ih
        · split
          · exact ih
          · split
            · exact fun s hs => by cases hs
            · split
              · exact ih
              · exact ih
              · rename_i s hinspect
                exact List.forall_mem_cons.mpr ⟨length_val_of_inspect hinspect, ih⟩
      · exact ih

/-- A lookup that returns has collected all the segments it came to, and at a fault one of these
has no place. -/
def Gathers (f : Flash) (c : Collected) (segments : List Segment) : Except Stop Search → Prop
  | .ok s => segments.foldlM f.collect c = .ok s.collected
  | .error .fault => ¬ ∃ c', segments.foldlM f.collect c = .ok c'
  | .error .exit => ∃ c', segments.foldlM f.collect c = .ok c'

theorem collect_ne_exit {s : Segment} : f.collect c s ≠ .error .exit := by
  have hgrow : ∀ table count, Avoids (· = .exit) (fun _ => True) (f.grow table count) := by
    intro table count
    unfold Flash.grow
    split
    · split
      · trivial
      · exact fun h => by cases h
    · trivial
  have hcollect : Avoids (· = .exit) (fun _ => True) (f.collect c s) := by
    unfold Flash.collect
    split
    · trivial
    · dsimp only
      split
      · trivial
      · refine avoids_bind (hgrow _ _) fun table _ => ?_
        split
        · trivial
        · exact fun h => by cases h
  intro h
  rw [h] at hcollect
  exact hcollect rfl

theorem Gathers.cons {s : Segment} {segments : List Segment} {rest : List ℕ}
    (h : ∀ c', Gathers f c' segments (rest.foldlM (f.visit sectors id) ⟨false, c', ids⟩)) :
    Gathers f c (s :: segments)
      (f.after c ids (.segment s) >>= fun next => rest.foldlM (f.visit sectors id) next) := by
  unfold Flash.after
  dsimp only
  cases hcollect : f.collect c s with
  | ok c' =>
    have hrest := h c'
    change Gathers f c (s :: segments) (rest.foldlM (f.visit sectors id) ⟨false, c', ids⟩)
    unfold Gathers at hrest ⊢
    rw [List.foldlM_cons, hcollect]
    exact hrest
  | error stop =>
    have hnot : ¬ ∃ c', (s :: segments).foldlM f.collect c = .ok c' := by
      rintro ⟨c', hc'⟩
      rw [List.foldlM_cons, hcollect] at hc'
      cases hc'
    cases stop with
    | fault => exact hnot
    | exit => exact absurd hcollect collect_ne_exit

/-- The segments that a lookup comes to are what it collects. -/
theorem gathers_foldlM (hnodup : rest.Nodup) (hrest : ∀ sector ∈ rest, sector < f.numSectors) :
    Gathers f c (f.reached sectors ids id blockEnd rest)
      (rest.foldlM (f.visit sectors id) ⟨blockEnd, c, ids⟩) := by
  induction rest generalizing blockEnd c ids with
  | nil => cases blockEnd <;> exact rfl
  | cons sector rest ih =>
    obtain ⟨hsector, htail⟩ := List.forall_mem_cons.mp hrest
    obtain ⟨hnot, hnodup'⟩ := List.nodup_cons.mp hnodup
    have hnext : ∀ blockEnd c, Gathers f c (f.reached sectors ids id blockEnd rest)
        (rest.foldlM (f.visit sectors id) ⟨blockEnd, c, ids⟩) := fun _ _ => ih hnodup' htail
    -- the other sectors are found as before
    have hread : ∀ blockEnd c, Gathers f c (f.reached sectors ids id blockEnd rest)
        (rest.foldlM (f.visit sectors id) ⟨blockEnd, c, f.readSector ids sector⟩) := by
      intro blockEnd c
      have hsame : ∀ other ∈ rest, ids other = f.readSector ids sector other := by
        intro other hother
        have hne : other ≠ sector := fun heq => hnot (heq ▸ hother)
        exact (Function.update_of_ne hne _ ids).symm
      rw [reached_congr hsame]
      exact ih hnodup' htail
    rw [List.foldlM_cons]
    cases blockEnd with
    | true =>
      rw [visit_of_blockEnd]
      exact hnext _ c
    | false =>
      obtain ⟨good, hgood⟩ : ∃ good, f.getGood sectors sector = .ok good :=
        exists_getGood hsector
      unfold Flash.reached
      rw [hgood]
      cases good with
      | false =>
        rw [visit_of_bad hgood]
        exact hnext false c
      | true =>
        rw [visit_of_good hgood]
        dsimp only
        split
        · exact hnext true c
        · split
          · exact hnext false c
          · split
            · exact ⟨c, rfl⟩
            · cases f.inspect id sector with
              | nothing => exact hread false c
              | blockEnd => exact hread true c
              | segment s => exact Gathers.cons fun c' => hread false c'

/-- A lookup faults exactly where a segment has no place. -/
theorem findEntry_ne_fault_iff : f.findEntry sectors ids id ≠ .error .fault ↔
    Links f 0 0 (f.reached sectors ids id false (List.range f.numSectors)) := by
  have hgathers : Gathers f ⟨0, []⟩ (f.reached sectors ids id false (List.range f.numSectors))
      ((List.range f.numSectors).foldlM (f.visit sectors id) ⟨false, ⟨0, []⟩, ids⟩) :=
    gathers_foldlM List.nodup_range fun _ h => List.mem_range.mp h
  have hlinks : (∃ c', (f.reached sectors ids id false (List.range f.numSectors)).foldlM f.collect
      ⟨0, []⟩ = .ok c') ↔ Links f 0 0 (f.reached sectors ids id false (List.range f.numSectors)) :=
    foldlM_collect_iff
  unfold Flash.findEntry
  generalize (List.range f.numSectors).foldlM (f.visit sectors id) ⟨false, ⟨0, []⟩, ids⟩ = found
    at hgathers
  cases found with
  | ok s => exact iff_of_true (fun h => by cases h) (hlinks.mp ⟨_, hgathers⟩)
  | error stop =>
    cases stop with
    | exit => exact iff_of_true (fun h => by cases h) (hlinks.mp hgathers)
    | fault => exact iff_of_false (fun h => h rfl) fun h => hgathers (hlinks.mpr h)

theorem Holds.length_value_le {segments : List Segment} (h : Holds c segments)
    (hlength : ∀ s ∈ segments, s.val.length ≤ maximumSegmentSize) (hvalue : c.value = some val) :
    val.length ≤ segments.length * maximumSegmentSize := by
  unfold Collected.value at hvalue
  split at hvalue
  · cases hvalue
  · split at hvalue
    case isFalse => cases hvalue
    case isTrue hfull =>
      obtain ⟨parts, hparts⟩ := exists_map_some (List.all_eq_true.mp hfull)
      have hvalues : c.segments.filterMap (fun part => part) = parts := by
        rw [hparts, List.filterMap_map]
        exact List.filterMap_some
      have hflat : (c.segments.filterMap fun part => part).flatten = val :=
        Option.some.inj hvalue
      rw [hvalues] at hflat
      have hpart : ∀ i (hi : i < parts.length), ∃ s ∈ segments, s.seg = i ∧ s.val = parts[i] := by
        intro i hi
        have hstored : c.segments[i]? = some (some parts[i]) := by
          rw [hparts, List.getElem?_map, List.getElem?_eq_getElem hi]
          rfl
        obtain ⟨s, hs, -, hseg, hval⟩ := h.stored i _ hstored
        exact ⟨s, hs, hseg, hval⟩
      have hcount : parts.length ≤ segments.length := by
        have hsub : Finset.range parts.length ⊆ (segments.map Segment.seg).toFinset := by
          intro i hi
          obtain ⟨s, hs, hseg, -⟩ := hpart i (Finset.mem_range.mp hi)
          exact List.mem_toFinset.mpr (List.mem_map.mpr ⟨s, hs, hseg⟩)
        calc parts.length = (Finset.range parts.length).card := (Finset.card_range _).symm
          _ ≤ (segments.map Segment.seg).toFinset.card := Finset.card_le_card hsub
          _ ≤ (segments.map Segment.seg).length := List.toFinset_card_le _
          _ = segments.length := List.length_map _
      have hsum : (parts.map List.length).sum ≤ parts.length * maximumSegmentSize := by
        have hle := List.sum_le_card_nsmul (parts.map List.length) maximumSegmentSize (by
          intro n hn
          obtain ⟨part, hmem, rfl⟩ := List.mem_map.mp hn
          obtain ⟨i, hi, rfl⟩ := List.mem_iff_getElem.mp hmem
          obtain ⟨s, hs, -, hval⟩ := hpart i hi
          exact hval ▸ hlength s hs)
        rwa [List.length_map] at hle
      rw [← hflat, List.length_flatten]
      exact hsum.trans (Nat.mul_le_mul_right _ hcount)

/-- What is found is no longer than the flash. -/
theorem length_value_lt {ids' : ℕ → ℕ} (h : f.findEntry sectors ids id = .ok (some val, ids')) :
    val.length < 2 ^ 32 := by
  have hgathers : Gathers f ⟨0, []⟩ (f.reached sectors ids id false (List.range f.numSectors))
      ((List.range f.numSectors).foldlM (f.visit sectors id) ⟨false, ⟨0, []⟩, ids⟩) :=
    gathers_foldlM List.nodup_range fun _ h => List.mem_range.mp h
  unfold Flash.findEntry at h
  generalize (List.range f.numSectors).foldlM (f.visit sectors id) ⟨false, ⟨0, []⟩, ids⟩ = found
    at h hgathers
  cases found with
  | error stop => cases h
  | ok s =>
    obtain ⟨hvalue, -⟩ := Prod.mk.inj (Except.ok.inj h)
    obtain ⟨hholds, -⟩ := holds_nil.foldlM (.inl ⟨rfl, rfl⟩) hgathers
    have hle := hholds.length_value_le length_val_le hvalue
    have hcount : (f.reached sectors ids id false (List.range f.numSectors)).length ≤ _ :=
      length_reached_le
    rw [List.length_range] at hcount
    rw [List.nil_append] at hle
    have hsize := f.size_lt
    have hsectors : f.numSectors * sectorSize ≤ f.size := Nat.div_mul_le_self _ _
    calc val.length ≤ _ := hle
      _ ≤ f.numSectors * maximumSegmentSize := Nat.mul_le_mul_right _ hcount
      _ ≤ f.numSectors * sectorSize := Nat.mul_le_mul_left _ (by decide)
      _ < 2 ^ 32 := by omega

/-! ## The names -/

/-- A text that ends has a name before that. -/
theorem nameFits_iff {pos : ℕ} : NameFits val pos ↔
    ¬ (val.length < pos + 4 ∨ ((val.drop (pos + 4)).takeWhile (· ≠ 0)).length =
      (val.drop (pos + 4)).length) := by
  have hmem : NameFits val pos ↔ 0 ∈ val.drop (pos + 4) := by
    rw [List.mem_iff_getElem?]
    constructor
    · rintro ⟨i, hle, hi⟩
      exact ⟨i - (pos + 4), by rw [List.getElem?_drop, Nat.add_sub_cancel' hle, hi]⟩
    · rintro ⟨i, hi⟩
      rw [List.getElem?_drop] at hi
      exact ⟨pos + 4 + i, Nat.le_add_right _ _, hi⟩
  rw [hmem]
  constructor
  · rintro hzero (hlt | hsame)
    · rw [List.drop_eq_nil_of_le (Nat.le_of_lt hlt)] at hzero
      cases hzero
    · have hself := (List.takeWhile_prefix _).eq_of_length hsame
      have hne := List.takeWhile_eq_self_iff.mp hself 0 hzero
      exact absurd rfl (of_decide_eq_true hne)
  · intro hend
    by_contra hzero
    refine hend (.inr (congrArg List.length (List.takeWhile_eq_self_iff.mpr fun x hx => ?_)))
    exact decide_eq_true fun heq => hzero (heq ▸ hx)

theorem follows_parseRound :
    Loop.Follows (f.parseRound val) Prod.fst (NameFollows val) (NameFits val) where
  fault s hnot := by
    have hfault := Decidable.not_not.mp (fun h => hnot (nameFits_iff.mpr h))
    exact ⟨.fault, if_pos hfault⟩
  round s hfits := by
    unfold Flash.parseRound
    rw [if_neg (nameFits_iff.mp hfits)]
    dsimp only
    split
    case isTrue hlt => exact .inr ⟨_, rfl, fun k => ⟨fun h => h.1, fun h => ⟨h, h ▸ hlt⟩⟩⟩
    case isFalse hge => exact .inl ⟨_, rfl, fun k h => hge (h.1 ▸ h.2)⟩

/-- All names are parsed exactly where each of them ends. -/
theorem parses_iff :
    (∃ n names, Loop.after (f.parseRound val) n (0, []) = .inr (.ok names)) ↔
      ∀ pos, ReflTransGen (NameFollows val) 0 pos → NameFits val pos := by
  have hup : ∀ pos next, TransGen (NameFollows val) pos next → pos < next := by
    intro pos next h
    have hlt : ∀ a b, NameFollows val a b → a < b := fun a b hab => by
      have heq := hab.1
      omega
    induction h with
    | single h => exact hlt _ _ h
    | tail _ h ih => exact ih.trans (hlt _ _ h)
  have hfollows : Loop.Follows (f.parseRound val) _ _ _ := follows_parseRound
  have hreturns := hfollows.returns_iff (x := (0, [])) (Finset.range (val.length + 1)) fun pos hpos => by
      rcases hpos.cases_tail with heq | ⟨_, _, hlast⟩
      · exact Finset.mem_range.mpr (by omega)
      · exact Finset.mem_range.mpr (Nat.lt_succ_of_lt hlast.2)
  rw [hreturns]
  exact ⟨fun h pos hpos => (h pos hpos).1, fun h pos hpos =>
    ⟨h pos hpos, fun hcycle => Nat.lt_irrefl pos (hup pos pos hcycle)⟩⟩

/-- All accesses are inside exactly where the numbers in the flash fit. -/
theorem inside_iff : f.Inside ↔ f.Fits := by
  constructor
  · intro h
    obtain ⟨hlast, hbad⟩ := exists_scanMtd_iff.mp h.scan
    exact
      { last := hlast
        bad := hbad
        segments := fun scan hscan history ids hids id =>
          findEntry_ne_fault_iff.mp (h.find scan hscan history ids hids id).1
        names := fun scan hscan val ids hval => parses_iff.mp (h.names scan hscan val ids hval) }
  · intro h
    exact
      { scan := exists_scanMtd_iff.mpr ⟨h.last, h.bad⟩
        find := fun scan hscan history ids hids id =>
          ⟨findEntry_ne_fault_iff.mpr (h.segments scan hscan history ids hids id),
            fun val ids' => length_value_lt⟩
        names := fun scan hscan val ids hval => parses_iff.mpr (h.names scan hscan val ids hval) }

end OpenWrt.Fritz.TffsNand
