/-
# Lookups one after the other

The id of a sector that was read is kept, also where the sector was not used because its OOB data
has other numbers. A sector of another id is passed over without it, so that nothing is lost by
that, but the end of the entries in a block is then taken from a sector that would not be used.

What a lookup collects depends on the segments of the good sectors only, in their physical order.
The result is the value of the newest revision where the segments agree about their number, and
none of them says at the same time that the entry is cleared.
-/

import OpenWrt.Fritz.TffsNand

namespace OpenWrt.Fritz.TffsNand

open Lib.Memory
open Flash (Scan Segment Collected Search)

/-! ## What should hold -/

def Flash.segmentsOf (f : Flash) (sectors : ℕ → UInt8) (id : ℕ) :
    (blockEnd : Bool) → List ℕ → List Segment
  | _, [] => []
  | true, sector :: rest =>
    f.segmentsOf sectors id (sector * sectorSize % f.blocksize != 0) rest
  | false, sector :: rest =>
    match f.getGood sectors sector with
    | .ok true =>
      match f.inspect id sector with
      | .nothing => f.segmentsOf sectors id false rest
      | .blockEnd => f.segmentsOf sectors id true rest
      | .segment segment => segment :: f.segmentsOf sectors id false rest
    | _ => f.segmentsOf sectors id false rest

def Flash.segments (f : Flash) (sectors : ℕ → UInt8) (id : ℕ) : List Segment :=
  f.segmentsOf sectors id false (List.range f.numSectors)

/-- A segment of the highest revision. -/
def Newest (segments : List Segment) (s : Segment) : Prop :=
  s ∈ segments ∧ ∀ other ∈ segments, other.rev ≤ s.rev

/-- The value is that of all segments of the highest revision, in their order, of which none is
missing and none is cleared. -/
def IsValue (segments : List Segment) (data : List UInt8) : Prop :=
  ∃ parts : List (List UInt8), parts ≠ [] ∧ data = parts.flatten ∧
    (∀ s, Newest segments s →
      s.seg ≠ segmentCleared ∧ s.seg < parts.length ∧ s.nextSeg < parts.length) ∧
    ∀ i < parts.length, ∃ s, Newest segments s ∧ s.seg = i ∧ parts[i]? = some s.val

/-- What is found is the value, and what is absent has none. -/
def ResultRight (segments : List Segment) : Option (List UInt8) → Prop
  | some data => IsValue segments data
  | none => ∀ data, ¬ IsValue segments data

/-- The kept ids after some lookups that returned. -/
def Flash.idsAfter (f : Flash) (scan : Scan) (history : List ℕ) : Except Stop (ℕ → ℕ) :=
  history.foldlM (fun ids id => (f.findEntry scan.sectors ids id).map Prod.snd) scan.ids

/-- A lookup after others returns what it returns on a fresh state, which is right. -/
structure LookupRight (f : Flash) (scan : Scan) (history : List ℕ) (id : ℕ) : Prop where
  transparent : ∀ ids, f.idsAfter scan history = .ok ids →
    (f.findEntry scan.sectors ids id).map Prod.fst =
      (f.findEntry scan.sectors scan.ids id).map Prod.fst
  inside : f.findEntry scan.sectors scan.ids id ≠ .error .fault
  right : ∀ result ids, f.findEntry scan.sectors scan.ids id = .ok (result, ids) →
    ResultRight (f.segments scan.sectors id) result

/-! ## The condition -/

/-- A good sector whose id is the end has consistent OOB data where that is looked at. -/
def EndsAgree (f : Flash) (sectors : ℕ → UInt8) : Prop :=
  f.readOobSectorHealth = true → ∀ sector, f.getGood sectors sector = .ok true →
    f.readUint32 (f.sector sector) 0 = idEnd → f.isConsistent sector = true

/-- Each segment that is not older than one before it has a place in the table, which can be
allocated. -/
def Links (f : Flash) : (rev count : ℕ) → List Segment → Prop
  | _, _, [] => True
  | rev, count, s :: rest =>
    if s.rev < rev then Links f rev count rest
    else
      let count := if rev < s.rev then 0 else count
      if s.seg = segmentCleared then Links f s.rev count rest
      else
        (count < s.newNumSegs → f.allocates s.newNumSegs = true) ∧
          s.seg < max count s.newNumSegs ∧ Links f s.rev (max count s.newNumSegs) rest

/-- The segments of the newest revision are either cleared or not, and their number does not
overflow. -/
structure Agrees (f : Flash) (segments : List Segment) : Prop where
  links : Links f 0 0 segments
  cleared : ∀ s other, Newest segments s → Newest segments other → s.seg = segmentCleared →
    other.seg = segmentCleared
  next : ∀ s, Newest segments s → s.nextSeg + 1 < 2 ^ 32

/-! ## Segments -/

section Collect

variable {f : Flash} {c c' : Collected} {segments : List Segment} {s : Segment}

/-- What is collected of some segments. -/
structure Holds (c : Collected) (segments : List Segment) : Prop where
  le_rev : ∀ s ∈ segments, s.rev ≤ c.rev
  length : c.segments = [] ∨ ∃ s ∈ segments, s.rev = c.rev ∧ s.seg ≠ segmentCleared ∧
    s.newNumSegs = c.segments.length
  le_length : ∀ s ∈ segments, s.rev = c.rev → s.seg ≠ segmentCleared →
    s.newNumSegs ≤ c.segments.length ∧ s.seg < c.segments.length
  stored : ∀ i data, c.segments[i]? = some (some data) →
    ∃ s ∈ segments, s.rev = c.rev ∧ s.seg = i ∧ s.val = data
  missing : ∀ i, c.segments[i]? = some none →
    ∀ s ∈ segments, s.rev = c.rev → s.seg ≠ segmentCleared → s.seg ≠ i

def Attained (c : Collected) (segments : List Segment) : Prop :=
  segments = [] ∧ c.rev = 0 ∨ ∃ s ∈ segments, s.rev = c.rev

theorem holds_nil : Holds ⟨0, []⟩ [] where
  le_rev := by simp
  length := .inl rfl
  le_length := by simp
  stored i data h := by cases h
  missing i h := by cases h

theorem grow_spec {table table' : List (Option (List UInt8))} {count : ℕ}
    (h : f.grow table count = .ok table') : ∃ n, table' = table ++ List.replicate n none ∧
      table'.length = max table.length count := by
  unfold Flash.grow at h
  split at h
  case isTrue hlt =>
    split at h
    case isTrue =>
      cases h
      refine ⟨_, rfl, ?_⟩
      rw [List.length_append, List.length_replicate]
      omega
    case isFalse => cases h
  case isFalse hge =>
    cases h
    exact ⟨0, (List.append_nil _).symm, by omega⟩

variable {table : List (Option (List UInt8))}

theorem getElem?_append_none {n i : ℕ} {data : List UInt8}
    (h : (table ++ List.replicate n none)[i]? = some (some data)) :
    table[i]? = some (some data) := by
  by_cases hlt : i < table.length
  · rwa [List.getElem?_append_left hlt] at h
  · rw [List.getElem?_append_right (Nat.le_of_not_lt hlt), List.getElem?_replicate] at h
    split at h <;> cases h

theorem Holds.reset (h : Holds c segments) {rev : ℕ} (hlt : c.rev < rev) :
    Holds ⟨rev, []⟩ segments := by
  have hnone : ∀ other ∈ segments, other.rev ≠ rev := fun other hother heq =>
    absurd (h.le_rev other hother) (by omega)
  exact
    { le_rev := fun other hother => Nat.le_of_lt (Nat.lt_of_le_of_lt (h.le_rev other hother) hlt)
      length := .inl rfl
      le_length := fun other hother hrev => absurd hrev (hnone other hother)
      stored := fun i data hi => by cases hi
      missing := fun i hi => by cases hi }

theorem Holds.store (h : Holds c segments) (heq : s.rev = c.rev) (hseg : s.seg ≠ segmentCleared)
    (hgrow : f.grow c.segments s.newNumSegs = .ok table) (hlt : s.seg < table.length) :
    Holds { c with segments := table.set s.seg (some s.val) } (segments ++ [s]) := by
  obtain ⟨n, htable, hlength⟩ := grow_spec hgrow
  have hmem : ∀ other, other ∈ segments ++ [s] ↔ other ∈ segments ∨ other = s := by simp
  refine ⟨fun other hother => ?_, .inr ?_, fun other hother hrev hne => ?_,
    fun i data hi => ?_, fun i hi other hother hrev hne => ?_⟩
  · rcases (hmem other).mp hother with hother | rfl
    · exact h.le_rev other hother
    · exact Nat.le_of_eq heq
  · rw [List.length_set, hlength]
    rcases Nat.le_total c.segments.length s.newNumSegs with hle | hle
    · exact ⟨s, by simp, heq, hseg, (Nat.max_eq_right hle).symm⟩
    · rcases h.length with hnil | ⟨other, hother, hrev, hne, hcount⟩
      · rw [hnil, List.length_nil] at hle
        refine ⟨s, by simp, heq, hseg, ?_⟩
        rw [hnil, List.length_nil]
        omega
      · exact ⟨other, (hmem other).mpr (.inl hother), hrev, hne, by omega⟩
  · rw [List.length_set]
    rcases (hmem other).mp hother with hother | rfl
    · have hle := h.le_length other hother hrev hne
      omega
    · omega
  · rw [List.getElem?_set] at hi
    split at hi
    case isTrue hsame =>
      cases hi
      exact ⟨s, by simp, heq, hsame, rfl⟩
    case isFalse =>
      rw [htable] at hi
      obtain ⟨other, hother, hrev, hvalue⟩ := h.stored i data (getElem?_append_none hi)
      exact ⟨other, (hmem other).mpr (.inl hother), hrev, hvalue⟩
  · rw [List.getElem?_set] at hi
    split at hi
    case isTrue hsame =>
      cases hi
    case isFalse hsame =>
      rcases (hmem other).mp hother with hother | rfl
      · have hin := (h.le_length other hother hrev hne).2
        intro heqi
        subst heqi
        have hold : c.segments[other.seg]? = some none := by
          rwa [htable, List.getElem?_append_left hin] at hi
        exact h.missing _ hold other hother hrev hne rfl
      · exact hsame

/-- Segments that are older, or cleared, change nothing. -/
theorem Holds.keep (h : Holds c segments) (hle : s.rev ≤ c.rev)
    (hout : s.rev = c.rev → s.seg = segmentCleared) : Holds c (segments ++ [s]) := by
  have hmem : ∀ other, other ∈ segments ++ [s] ↔ other ∈ segments ∨ other = s := by simp
  have hold : ∀ other ∈ segments ++ [s], other.rev = c.rev → other.seg ≠ segmentCleared →
      other ∈ segments := by
    intro other hother hrev hne
    rcases (hmem other).mp hother with hother | rfl
    · exact hother
    · exact absurd (hout hrev) hne
  refine ⟨fun other hother => ?_, ?_, fun other hother hrev hne => ?_, fun i data hi => ?_,
    fun i hi other hother hrev hne => ?_⟩
  · rcases (hmem other).mp hother with hother | rfl
    · exact h.le_rev other hother
    · exact hle
  · rcases h.length with hnil | ⟨other, hother, hrest⟩
    · exact .inl hnil
    · exact .inr ⟨other, (hmem other).mpr (.inl hother), hrest⟩
  · exact h.le_length other (hold other hother hrev hne) hrev hne
  · obtain ⟨other, hother, hrest⟩ := h.stored i data hi
    exact ⟨other, (hmem other).mpr (.inl hother), hrest⟩
  · exact h.missing i hi other (hold other hother hrev hne) hrev hne

theorem Attained.append (h : Attained c segments) (hle : s.rev ≤ c.rev) :
    Attained c (segments ++ [s]) := by
  rcases h with ⟨-, hzero⟩ | ⟨other, hother, hrev⟩
  · exact .inr ⟨s, by simp, by omega⟩
  · exact .inr ⟨other, List.mem_append_left _ hother, hrev⟩

theorem Holds.collect (h : Holds c segments) (hattained : Attained c segments)
    (hcollect : f.collect c s = .ok c') :
    Holds c' (segments ++ [s]) ∧ Attained c' (segments ++ [s]) := by
  unfold Flash.collect at hcollect
  split at hcollect
  case isTrue hold =>
    cases hcollect
    exact ⟨h.keep (Nat.le_of_lt hold) (fun heq => absurd heq (Nat.ne_of_lt hold)),
      hattained.append (Nat.le_of_lt hold)⟩
  case isFalse hnot =>
    -- the table to store into, which is empty for a newer revision
    obtain ⟨d, hd, hholds, hrev⟩ : ∃ d : Collected,
        (if c.rev < s.rev then { rev := s.rev, segments := [] } else c) = d ∧
          Holds d segments ∧ s.rev = d.rev := by
      by_cases hlt : c.rev < s.rev
      · exact ⟨_, if_pos hlt, h.reset hlt, rfl⟩
      · exact ⟨_, if_neg hlt, h, by omega⟩
    have hlast : ∀ e : Collected, e.rev = d.rev → Attained e (segments ++ [s]) :=
      fun e he => .inr ⟨s, by simp, hrev.trans he.symm⟩
    rw [hd] at hcollect
    split at hcollect
    case isTrue hcleared =>
      cases hcollect
      exact ⟨hholds.keep (Nat.le_of_eq hrev) fun _ => hcleared, hlast _ rfl⟩
    case isFalse hseg =>
      dsimp only at hcollect
      cases hgrow : f.grow d.segments s.newNumSegs with
      | error stop =>
        rw [hgrow] at hcollect
        cases hcollect
      | ok table =>
        rw [hgrow] at hcollect
        change (if s.seg < table.length then _ else _) = _ at hcollect
        split at hcollect
        case isTrue hlt =>
          cases hcollect
          exact ⟨hholds.store hrev hseg hgrow hlt, hlast _ rfl⟩
        case isFalse => cases hcollect

theorem Holds.foldlM {more : List Segment} (h : Holds c segments)
    (hattained : Attained c segments) (hfold : more.foldlM f.collect c = .ok c') :
    Holds c' (segments ++ more) ∧ Attained c' (segments ++ more) := by
  induction more generalizing c segments with
  | nil =>
    cases hfold
    rw [List.append_nil]
    exact ⟨h, hattained⟩
  | cons s more ih =>
    rw [List.foldlM_cons] at hfold
    cases hcollect : f.collect c s with
    | error stop =>
      rw [hcollect] at hfold
      cases hfold
    | ok d =>
      rw [hcollect] at hfold
      obtain ⟨hholds, hattained'⟩ := h.collect hattained hcollect
      have hrest := ih hholds hattained' hfold
      rw [List.append_assoc, List.singleton_append] at hrest
      exact hrest

theorem Holds.newest_iff (h : Holds c segments) (hattained : Attained c segments) :
    Newest segments s ↔ s ∈ segments ∧ s.rev = c.rev := by
  constructor
  · rintro ⟨hmem, hle⟩
    refine ⟨hmem, ?_⟩
    have hge := h.le_rev s hmem
    rcases hattained with ⟨hnil, -⟩ | ⟨other, hother, hrev⟩
    · rw [hnil] at hmem
      cases hmem
    · have hother := hle other hother
      omega
  · rintro ⟨hmem, hrev⟩
    exact ⟨hmem, fun other hother => hrev ▸ h.le_rev other hother⟩

theorem exists_map_some (h : ∀ part ∈ table, part.isSome = true) :
    ∃ parts : List (List UInt8), table = parts.map some := by
  induction table with
  | nil => exact ⟨[], rfl⟩
  | cons part table ih =>
    obtain ⟨hpart, hrest⟩ := List.forall_mem_cons.mp h
    obtain ⟨parts, hparts⟩ := ih hrest
    obtain ⟨data, hdata⟩ := Option.isSome_iff_exists.mp hpart
    exact ⟨data :: parts, by rw [hdata, hparts, List.map_cons]⟩

theorem Holds.resultRight (h : Holds c segments) (hattained : Attained c segments)
    (hcleared : ∀ s other, Newest segments s → Newest segments other → s.seg = segmentCleared →
      other.seg = segmentCleared)
    (hnext : ∀ s, Newest segments s → s.nextSeg + 1 < 2 ^ 32) :
    ResultRight segments c.value := by
  have hnewest : ∀ s, Newest segments s ↔ s ∈ segments ∧ s.rev = c.rev :=
    fun s => h.newest_iff hattained
  unfold Collected.value
  by_cases hnil : c.segments = []
  · rw [if_pos hnil]
    rintro data ⟨parts, hparts, -, hall, hmem⟩
    obtain ⟨s, hs, -⟩ := hmem 0 (List.length_pos_iff.mpr hparts)
    obtain ⟨hin, hrev⟩ := (hnewest s).mp hs
    have hlt := (h.le_length s hin hrev (hall s hs).1).2
    rw [hnil] at hlt
    exact absurd hlt (Nat.not_lt_zero _)
  · rw [if_neg hnil]
    obtain ⟨top, htop, htoprev, htopseg, htopcount⟩ := h.length.resolve_left hnil
    have htopnewest : Newest segments top := (hnewest top).mpr ⟨htop, htoprev⟩
    by_cases hfull : c.segments.all Option.isSome = true
    · rw [if_pos hfull]
      obtain ⟨parts, hparts⟩ := exists_map_some (List.all_eq_true.mp hfull)
      have hlength : c.segments.length = parts.length := by rw [hparts, List.length_map]
      have hvalues : c.segments.filterMap id = parts := by
        rw [hparts, List.filterMap_map]
        exact List.filterMap_some
      rw [hvalues]
      refine ⟨parts, fun h => hnil (by rw [hparts, h]; rfl), rfl, fun s hs => ?_, fun i hi => ?_⟩
      · obtain ⟨hin, hrev⟩ := (hnewest s).mp hs
        have hseg : s.seg ≠ segmentCleared := fun heq =>
          htopseg (hcleared s top hs htopnewest heq)
        obtain ⟨hcount, hlt⟩ := h.le_length s hin hrev hseg
        have hsmall := hnext s hs
        unfold Segment.newNumSegs at hcount
        refine ⟨hseg, by omega, ?_⟩
        split at hcount
        · omega
        · rw [Nat.mod_eq_of_lt hsmall] at hcount
          omega
      · have hpart : c.segments[i]? = some (some parts[i]) := by
          rw [hparts, List.getElem?_map, List.getElem?_eq_getElem hi]
          rfl
        obtain ⟨s, hin, hrev, hseg, hval⟩ := h.stored i _ hpart
        refine ⟨s, (hnewest s).mpr ⟨hin, hrev⟩, hseg, ?_⟩
        rw [hval, List.getElem?_eq_getElem hi]
    · rw [if_neg hfull]
      rintro data ⟨parts, hparts, -, hall, hmem⟩
      obtain ⟨i, hi, hnone⟩ : ∃ i, i < c.segments.length ∧ c.segments[i]? = some none := by
        obtain ⟨part, hpart, hnot⟩ := List.all_eq_false.mp (Bool.eq_false_iff.mpr hfull)
        obtain ⟨i, hi, heq⟩ := List.mem_iff_getElem.mp hpart
        rw [Option.not_isSome_iff_eq_none.mp hnot] at heq
        exact ⟨i, hi, by rw [List.getElem?_eq_getElem hi, heq]⟩
      have hle : c.segments.length ≤ parts.length := by
        obtain ⟨-, hseg, hnext⟩ := hall top htopnewest
        rw [← htopcount]
        unfold Segment.newNumSegs
        refine Nat.le_trans (Nat.mod_le _ _) ?_
        split <;> omega
      obtain ⟨s, hs, hseg, -⟩ := hmem i (by omega)
      obtain ⟨hin, hrev⟩ := (hnewest s).mp hs
      exact h.missing i hnone s hin hrev (hall s hs).1 hseg

theorem foldlM_collect_iff :
    (∃ c', segments.foldlM f.collect c = .ok c') ↔ Links f c.rev c.segments.length segments := by
  induction segments generalizing c with
  | nil => exact ⟨fun _ => trivial, fun _ => ⟨c, rfl⟩⟩
  | cons s rest ih =>
    rw [List.foldlM_cons, Links]
    by_cases hold : s.rev < c.rev
    · have hcollect : f.collect c s = .ok c := by rw [Flash.collect, if_pos hold]
      rw [hcollect, if_pos hold]
      exact ih
    · rw [if_neg hold]
      obtain ⟨d, hd, hrev, hlength⟩ : ∃ d : Collected,
          (if c.rev < s.rev then { rev := s.rev, segments := [] } else c) = d ∧
            d.rev = s.rev ∧
              (if c.rev < s.rev then 0 else c.segments.length) = d.segments.length := by
        by_cases hlt : c.rev < s.rev
        · exact ⟨_, if_pos hlt, rfl, if_pos hlt⟩
        · exact ⟨_, if_neg hlt, by omega, if_neg hlt⟩
      dsimp only
      rw [hlength]
      by_cases hcleared : s.seg = segmentCleared
      · have hcollect : f.collect c s = .ok d := by
          rw [Flash.collect, if_neg hold, hd]
          exact if_pos hcleared
        rw [hcollect, if_pos hcleared, ← hrev]
        exact ih
      · have hcollect : f.collect c s = (f.grow d.segments s.newNumSegs).bind fun segments =>
            if s.seg < segments.length then
              .ok { d with segments := segments.set s.seg (some s.val) }
            else .error .fault := by
          rw [Flash.collect, if_neg hold, hd]
          exact if_neg hcleared
        rw [if_neg hcleared, hcollect]
        by_cases hgrow : d.segments.length < s.newNumSegs → f.allocates s.newNumSegs = true
        · obtain ⟨table, htable⟩ : ∃ table, f.grow d.segments s.newNumSegs = .ok table := by
            unfold Flash.grow
            by_cases hlt : d.segments.length < s.newNumSegs
            · exact ⟨_, by rw [if_pos hlt, if_pos (hgrow hlt)]⟩
            · exact ⟨_, if_neg hlt⟩
          obtain ⟨n, -, htablelength⟩ := grow_spec htable
          rw [htable]
          change (∃ c', (if s.seg < table.length then
            .ok { d with segments := table.set s.seg (some s.val) } else .error .fault) >>=
              (fun c => rest.foldlM f.collect c) = .ok c') ↔ _
          by_cases hin : s.seg < table.length
          · rw [if_pos hin]
            have hrest := ih (c := { d with segments := table.set s.seg (some s.val) })
            rw [List.length_set, htablelength] at hrest
            change (∃ c', rest.foldlM f.collect _ = .ok c') ↔ _
            rw [hrest, hrev]
            exact ⟨fun h => ⟨hgrow, by omega, h⟩, fun h => h.2.2⟩
          · rw [if_neg hin]
            constructor
            · rintro ⟨c', hc'⟩
              cases hc'
            · rintro ⟨-, hlt, -⟩
              omega
        · constructor
          · rintro ⟨c', hc'⟩
            have hlt : d.segments.length < s.newNumSegs :=
              Decidable.byContradiction fun h => hgrow fun hlt => absurd hlt h
            have hnone : ¬ f.allocates s.newNumSegs = true := fun h => hgrow fun _ => h
            unfold Flash.grow at hc'
            rw [if_pos hlt, if_neg hnone] at hc'
            cases hc'
          · exact fun h => absurd h.1 hgrow

end Collect

end OpenWrt.Fritz.TffsNand
