/-
# The scan for the known partitions of RouterBOOT

`routerboot_find_dynparts` reads the first word of every block and compares it with the magic numbers
of the partitions that are not found yet. A read that fails is made again at the same place, without
an end to it. Reads are counted, and which of them fail is given.
-/

import OpenWrt.Lib.Loop
import Mathlib.Algebra.Order.Group.Nat

namespace OpenWrt.RouterBoot

open OpenWrt.Lib

/-! ## The scan -/

/-- A `routerboot_dynpart`; of `size_fixup` there is one or none. -/
structure DynPart where
  name : String
  magic : BitVec 32
  sizeFixup : Bool
  offset : ℕ
  size : ℕ
  found : Bool

/-- `rb_dynparts` before the first scan; the magic number of a device tree is stored with the highest
byte first. -/
def rbDynparts (bigEndian : Bool) : List DynPart :=
  [⟨"hard_config", 0x64726148, false, 0, 0x1000, false⟩,
    ⟨"soft_config", 0x74666f53, false, 0, 0x1000, false⟩,
    ⟨"dtb_config", if bigEndian then 0xd00dfeed else 0xedfe0dd0, true, 0, 0, false⟩]

/-- The master device: the bits of a `size_t`, the size, the words at the offsets and the size in the
header of a device tree there, and the reads that fail. -/
structure Master where
  sizeBits : ℕ
  size : ℕ
  word : ℕ → BitVec 32
  totalsize : ℕ → BitVec 32
  fails : ℕ → Bool
  le_sizeBits : 32 ≤ sizeBits
  sizeBits_le : sizeBits ≤ 64
  size_lt : size < 2 ^ 64

/-- `RB_BLOCK_SIZE`. -/
def rbBlockSize : ℕ := 0x1000

/-- `ALIGN_DOWN(size - RB_BLOCK_SIZE, RB_BLOCK_SIZE)` of a size that is larger than a block. -/
def skip (size : ℕ) : ℕ :=
  if rbBlockSize < size then (size - rbBlockSize) / rbBlockSize * rbBlockSize else 0

/-- The state of the loop; `reads` counts the calls of `mtd_read`. -/
structure Scan where
  offset : ℕ
  reads : ℕ
  parts : List DynPart

/-- What the inner loop leaves. -/
structure Matched where
  parts : List DynPart
  reads : ℕ
  allfound : Bool
  skipped : ℕ

namespace Master

variable (m : Master)

/-- The inner loop over the partitions that are left, after so many reads. -/
def matchParts (offset : ℕ) (buf : BitVec 32) : List DynPart → ℕ → Matched
  | [], reads => ⟨[], reads, true, 0⟩
  | part :: parts, reads =>
    if part.found then
      let rest := matchParts offset buf parts reads
      { rest with parts := part :: rest.parts }
    else if part.magic = buf then
      let part := { part with offset }
      if part.sizeFixup then
        let psize := (m.totalsize offset).toNat
        if m.fails reads ∨ psize = 0 then
          let rest := matchParts offset buf parts (reads + 1)
          { rest with parts := part :: rest.parts, allfound := false }
        else ⟨{ part with size := psize, found := true } :: parts, reads + 1, false, skip psize⟩
      else ⟨{ part with found := true } :: parts, reads, false, skip part.size⟩
    else
      let rest := matchParts offset buf parts reads
      { rest with parts := part :: rest.parts, allfound := false }

def turn (s : Scan) : Scan ⊕ List DynPart :=
  if m.size ≤ s.offset then .inr s.parts
  else if m.fails s.reads then .inl { s with reads := s.reads + 1 }
  else
    let matched := m.matchParts s.offset (m.word s.offset) s.parts (s.reads + 1)
    if matched.allfound then .inr matched.parts
    else .inl {
      offset := (s.offset + matched.skipped + rbBlockSize) % 2 ^ m.sizeBits
      reads := matched.reads
      parts := matched.parts }

/-- The state before the loop. -/
def start (table : List DynPart) : Scan := ⟨0, 0, table⟩

/-- `routerboot_find_dynparts` leaves this table. -/
def Finds (table found : List DynPart) : Prop :=
  ∃ turns, Loop.after m.turn turns (start table) = .inr found

def Reaches (table : List DynPart) (s : Scan) : Prop := Loop.Reaches m.turn (start table) s

/-- No read to which the scan comes fails for ever, and it comes to an end of the device that a
`size_t` can count, or finds everything. -/
structure Readable (table : List DynPart) : Prop where
  read : ∀ s, m.Reaches table s → s.offset < m.size → ∃ n, s.reads ≤ n ∧ m.fails n = false
  extent : m.size + rbBlockSize ≤ 2 ^ m.sizeBits ∨
    ∃ s, m.Reaches table s ∧ ∀ part ∈ s.parts, part.found = true

end Master

/-! ## The inner loop -/

def missing (parts : List DynPart) : ℕ := parts.countP fun part => !part.found

namespace Master

variable {m : Master} {offset : ℕ} {buf : BitVec 32}

theorem skip_mod (size : ℕ) : skip size % rbBlockSize = 0 := by
  unfold skip rbBlockSize
  split <;> omega

/-- The inner loop finds one partition, or none and skips nothing. -/
theorem matchParts_cases (parts : List DynPart) (reads : ℕ) :
    (m.matchParts offset buf parts reads).skipped % rbBlockSize = 0 ∧
      (missing (m.matchParts offset buf parts reads).parts < missing parts ∨
        missing (m.matchParts offset buf parts reads).parts = missing parts ∧
          (m.matchParts offset buf parts reads).skipped = 0) := by
  induction parts generalizing reads with
  | nil => exact ⟨rfl, .inr ⟨rfl, rfl⟩⟩
  | cons part parts ih =>
    have hcons : ∀ (p : DynPart) (l : List DynPart),
        missing (p :: l) = missing l + if p.found then 0 else 1 := by
      intro p l
      unfold missing
      rw [List.countP_cons]
      cases p.found <;> rfl
    rw [matchParts]
    by_cases hfound : part.found = true
    · rw [if_pos hfound]
      dsimp only
      rw [hcons, hcons]
      have hrest := ih reads
      omega
    · rw [if_neg hfound]
      by_cases hmagic : part.magic = buf
      · rw [if_pos hmagic]
        dsimp only
        by_cases hfixup : part.sizeFixup = true
        · rw [if_pos hfixup]
          by_cases herr : m.fails reads = true ∨ (m.totalsize offset).toNat = 0
          · rw [if_pos herr]
            dsimp only
            rw [hcons, hcons, if_neg hfound]
            have hrest := ih (reads + 1)
            omega
          · rw [if_neg herr]
            dsimp only
            rw [hcons, hcons, if_neg hfound, if_pos rfl]
            exact ⟨skip_mod _, .inl (Nat.lt_succ_self _)⟩
        · rw [if_neg hfixup]
          dsimp only
          rw [hcons, hcons, if_neg hfound, if_pos rfl]
          exact ⟨skip_mod _, .inl (Nat.lt_succ_self _)⟩
      · rw [if_neg hmagic]
        dsimp only
        rw [hcons, hcons]
        have hrest := ih reads
        omega

/-- The inner loop has nothing to look for exactly when all is found. -/
theorem allfound_iff (parts : List DynPart) (reads : ℕ) :
    (m.matchParts offset buf parts reads).allfound = true ↔ ∀ part ∈ parts, part.found = true := by
  induction parts generalizing reads with
  | nil => exact ⟨fun _ part hpart => absurd hpart List.not_mem_nil, fun _ => rfl⟩
  | cons part parts ih =>
    rw [matchParts, List.forall_mem_cons]
    by_cases hfound : part.found = true
    · rw [if_pos hfound]
      dsimp only
      rw [ih]
      exact ⟨fun h => ⟨hfound, h⟩, fun h => h.2⟩
    · have hfalse : ∀ {b : Bool}, b = false →
          (b = true ↔ part.found = true ∧ ∀ part ∈ parts, part.found = true) := by
        rintro b rfl
        exact ⟨fun h => absurd h Bool.false_ne_true, fun h => absurd h.1 hfound⟩
      rw [if_neg hfound]
      apply hfalse
      split
      · dsimp only
        split
        · split <;> rfl
        · rfl
      · rfl

/-! ## The turns -/

theorem turn_of_fails {s : Scan} (hlt : s.offset < m.size) (hfails : m.fails s.reads = true) :
    m.turn s = .inl { s with reads := s.reads + 1 } := by
  unfold turn
  rw [if_neg (by omega), if_pos hfails]

theorem turn_cases {s s' : Scan} (h : m.turn s = .inl s') :
    s.offset < m.size ∧
      (m.fails s.reads = true ∧ s' = { s with reads := s.reads + 1 } ∨
        m.fails s.reads = false ∧ ∃ skipped, skipped % rbBlockSize = 0 ∧
          s'.offset = (s.offset + skipped + rbBlockSize) % 2 ^ m.sizeBits ∧
            (missing s'.parts < missing s.parts ∨
              missing s'.parts = missing s.parts ∧ skipped = 0)) := by
  unfold turn at h
  by_cases hend : m.size ≤ s.offset
  · rw [if_pos hend] at h
    cases h
  · rw [if_neg hend] at h
    refine ⟨by omega, ?_⟩
    by_cases hfails : m.fails s.reads = true
    · rw [if_pos hfails] at h
      exact .inl ⟨hfails, (Sum.inl.inj h).symm⟩
    · rw [if_neg hfails] at h
      dsimp only at h
      split at h
      case isTrue => cases h
      case isFalse =>
        obtain rfl := Sum.inl.inj h
        obtain ⟨hmod, hmissing⟩ :=
          @matchParts_cases m s.offset (m.word s.offset) s.parts (s.reads + 1)
        exact .inr ⟨Bool.not_eq_true _ ▸ hfails, _, hmod, rfl, hmissing⟩

/-- The last turn is behind the device, or everything is found. -/
theorem turn_last {s : Scan} {found : List DynPart} (h : m.turn s = .inr found) :
    m.size ≤ s.offset ∨ ∀ part ∈ s.parts, part.found = true := by
  unfold turn at h
  by_cases hend : m.size ≤ s.offset
  · exact .inl hend
  · rw [if_neg hend] at h
    by_cases hfails : m.fails s.reads = true
    · rw [if_pos hfails] at h
      cases h
    · rw [if_neg hfails] at h
      dsimp only at h
      split at h
      case isTrue hall => exact .inr ((allfound_iff s.parts _).mp hall)
      case isFalse => cases h

/-- The offsets are multiples of the block size, below what a `size_t` can count. -/
def Aligned (m : Master) (s : Scan) : Prop :=
  s.offset % rbBlockSize = 0 ∧ s.offset < 2 ^ m.sizeBits

theorem aligned_of_reaches {table : List DynPart} {s : Scan} (h : m.Reaches table s) :
    m.Aligned s := by
  apply h.invariant (P := m.Aligned)
  · rintro s s' hs hturn
    obtain ⟨-, ⟨-, rfl⟩ | ⟨-, skipped, hskipped, hoffset, -⟩⟩ := turn_cases hturn
    · exact hs
    · have hdvd : rbBlockSize ∣ 2 ^ m.sizeBits :=
        Nat.pow_dvd_pow 2 (Nat.le_trans (by decide : 12 ≤ 32) m.le_sizeBits)
      unfold Aligned
      rw [hoffset, Nat.mod_mod_of_dvd _ hdvd, Nat.add_mod_right, Nat.add_mod, hs.1, hskipped]
      exact ⟨rfl, Nat.mod_lt _ (Nat.two_pow_pos _)⟩
  · exact ⟨rfl, Nat.two_pow_pos _⟩

theorem turn_of_found {s : Scan} (hlt : s.offset < m.size) (hfails : m.fails s.reads = false)
    (hall : ∀ part ∈ s.parts, part.found = true) : ∃ found, m.turn s = .inr found := by
  unfold turn
  rw [if_neg (by omega), hfails, if_neg Bool.false_ne_true]
  dsimp only
  rw [if_pos ((allfound_iff s.parts _).mpr hall)]
  exact ⟨_, rfl⟩

/-! ## The end of the scan -/

theorem Reaches.next {table : List DynPart} {s s' : Scan} (h : m.Reaches table s)
    (hturn : m.turn s = .inl s') : m.Reaches table s' :=
  Loop.Reaches.trans h (.next hturn (.refl s'))

/-- How many reads fail before the next one that does not. -/
noncomputable abbrev waiting (m : Master) (reads : ℕ) : ℕ :=
  Loop.wait (fun n => m.fails n = false) reads

theorem waiting_lt {reads : ℕ} (hfails : m.fails reads = true)
    (h : ∃ n, reads ≤ n ∧ m.fails n = false) : m.waiting (reads + 1) < m.waiting reads :=
  Loop.wait_succ_lt (by rw [hfails]; decide) h

/-- The scan ends when a `size_t` can count the device. -/
theorem ends_of_extent {table : List DynPart} (h : m.Readable table)
    (hextent : m.size + rbBlockSize ≤ 2 ^ m.sizeBits) : Loop.Ends m.turn (start table) := by
  have hwf : WellFounded (Prod.Lex (· < ·) (Prod.Lex (· < ·) (· < ·)) : ℕ × ℕ × ℕ → _ → Prop) :=
    (Prod.lex Nat.lt_wfRel (Prod.lex Nat.lt_wfRel Nat.lt_wfRel)).wf
  apply Loop.ends_of_wellFounded hwf (m.Reaches table)
    (fun s => (missing s.parts, m.size - s.offset, m.waiting s.reads)) (.refl _)
  intro s s' hs hturn
  refine ⟨hs.next hturn, ?_⟩
  obtain ⟨hlt, ⟨hfails, rfl⟩ | ⟨-, skipped, -, hoffset, hfewer | ⟨hsame, rfl⟩⟩⟩ := turn_cases hturn
  · exact .right _ (.right _ (waiting_lt hfails (h.read s hs hlt)))
  · exact .left _ _ hfewer
  · rw [Nat.add_zero, Nat.mod_eq_of_lt (by omega)] at hoffset
    rw [hsame]
    refine .right _ (.left _ _ ?_)
    have hpos : 0 < rbBlockSize := by decide
    omega

theorem ends_of_found {table : List DynPart} (h : m.Readable table) {s : Scan}
    (hs : m.Reaches table s) (hall : ∀ part ∈ s.parts, part.found = true) :
    Loop.Ends m.turn (start table) := by
  apply hs.ends_iff.mpr
  apply Loop.ends_of_measure
    (fun s => m.Reaches table s ∧ ∀ part ∈ s.parts, part.found = true)
    (fun s => m.waiting s.reads) ⟨hs, hall⟩
  rintro s s' ⟨hs, hall⟩ hturn
  obtain ⟨hlt, ⟨hfails, rfl⟩ | ⟨hfails, -⟩⟩ := turn_cases hturn
  · exact ⟨⟨hs.next hturn, hall⟩, waiting_lt hfails (h.read s hs hlt)⟩
  · obtain ⟨found, hfound⟩ := turn_of_found hlt hfails hall
    rw [hfound] at hturn
    cases hturn

/-- The scan ends exactly when it can be made. -/
theorem ends_iff (m : Master) (table : List DynPart) :
    Loop.Ends m.turn (start table) ↔ m.Readable table := by
  constructor
  · intro h
    refine ⟨fun s hs hlt => ?_, ?_⟩
    · by_contra hnever
      push Not at hnever
      have hfails : ∀ n, s.reads ≤ n → m.fails n = true := fun n hn =>
        Bool.not_eq_false _ ▸ hnever n hn
      refine Loop.not_ends_of_stays
        (fun s' => s'.offset < m.size ∧ ∀ n, s'.reads ≤ n → m.fails n = true) ⟨hlt, hfails⟩ ?_
        (hs.ends_iff.mp h)
      rintro s' ⟨hlt', hfails'⟩
      exact ⟨_, turn_of_fails hlt' (hfails' _ (Nat.le_refl _)), hlt', fun n hn =>
        hfails' n (Nat.le_of_succ_le hn)⟩
    · obtain ⟨turns, found, hturns⟩ := h
      obtain ⟨s, hs, hlast⟩ := Loop.exists_last hturns
      rcases turn_last hlast with hend | hall
      · obtain ⟨hmod, hlt⟩ := aligned_of_reaches hs
        have hdvd : 2 ^ m.sizeBits % rbBlockSize = 0 := Nat.mod_eq_zero_of_dvd
          (Nat.pow_dvd_pow 2 (Nat.le_trans (by decide : 12 ≤ 32) m.le_sizeBits))
        left
        unfold rbBlockSize at *
        omega
      · exact .inr ⟨s, hs, hall⟩
  · intro h
    rcases h.extent with hextent | ⟨s, hs, hall⟩
    · exact ends_of_extent h hextent
    · exact ends_of_found h hs hall

end Master

end OpenWrt.RouterBoot
