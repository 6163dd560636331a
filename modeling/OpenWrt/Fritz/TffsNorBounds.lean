/-
# Accesses of the NOR reader

Each entry leads to the next one by its length, and each name by its text. A header has to be in the
image, and so has the end of a text. As positions are counted in 32 bits, those of a long image may
come back, and then the loop does not end.
-/

import OpenWrt.Fritz.TffsNor
import OpenWrt.Fritz.TffsBounds

namespace OpenWrt.Fritz.TffsNor

open Lib Lib.Memory Relation TffsNand

namespace Image

variable (b : Image)

/-! ## The condition -/

/-- What is read of a header is in the image; the length is not read of the entry of the id. -/
def HeaderFits (id pos : ℕ) : Prop :=
  pos + 2 ≤ b.size ∧ (b.headerId pos ≠ id → pos + headerSize ≤ b.size)

/-- An entry of another id, that is not the end, leads to the next one. -/
def EntryFollows (id pos next : ℕ) : Prop :=
  b.headerId pos ≠ id ∧ b.headerId pos ≠ idEnd ∧ next = b.nextPos pos ∧ next < b.size

/-- Where the text of a name starts. -/
def textAt (namesEntry pos : ℕ) : ℕ := namesEntry + headerSize + (pos + 4) % 2 ^ 32

/-- The text of a name ends in the image. -/
def NameFits (namesEntry pos : ℕ) : Prop :=
  ∃ i, textAt namesEntry pos ≤ i ∧ i < b.size ∧ b.bytes i = 0

/-- A name leads to the next one in the table. -/
def NameFollows (namesEntry pos next : ℕ) : Prop :=
  ∃ length, b.strlen (textAt namesEntry pos) = some length ∧
    next = ((pos + 4) % 2 ^ 32 + walkSize ((length + 1) % 2 ^ 32)) % 2 ^ 32 ∧
      next < b.headerLen namesEntry

/-- The entries and the names lead to no access outside, and not back. -/
structure Fits : Prop where
  entries : ∀ id pos, ReflTransGen (b.EntryFollows id) 0 pos →
    b.HeaderFits id pos ∧ ¬ TransGen (b.EntryFollows id) pos pos
  names : ∀ namesEntry, ReflTransGen (b.EntryFollows idTableName) 0 namesEntry →
    b.headerId namesEntry = idTableName → ∀ pos, ReflTransGen (b.NameFollows namesEntry) 0 pos →
      b.NameFits namesEntry pos ∧ ¬ TransGen (b.NameFollows namesEntry) pos pos

/-- All accesses to an image are inside, and the loops end. -/
structure Inside : Prop where
  find : ∀ id, ∃ n found, Loop.after (b.findRound id) n 0 = .inr (.ok found)
  names : ∀ n namesEntry, Loop.after (b.findRound idTableName) n 0 = .inr (.ok (some namesEntry)) →
    ∃ m names, Loop.after (b.parseRound namesEntry) m (0, []) = .inr (.ok names)

variable {b} {id namesEntry : ℕ}

/-! ## Entries -/

theorem follows_findRound :
    Loop.Follows (b.findRound id) (fun pos => pos) (b.EntryFollows id) (b.HeaderFits id) where
  fault pos hnot := by
    unfold findRound
    by_cases hid : b.size < pos + 2
    · exact ⟨.fault, if_pos hid⟩
    · rw [if_neg hid]
      have hne : b.headerId pos ≠ id := fun heq => hnot ⟨by omega, fun h => absurd heq h⟩
      rw [if_neg hne]
      have hlen : b.size < pos + headerSize := by
        by_contra hlen
        exact hnot ⟨by omega, fun _ => by omega⟩
      exact ⟨.fault, if_pos hlen⟩
  round pos hfits := by
    unfold findRound
    rw [if_neg (Nat.not_lt.mpr hfits.1)]
    by_cases hid : b.headerId pos = id
    · rw [if_pos hid]
      exact .inl ⟨_, rfl, fun next h => h.1 hid⟩
    · rw [if_neg hid, if_neg (Nat.not_lt.mpr (hfits.2 hid))]
      by_cases hnext : b.nextPos pos < b.size ∧ b.headerId pos ≠ idEnd
      · rw [if_pos hnext]
        exact .inr ⟨_, rfl, fun next => ⟨fun h => h.2.2.1, fun h =>
          ⟨hid, hnext.2, h, h ▸ hnext.1⟩⟩⟩
      · rw [if_neg hnext]
        exact .inl ⟨_, rfl, fun next h => hnext ⟨h.2.2.1 ▸ h.2.2.2, h.2.1⟩⟩

theorem entry_mem_range {pos : ℕ} (h : ReflTransGen (b.EntryFollows id) 0 pos) :
    pos ∈ Finset.range (2 ^ 32) := by
  rw [Finset.mem_range]
  rcases h.cases_tail with heq | ⟨last, -, hlast⟩
  · omega
  · rw [hlast.2.2.1]
    exact Nat.mod_lt _ (by decide)

theorem finds_iff : (∃ n found, Loop.after (b.findRound id) n 0 = .inr (.ok found)) ↔
    ∀ pos, ReflTransGen (b.EntryFollows id) 0 pos →
      b.HeaderFits id pos ∧ ¬ TransGen (b.EntryFollows id) pos pos :=
  follows_findRound.returns_iff (Finset.range (2 ^ 32)) fun _ => entry_mem_range

theorem exists_found_iff {pos : ℕ} (hfits : ∀ pos, ReflTransGen (b.EntryFollows id) 0 pos →
    b.HeaderFits id pos) : (∃ n, Loop.after (b.findRound id) n 0 = .inr (.ok (some pos))) ↔
      ReflTransGen (b.EntryFollows id) 0 pos ∧ b.headerId pos = id := by
  constructor
  · rintro ⟨n, hn⟩
    obtain ⟨last, hreach, hlast⟩ := Loop.exists_last hn
    have hchain := follows_findRound.of_reaches hreach
    unfold findRound at hlast
    split at hlast
    · cases hlast
    · split at hlast
      case isTrue hid =>
        cases hlast
        exact ⟨hchain, hid⟩
      case isFalse =>
        split at hlast
        · cases hlast
        · split at hlast <;> cases hlast
  · rintro ⟨hchain, hid⟩
    obtain ⟨last, hreach, rfl⟩ := follows_findRound.reaches hfits hchain
    refine hreach.exists_after ?_
    unfold findRound
    rw [if_neg (Nat.not_lt.mpr (hfits _ hchain).1), if_pos hid]

/-! ## Names -/

theorem strlen_eq_none_iff {start : ℕ} :
    b.strlen start = none ↔ ¬ ∃ i, start ≤ i ∧ i < b.size ∧ b.bytes i = 0 := by
  unfold strlen
  rw [List.find?_eq_none]
  constructor
  · rintro h ⟨i, hle, hlt, hzero⟩
    refine h (i - start) (List.mem_range.mpr (by omega)) ?_
    rw [Nat.add_sub_cancel' hle, hzero]
    rfl
  · intro h i hi hzero
    have hlt := List.mem_range.mp hi
    exact h ⟨start + i, Nat.le_add_right _ _, by omega, eq_of_beq hzero⟩

theorem follows_parseRound : Loop.Follows (b.parseRound namesEntry) Prod.fst
    (b.NameFollows namesEntry) (b.NameFits namesEntry) where
  fault s hnot := by
    have hnone : b.strlen (namesEntry + headerSize + (s.1 + 4) % 2 ^ 32) = none :=
      strlen_eq_none_iff.mpr hnot
    unfold parseRound
    dsimp only
    rw [hnone]
    exact ⟨.fault, rfl⟩
  round s hfits := by
    obtain ⟨length, hlength⟩ : ∃ length,
        b.strlen (namesEntry + headerSize + (s.1 + 4) % 2 ^ 32) = some length :=
      Option.ne_none_iff_exists'.mp fun hnone => strlen_eq_none_iff.mp hnone hfits
    have hnext : ∀ next, b.NameFollows namesEntry s.1 next ↔
        next = ((s.1 + 4) % 2 ^ 32 + walkSize ((length + 1) % 2 ^ 32)) % 2 ^ 32 ∧
          next < b.headerLen namesEntry := by
      intro next
      constructor
      · rintro ⟨length', hlength', hrest⟩
        rw [textAt, hlength] at hlength'
        cases hlength'
        exact hrest
      · exact fun h => ⟨length, hlength, h⟩
    unfold parseRound
    dsimp only
    rw [hlength]
    dsimp only
    split
    case isTrue hlt =>
      exact .inr ⟨_, rfl, fun next => (hnext next).trans ⟨And.left, fun h => ⟨h, h ▸ hlt⟩⟩⟩
    case isFalse hge =>
      refine .inl ⟨_, rfl, fun next h => ?_⟩
      obtain ⟨heq, hlt⟩ := (hnext next).mp h
      exact hge (heq ▸ hlt)

theorem parses_iff : (∃ n names, Loop.after (b.parseRound namesEntry) n (0, []) =
    .inr (.ok names)) ↔ ∀ pos, ReflTransGen (b.NameFollows namesEntry) 0 pos →
      b.NameFits namesEntry pos ∧ ¬ TransGen (b.NameFollows namesEntry) pos pos :=
  follows_parseRound.returns_iff (Finset.range (2 ^ 32)) fun pos hpos => by
    rw [Finset.mem_range]
    rcases hpos.cases_tail with heq | ⟨last, -, length, -, heq, -⟩
    · change pos = 0 at heq
      omega
    · rw [heq]
      exact Nat.mod_lt _ (by decide)

/-- All accesses to an image are inside exactly where its entries and names fit. -/
theorem inside_iff : b.Inside ↔ b.Fits := by
  constructor
  · intro h
    have hentries := fun id => finds_iff.mp (h.find id)
    refine ⟨hentries, fun namesEntry hchain hid => ?_⟩
    obtain ⟨n, hn⟩ := (exists_found_iff fun pos hpos => (hentries _ pos hpos).1).mpr ⟨hchain, hid⟩
    exact parses_iff.mp (h.names n namesEntry hn)
  · intro h
    refine ⟨fun id => finds_iff.mpr (h.entries id), fun n namesEntry hn => ?_⟩
    obtain ⟨hchain, hid⟩ :=
      (exists_found_iff fun pos hpos => (h.entries _ pos hpos).1).mp ⟨n, hn⟩
    exact parses_iff.mpr (h.names namesEntry hchain hid)

/-- Of both readers all accesses are inside, and the loops end, exactly where what they read
fits. -/
theorem readers_inside_iff (f : Flash) (b : Image) :
    (f.Inside ↔ f.Fits) ∧ (b.Inside ↔ b.Fits) :=
  ⟨TffsNand.inside_iff, inside_iff⟩

end Image

/-- A block header that names a bad sector. -/
def wildSector : List UInt8 :=
  [0x41, 0x56, 0x4d, 0x5f, 0x54, 0x46, 0x46, 0x53, 0, 0, 0, 0, 0, 0, 0, 2] ++ List.replicate 12 0 ++
    [0, 0, 0, 0, 0, 1, 0, 0]

/-- A block whose header names a bad sector far behind the flash. -/
def wildHeader : Flash where
  size := 4 * sectorSize
  blocksize := 4 * sectorSize
  sector
    | 0, off => wildSector.getD off 0
    | _, _ => 0xff
  oob _ _ := 0xff
  reads _ := true
  readsOob _ := true
  allocates _ := true
  isBig := true
  readOobSectorHealth := false
  blocksize_pos := fourSectors_pos
  size_lt := fourSectors_lt

theorem scanMtd_wildHeader : wildHeader.scanMtd.toOption.isSome = false := by decide +kernel

/-- An image of a name table with one name, which does not end. -/
def openName : Image where
  bytes off := [0x01, 0xff, 0, 8, 0, 0, 0, 5, 0x61, 0x61, 0x61, 0x61].getD off 1
  size := 12
  isBig := true

/-- The bad sector is marked behind the bitmap, and the name is read behind the image. -/
theorem not_inside_of_wild : ¬ wildHeader.Inside ∧ ¬ openName.Inside := by
  constructor
  · intro h
    obtain ⟨scan, hscan⟩ := h.scan
    have hnone := scanMtd_wildHeader
    rw [hscan] at hnone
    cases hnone
  · intro h
    obtain ⟨m, names, hm⟩ := h.names 1 0 (by decide +kernel)
    cases m with
    | zero => cases hm
    | succ m =>
      have hfault : openName.parseRound 0 (0, []) = .inr (.error .fault) := by decide +kernel
      rw [Loop.after_succ_of_inr m hfault] at hm
      cases hm

end OpenWrt.Fritz.TffsNor
