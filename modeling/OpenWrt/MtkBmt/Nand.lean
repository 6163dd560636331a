/-
# The flash below the block management

The management layers reach the flash through the operations of the MTD driver
they replace. The driver is a parameter here: its state, what its operations
return and what they leave in that state are arbitrary, so that every pattern of
failures is one instance of it. A block is seen in two ways, by the pages a copy
moves and by the table and spare bytes that may be stored in its first pages.

What the driver promises is stated apart from it, as laws a result may assume.
-/

import Mathlib.Algebra.Order.Group.Nat

namespace OpenWrt.MtkBmt

/-- `-EIO` -/
def eIo : ℤ := -5

/-- `-EBADMSG`, an error the correction could not repair. -/
def eBadMsg : ℤ := -74

/-- `-EUCLEAN`, an error it could. -/
def eUclean : ℤ := -117

/-- What reading the first pages of a block returns: the table in its data area
and the bytes of its spare area. -/
structure Readout (Table : Type) where
  data : Table
  fdm : List UInt8

/-- The operations of the driver. A read that fails returns nothing, an erase or
write tells whether it succeeded. -/
structure Nand (σ Table Page : Type) where
  /-- Read the first pages of a block, and its spare bytes. -/
  read : σ → (block pages : ℕ) → Option (Readout Table)
  /-- Read a page of a block. -/
  readPage : σ → (block page : ℕ) → Option Page
  /-- Erase a block. -/
  erase : σ → (block : ℕ) → Bool × σ
  /-- Write a table to the first pages of a block, with its signature in the
  spare area. -/
  writeTable : σ → (block : ℕ) → (sig : List UInt8) → Table → Bool × σ
  /-- Write a page of a block. -/
  writePage : σ → (block page : ℕ) → Page → Bool × σ

namespace Nand

variable {σ Table Page : Type} (nand : Nand σ Table Page)

/-- Copy the pages of a block from `page` on, at most `pages` of them, until an
operation fails or the offset reaches `maxOffset`. -/
def copyFrom (pgSize dest src maxOffset : ℕ) : (pages page : ℕ) → σ → Bool × σ
  | 0, _, s => (true, s)
  | pages + 1, page, s =>
    if maxOffset ≤ page * pgSize then (true, s)
    else
      match nand.readPage s src page with
      | none => (false, s)
      | some data =>
        match nand.writePage s dest page data with
        | (false, s) => (false, s)
        | (true, s) => copyFrom pgSize dest src maxOffset pages (page + 1) s

def bbtNandCopy (pgSize blkPages dest src maxOffset : ℕ) (s : σ) : Bool × σ :=
  nand.copyFrom pgSize dest src maxOffset blkPages 0 s

/-- A block reads the same in two states. -/
def SameBlock (s t : σ) (block : ℕ) : Prop :=
  (∀ pages, nand.read t block pages = nand.read s block pages) ∧
    ∀ page, nand.readPage t block page = nand.readPage s block page

/-- Erasing or writing a block, whether it succeeds or not, leaves what is read
from the other blocks. -/
structure Local : Prop where
  erase {s : σ} {block other : ℕ} (h : other ≠ block) :
    nand.SameBlock s (nand.erase s block).2 other
  writeTable {s : σ} {block other : ℕ} {sig : List UInt8} {table : Table}
    (h : other ≠ block) : nand.SameBlock s (nand.writeTable s block sig table).2 other
  writePage {s : σ} {block other page : ℕ} {data : Page} (h : other ≠ block) :
    nand.SameBlock s (nand.writePage s block page data).2 other

variable {nand}

theorem SameBlock.refl (s : σ) (block : ℕ) : nand.SameBlock s s block :=
  ⟨fun _ => rfl, fun _ => rfl⟩

theorem SameBlock.trans {s t u : σ} {block : ℕ} (hst : nand.SameBlock s t block)
    (htu : nand.SameBlock t u block) : nand.SameBlock s u block :=
  ⟨fun pages => (htu.1 pages).trans (hst.1 pages),
    fun page => (htu.2 page).trans (hst.2 page)⟩

theorem copyFrom_keeps {P : σ → Prop} {pgSize dest src maxOffset : ℕ}
    (hwrite : ∀ s page data, P s → P (nand.writePage s dest page data).2)
    (pages page : ℕ) {s : σ} (hs : P s) :
    P (nand.copyFrom pgSize dest src maxOffset pages page s).2 := by
  induction pages generalizing page s with
  | zero => exact hs
  | succ pages ih =>
    unfold copyFrom
    split
    case isTrue => exact hs
    case isFalse =>
      split
      case h_1 => exact hs
      case h_2 data hread =>
        have hnext := hwrite s page data hs
        split
        case h_1 t ht =>
          rw [ht] at hnext
          exact hnext
        case h_2 t ht =>
          rw [ht] at hnext
          exact ih (page + 1) hnext

theorem Local.copyFrom (hlocal : nand.Local) {pgSize dest src maxOffset other : ℕ}
    (hne : other ≠ dest) (pages page : ℕ) (s : σ) :
    nand.SameBlock s (nand.copyFrom pgSize dest src maxOffset pages page s).2 other := by
  refine copyFrom_keeps (P := fun t => nand.SameBlock s t other) (fun t p data ht => ?_) pages page
    (.refl s other)
  exact ht.trans (hlocal.writePage hne)

theorem Local.bbtNandCopy (hlocal : nand.Local) {pgSize blkPages dest src maxOffset other : ℕ}
    (hne : other ≠ dest) (s : σ) :
    nand.SameBlock s (nand.bbtNandCopy pgSize blkPages dest src maxOffset s).2 other :=
  hlocal.copyFrom hne blkPages 0 s

end Nand

/-! ## The blocks that are remapped -/

/-- The size of the flash and the `mediatek,bmt-remap-range` property. -/
structure RemapRange where
  totalBlks : ℕ
  blkShift : ℕ
  ranges : List (ℕ × ℕ)
  /-- Addresses fit the 32 bits they are kept in. -/
  size_le : totalBlks * 2 ^ blkShift ≤ 0x80000000
  /-- A block has more bytes than the flash has blocks. -/
  total_lt : totalBlks < 2 ^ blkShift
  /-- Ranges are given in whole blocks of the flash, none twice. -/
  aligned : ∀ r ∈ ranges, 2 ^ blkShift ∣ r.1 ∧ 2 ^ blkShift ∣ r.2
  range_le : ∀ r ∈ ranges, r.2 ≤ totalBlks * 2 ^ blkShift
  apart : ∀ r ∈ ranges, ∀ q ∈ ranges, r = q ∨ r.2 ≤ q.1 ∨ q.2 ≤ r.1

namespace RemapRange

variable (c : RemapRange)

/-- The range of addresses a block is remapped in. Without the property these are
the numbers of the first and the last block, not addresses. -/
def mappingBlockInRange (block : ℕ) : Option (ℕ × ℕ) :=
  if c.ranges = [] then some (0, c.totalBlks)
  else
    let addr := block * 2 ^ c.blkShift % 0x100000000
    c.ranges.find? fun r => decide (r.1 ≤ addr) && decide (addr < r.2)

/-- The same in block numbers, as the backends shift both ends. -/
def blockRange (block : ℕ) : Option (ℕ × ℕ) :=
  (c.mappingBlockInRange block).map fun r => (r.1 / 2 ^ c.blkShift, r.2 / 2 ^ c.blkShift)

variable {c}

theorem blockRange_of_nil (h : c.ranges = []) (block : ℕ) : c.blockRange block = some (0, 0) := by
  unfold blockRange mappingBlockInRange
  rw [if_pos h, Option.map_some, Nat.zero_div, Nat.div_eq_of_lt c.total_lt]

theorem addr_lt {block : ℕ} (hblock : block < c.totalBlks) :
    block * 2 ^ c.blkShift % 0x100000000 = block * 2 ^ c.blkShift := by
  refine Nat.mod_eq_of_lt (Nat.lt_of_lt_of_le (Nat.mul_lt_mul_of_pos_right hblock ?_) ?_)
  · exact Nat.two_pow_pos _
  · exact c.size_le.trans (by decide)

/-- A block with a range lies in it, and the range is one of the property's. -/
theorem mem_of_blockRange {block lo hi : ℕ} (hne : c.ranges ≠ []) (hblock : block < c.totalBlks)
    (h : c.blockRange block = some (lo, hi)) :
    (lo * 2 ^ c.blkShift, hi * 2 ^ c.blkShift) ∈ c.ranges ∧ lo ≤ block ∧ block < hi := by
  unfold blockRange mappingBlockInRange at h
  rw [if_neg hne, addr_lt hblock] at h
  obtain ⟨r, hfind, hr⟩ := Option.map_eq_some_iff.mp h
  cases hr
  have hmem := List.mem_of_find?_eq_some hfind
  obtain ⟨hlow, hhigh⟩ := c.aligned r hmem
  have hin := List.find?_some hfind
  simp only [Bool.and_eq_true, decide_eq_true_eq] at hin
  rw [Nat.div_mul_cancel hlow, Nat.div_mul_cancel hhigh]
  refine ⟨hmem, ?_, ?_⟩
  · exact Nat.div_le_of_le_mul (by rw [Nat.mul_comm]; exact hin.1)
  · exact (Nat.lt_div_iff_mul_lt' hhigh _).mpr (by rw [Nat.mul_comm]; exact hin.2)

theorem blockRange_of_mem {block lo hi : ℕ} (hblock : block < c.totalBlks)
    (hmem : (lo * 2 ^ c.blkShift, hi * 2 ^ c.blkShift) ∈ c.ranges) (hlo : lo ≤ block)
    (hhi : block < hi) : c.blockRange block = some (lo, hi) := by
  have hpos : 0 < 2 ^ c.blkShift := Nat.two_pow_pos _
  have hlow : lo * 2 ^ c.blkShift ≤ block * 2 ^ c.blkShift := Nat.mul_le_mul_right _ hlo
  have hhigh : block * 2 ^ c.blkShift < hi * 2 ^ c.blkShift :=
    Nat.mul_lt_mul_of_pos_right hhi hpos
  unfold blockRange mappingBlockInRange
  rw [if_neg (List.ne_nil_of_mem hmem), addr_lt hblock]
  cases hfind : c.ranges.find? fun r =>
    decide (r.1 ≤ block * 2 ^ c.blkShift) && decide (block * 2 ^ c.blkShift < r.2) with
  | none =>
    have := List.find?_eq_none.mp hfind _ hmem
    simp [hlow, hhigh] at this
  | some r =>
    have hin := List.find?_some hfind
    simp only [Bool.and_eq_true, decide_eq_true_eq] at hin
    -- another range with this block would overlap
    have hr : r = (lo * 2 ^ c.blkShift, hi * 2 ^ c.blkShift) := by
      rcases c.apart r (List.mem_of_find?_eq_some hfind) _ hmem with heq | hover
      · exact heq
      · dsimp only at hover
        omega
    rw [hr, Option.map_some, Nat.mul_div_cancel _ hpos, Nat.mul_div_cancel _ hpos]

/-- Two blocks share their range, or each is outside that of the other. -/
theorem blockRange_apart {block other lo hi : ℕ} (hblock : block < c.totalBlks)
    (hother : other < c.totalBlks) (h : c.blockRange block = some (lo, hi))
    (hne : c.blockRange other ≠ some (lo, hi)) :
    (other < lo ∨ hi ≤ other) ∧
      ∀ lo' hi', c.blockRange other = some (lo', hi') → hi ≤ lo' ∨ hi' ≤ lo := by
  by_cases hnil : c.ranges = []
  · rw [blockRange_of_nil hnil] at h hne
    exact absurd h hne
  · obtain ⟨hmem, -, -⟩ := mem_of_blockRange hnil hblock h
    have houtside : other < lo ∨ hi ≤ other := by
      by_contra hin
      exact hne (blockRange_of_mem hother hmem (by omega) (by omega))
    refine ⟨houtside, fun lo' hi' h' => ?_⟩
    obtain ⟨hmem', hlo', hhi'⟩ := mem_of_blockRange hnil hother h'
    have hpos : 0 < 2 ^ c.blkShift := Nat.two_pow_pos _
    rcases c.apart _ hmem _ hmem' with heq | hle | hle
    · obtain ⟨hlo, hhi⟩ := Prod.mk.inj heq
      have hlo := Nat.eq_of_mul_eq_mul_right hpos hlo
      have hhi := Nat.eq_of_mul_eq_mul_right hpos hhi
      omega
    · exact .inl (Nat.le_of_mul_le_mul_right hle hpos)
    · exact .inr (Nat.le_of_mul_le_mul_right hle hpos)

end RemapRange

end OpenWrt.MtkBmt
