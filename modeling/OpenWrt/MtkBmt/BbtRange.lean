/-
# The remap ranges of the table of bad blocks

The ranges are given in bytes, as cells of 32 bits that the code reads into signed
variables and shifts down to block numbers. A device tree without them makes the
whole flash one range, but what the lookup is told then are block numbers, which it
shifts once more. The lookup keeps its order, good blocks first, where the shifted
ends are those of the range.
-/

import Mathlib.Algebra.Group.Int.Defs
import Mathlib.Data.List.Find
import OpenWrt.MtkBmt.Bbt

namespace OpenWrt.MtkBmt.BbtRange

open OpenWrt.Lib.GoodFirst OpenWrt.MtkBmt.Bbt

/-! ## The lookup as the code computes it -/

/-- The size of the flash and the `mediatek,bmt-remap-range` property. -/
structure Bmtd where
  totalBlks : ℕ
  blkShift : ℕ
  remapRange : List (BitVec 32 × BitVec 32)
  /-- Blocks are counted in 16 bits. -/
  total_lt : totalBlks < 2 ^ 16
  /-- A range is a part of the flash. -/
  range_le : ∀ r ∈ remapRange, r.2.toNat ≤ totalBlks * 2 ^ blkShift

/-- The argument of the source has 16 bits. -/
def bbtBlockIsBad (buf : BbtBuf) (block : ℤ) : Bool :=
  Bbt.bbtBlockIsBad buf (block % 2 ^ 16).toNat

section Loops

variable (isBad : ℤ → Bool)

/-- Pass the bad blocks and `ofs` good ones, from `i` on. -/
def skipBad : (fuel : ℕ) → (i ofs : ℤ) → (badBlocks : ℕ) → Option ℤ × ℤ × ℕ
  | 0, _, ofs, badBlocks => (none, ofs, badBlocks)
  | fuel + 1, i, ofs, badBlocks =>
    if isBad i then skipBad fuel (i + 1) ofs (badBlocks + 1)
    else if ofs ≠ 0 then skipBad fuel (i + 1) (ofs - 1) badBlocks
    else (some i, ofs, badBlocks)

/-- Count the bad blocks down from `i`, until at most `ofs` are left. The blocks
that were counted lie within `fuel` blocks. -/
def overflowBad (ofs : ℤ) : (fuel : ℕ) → (i : ℤ) → (badBlocks : ℕ) → Option ℤ
  | 0, _, _ => none
  | fuel + 1, i, badBlocks =>
    if badBlocks = 0 then none
    else if ¬ isBad i then overflowBad ofs fuel (i - 1) badBlocks
    else if ((badBlocks - 1 : ℕ) : ℤ) ≤ ofs then some i
    else overflowBad ofs fuel (i - 1) (badBlocks - 1)

end Loops

namespace Bmtd

variable (c : Bmtd)

def rangeAt (block : ℕ) : Option (BitVec 32 × BitVec 32) :=
  let addr := BitVec.ofNat 32 (block <<< c.blkShift)
  c.remapRange.find? fun r => decide (r.1 ≤ addr) && decide (addr < r.2)

/-- The ends are kept in signed variables. -/
def mappingBlockInRange (block : ℕ) : Option (ℤ × ℤ) :=
  if c.remapRange = [] then some (0, c.totalBlks)
  else (c.rangeAt block).map fun r => (r.1.toInt, r.2.toInt)

/-- The physical block of a logical one. -/
def getMappingBlockIndexBbt (buf : BbtBuf) (block : ℕ) : ℤ :=
  match c.mappingBlockInRange block with
  | none => block
  | some (start, stop) =>
    let start := start >>> c.blkShift
    let stop := stop >>> c.blkShift
    let ofs : ℤ := block - start
    match skipBad (bbtBlockIsBad buf) (stop - start).toNat start ofs 0 with
    | (some i, _, _) => i
    | (none, ofs, badBlocks) =>
      (overflowBad (bbtBlockIsBad buf) ofs (stop - start).toNat (stop - 1) badBlocks).getD block

/-! ## What is to be shown -/

/-- The remap ranges in bytes: those of the property, or else the whole flash. -/
def remapRanges : List (ℕ × ℕ) :=
  if c.remapRange = [] then [(0, c.totalBlks * 2 ^ c.blkShift)]
  else c.remapRange.map fun r => (r.1.toNat, r.2.toNat)

/-- The blocks with their first byte in a range, in ascending order. -/
def blocksOf (r : ℕ × ℕ) : List ℕ :=
  (List.range c.totalBlks).filter fun block =>
    decide (r.1 ≤ block * 2 ^ c.blkShift) && decide (block * 2 ^ c.blkShift < r.2)

/-- The blocks of a range go to its good blocks in order and then to its bad ones,
the blocks of no range stay. -/
structure PermutesRanges (buf : BbtBuf) : Prop where
  goodFirst : ∀ r ∈ c.remapRanges,
    (c.blocksOf r).map (c.getMappingBlockIndexBbt buf) =
      (goodFirst (fun block => bbtBlockIsBad buf block) (c.blocksOf r)).map Nat.cast
  identity : ∀ block < c.totalBlks, (∀ r ∈ c.remapRanges, block ∉ c.blocksOf r) →
    c.getMappingBlockIndexBbt buf block = block

def blockFrom (addr : ℕ) : ℕ := (addr + (2 ^ c.blkShift - 1)) / 2 ^ c.blkShift

/-- The ends of a range, shifted down as signed numbers. -/
def window (r : BitVec 32 × BitVec 32) : ℤ × ℤ :=
  (r.1.toInt >>> c.blkShift, r.2.toInt >>> c.blkShift)

/-- The shifted ends are those of the blocks from `lo` to `hi`, or there is one block
only and they leave none. -/
def WindowFits (window : ℤ × ℤ) (lo hi : ℕ) : Prop :=
  window = ((lo : ℤ), (hi : ℤ)) ∨ hi = lo + 1 ∧ window.2 ≤ window.1

/-- Where the property is given, ranges with a common block have the same blocks, and
each fits its shifted ends. A block above 32 bits of address, which wraps into a range,
finds it empty. Without the property there is nothing to permute. -/
def Fits : Prop :=
  if c.remapRange = [] then c.totalBlks ≤ 1 ∨ c.blkShift = 0
  else
    ∀ block < c.totalBlks, ∀ r, c.rangeAt block = some r →
      if block * 2 ^ c.blkShift < 2 ^ 32 then
        (∀ q ∈ c.remapRange, block ∈ c.blocksOf (q.1.toNat, q.2.toNat) →
          c.blocksOf (q.1.toNat, q.2.toNat) = c.blocksOf (r.1.toNat, r.2.toNat)) ∧
        WindowFits (c.window r) (c.blockFrom r.1.toNat) (c.blockFrom r.2.toNat)
      else (c.window r).2 ≤ (c.window r).1

end Bmtd

/-! ## The lookup in a window

The blocks of a window are counted from its start, as natural numbers. -/

section Window

/-- What the two loops find in a window of `n` blocks. -/
def pick (isBad : ℕ → Bool) (n ofs : ℕ) : Option ℕ :=
  match findGood isBad n 0 ofs 0 with
  | (some i, _, _) => some i
  | (none, ofs, badBlocks) => findBad isBad ofs n badBlocks

variable {isBad : ℤ → Bool} {start : ℤ}

theorem skipBad_eq (fuel i ofs badBlocks : ℕ) :
    skipBad isBad fuel (start + i) ofs badBlocks =
      ((findGood (fun k => isBad (start + k)) fuel i ofs badBlocks).1.map
          fun k : ℕ => start + (k : ℤ),
        ((findGood (fun k => isBad (start + k)) fuel i ofs badBlocks).2.1 : ℤ),
        (findGood (fun k => isBad (start + k)) fuel i ofs badBlocks).2.2) := by
  induction fuel generalizing i ofs badBlocks with
  | zero => rfl
  | succ fuel ih =>
    have hnext : start + (i : ℤ) + 1 = start + ((i + 1 : ℕ) : ℤ) := by omega
    unfold skipBad findGood
    cases hbad : isBad (start + i) with
    | true =>
      simp only [if_true]
      rw [hnext, ih]
    | false =>
      cases ofs with
      | zero => simp
      | succ ofs =>
        have hofs : ((ofs + 1 : ℕ) : ℤ) - 1 = ofs := by omega
        have hne : ((ofs + 1 : ℕ) : ℤ) ≠ 0 := by omega
        simp only [if_neg Bool.false_ne_true, if_pos hne]
        rw [hnext, hofs, ih]

theorem overflowBad_eq (ofs n badBlocks : ℕ) :
    overflowBad isBad ofs n (start + n - 1) badBlocks =
      (findBad (fun k => isBad (start + k)) ofs n badBlocks).map
        fun k : ℕ => start + (k : ℤ) := by
  induction n generalizing badBlocks with
  | zero => rfl
  | succ n ih =>
    have hat : start + ((n + 1 : ℕ) : ℤ) - 1 = start + n := by omega
    unfold overflowBad findBad
    rw [hat]
    by_cases hnone : badBlocks = 0
    · rw [if_pos hnone, if_pos hnone]
      rfl
    · rw [if_neg hnone, if_neg hnone, ih, ih]
      cases hbad : isBad (start + n) with
      | false => rfl
      | true =>
        simp only [not_true_eq_false, if_false, Int.ofNat_le]
        split <;> rfl

theorem pick_of_lt {isBad : ℕ → Bool} {n ofs : ℕ} (h : ofs < n) :
    ∃ k, pick isBad n ofs = some k ∧ k < n ∧ rank isBad 0 n k = ofs := by
  unfold pick
  rcases hfind : findGood isBad n 0 ofs 0 with ⟨found, ofs', badBlocks⟩
  cases found with
  | some k =>
    obtain ⟨-, hlt, hgood, hcount⟩ := findGood_some le_rfl hfind
    refine ⟨k, rfl, by omega, ?_⟩
    rw [rank_of_good hgood, hcount, goodBefore_self, Nat.zero_add]
  | none =>
    obtain ⟨hofs, hbad⟩ := findGood_none le_rfl hfind
    rw [Nat.zero_add n, goodBefore_self, Nat.add_zero] at hofs
    rw [Nat.zero_add n, badBefore_self, Nat.add_zero, Nat.zero_add] at hbad
    have htotal : goodBefore isBad 0 n + badBefore isBad 0 n = n - 0 :=
      goodBefore_add_badBefore (Nat.zero_le n)
    obtain ⟨k, hk, -, hlt, hkbad, hcount⟩ :=
      findBad_spec (Nat.zero_le n) (show badBlocks = badBefore isBad 0 n by omega)
        (show ofs' < badBlocks by omega)
    refine ⟨k, hk, hlt, ?_⟩
    rw [rank_of_bad hkbad]
    omega

theorem findBad_lt {isBad : ℕ → Bool} {ofs n badBlocks k : ℕ}
    (h : findBad isBad ofs n badBlocks = some k) : k < n := by
  induction n generalizing badBlocks with
  | zero => cases h
  | succ n ih =>
    unfold findBad at h
    split at h
    case isTrue => cases h
    case isFalse =>
      split at h
      case isTrue => exact Nat.lt_succ_of_lt (ih h)
      case isFalse =>
        split at h
        case isTrue =>
          cases h
          exact Nat.lt_succ_self _
        case isFalse => exact Nat.lt_succ_of_lt (ih h)

theorem pick_lt {isBad : ℕ → Bool} {n ofs k : ℕ} (h : pick isBad n ofs = some k) : k < n := by
  unfold pick at h
  rcases hfind : findGood isBad n 0 ofs 0 with ⟨found, ofs', badBlocks⟩
  rw [hfind] at h
  cases found with
  | some i =>
    cases h
    obtain ⟨-, hlt, -⟩ := findGood_some (Nat.zero_le 0) hfind
    rwa [Nat.zero_add] at hlt
  | none => exact findBad_lt h

@[simp]
theorem pick_zero (isBad : ℕ → Bool) (ofs : ℕ) : pick isBad 0 ofs = none := rfl

/-- In a window of bad blocks there is an answer for every offset. -/
theorem pick_of_bad {isBad : ℕ → Bool} {n ofs : ℕ} (hn : 0 < n)
    (hbad : ∀ k < n, isBad k = true) : ∃ k, pick isBad n ofs = some k := by
  by_cases hofs : ofs < n
  · obtain ⟨k, hk, -⟩ := pick_of_lt hofs
    exact ⟨k, hk⟩
  · unfold pick
    rcases hfind : findGood isBad n 0 ofs 0 with ⟨found, ofs', badBlocks⟩
    cases found with
    | some k => exact ⟨k, rfl⟩
    | none =>
      obtain ⟨hkept, hcount⟩ := findGood_none le_rfl hfind
      have hgood : goodBefore isBad 0 n = 0 := goodBefore_eq_zero fun i _ hi => hbad i hi
      have htotal : goodBefore isBad 0 n + badBefore isBad 0 n = n - 0 :=
        goodBefore_add_badBefore (Nat.zero_le n)
      rw [Nat.zero_add n, goodBefore_self, hgood] at hkept
      rw [Nat.zero_add n, badBefore_self] at hcount
      obtain ⟨m, rfl⟩ : ∃ m, n = m + 1 := ⟨n - 1, by omega⟩
      refine ⟨m, ?_⟩
      dsimp only
      unfold findBad
      rw [if_neg (by omega), if_neg (by simp [hbad m (Nat.lt_succ_self m)]), if_pos (by omega)]

def windowBlock (buf : BbtBuf) (window : ℤ × ℤ) (block : ℕ) : ℤ :=
  ((pick (fun k => bbtBlockIsBad buf (window.1 + k)) (window.2 - window.1).toNat
    (block - window.1).toNat).map fun k : ℕ => window.1 + (k : ℤ)).getD block

theorem windowBlock_of_empty {window : ℤ × ℤ} (h : window.2 ≤ window.1) (buf : BbtBuf)
    (block : ℕ) : windowBlock buf window block = block := by
  unfold windowBlock
  rw [show (window.2 - window.1).toNat = 0 by omega, pick_zero]
  rfl

theorem windowBlock_of_bad {buf : BbtBuf} {window : ℤ × ℤ} (h : window.1 < window.2)
    (hbad : ∀ i, window.1 ≤ i → i < window.2 → bbtBlockIsBad buf i = true) (block : ℕ) :
    window.1 ≤ windowBlock buf window block ∧ windowBlock buf window block < window.2 := by
  obtain ⟨k, hk⟩ := @pick_of_bad (fun k => bbtBlockIsBad buf (window.1 + k))
    (window.2 - window.1).toNat (block - window.1).toNat (by omega)
    fun k hk => hbad _ (by omega) (by omega)
  have hlt := pick_lt hk
  unfold windowBlock
  rw [hk, Option.map_some, Option.getD_some]
  omega

namespace Bmtd

variable {c : Bmtd} {buf : BbtBuf} {block : ℕ}

def windowAt (c : Bmtd) (block : ℕ) : Option (ℤ × ℤ) :=
  (c.mappingBlockInRange block).map fun r : ℤ × ℤ =>
    ((r.1 >>> c.blkShift : ℤ), (r.2 >>> c.blkShift : ℤ))

theorem getMappingBlockIndexBbt_of_none (h : c.windowAt block = none) :
    c.getMappingBlockIndexBbt buf block = block := by
  unfold getMappingBlockIndexBbt
  rw [Option.map_eq_none_iff.mp h]

theorem getMappingBlockIndexBbt_eq {window : ℤ × ℤ} (h : c.windowAt block = some window)
    (hle : window.1 ≤ block) :
    c.getMappingBlockIndexBbt buf block = windowBlock buf window block := by
  obtain ⟨⟨start, stop⟩, hr, rfl⟩ := Option.map_eq_some_iff.mp h
  dsimp only at hle
  unfold getMappingBlockIndexBbt windowBlock pick
  rw [hr]
  dsimp only
  generalize start >>> c.blkShift = lo at hle ⊢
  generalize stop >>> c.blkShift = hi
  have hskip := @skipBad_eq (bbtBlockIsBad buf) lo (hi - lo).toNat 0 (block - lo).toNat 0
  have hofs : (((block : ℤ) - lo).toNat : ℤ) = block - lo := Int.toNat_of_nonneg (by omega)
  rw [hofs, Int.natCast_zero, Int.add_zero] at hskip
  rw [hskip]
  rcases hfind : findGood (fun k => bbtBlockIsBad buf (lo + k)) (hi - lo).toNat 0
    (block - lo).toNat 0 with ⟨found, ofs, badBlocks⟩
  cases found with
  | some k => rfl
  | none =>
    dsimp only [Option.map_none]
    by_cases hempty : hi ≤ lo
    · rw [show (hi - lo).toNat = 0 by omega]
      rfl
    · have hover := @overflowBad_eq (bbtBlockIsBad buf) lo ofs (hi - lo).toNat badBlocks
      rw [show lo + (((hi - lo).toNat : ℕ) : ℤ) - 1 = hi - 1 by omega] at hover
      rw [hover]

end Bmtd

end Window

/-! ## The order of a range -/

section Order

/-- A function sends the numbers of an interval to those of their rank. -/
def MapsByRank (f : ℕ → ℤ) (bad : ℕ → Bool) (lo hi : ℕ) : Prop :=
  ∀ i, lo ≤ i → i < hi → ∃ p : ℕ, f i = p ∧ lo ≤ p ∧ p < hi ∧ rank bad lo hi p = i - lo

theorem mapsByRank_iff {f : ℕ → ℤ} {bad : ℕ → Bool} {lo hi : ℕ} :
    (List.range' lo (hi - lo)).map f =
        (goodFirst bad (List.range' lo (hi - lo))).map Nat.cast ↔
      MapsByRank f bad lo hi := by
  have hmem : ∀ i, i ∈ List.range' lo (hi - lo) ↔ lo ≤ i ∧ i < hi := by
    intro i
    rw [List.mem_range'_1]
    omega
  constructor
  · intro heq
    -- every value is a block number, so the equation is one of natural numbers
    have hcast : ∀ i, lo ≤ i → i < hi → f i = ((f i).toNat : ℤ) := by
      intro i hlo hhi
      have hin : f i ∈ (List.range' lo (hi - lo)).map f :=
        List.mem_map_of_mem ((hmem i).mpr ⟨hlo, hhi⟩)
      rw [heq] at hin
      obtain ⟨p, -, hp⟩ := List.mem_map.mp hin
      rw [← hp]
      rfl
    have hnat : (List.range' lo (hi - lo)).map (fun i => (f i).toNat) =
        goodFirst bad (List.range' lo (hi - lo)) := by
      have := congrArg (List.map Int.toNat) heq
      rw [List.map_map, List.map_map] at this
      refine this.trans ?_
      exact List.map_id'' (fun i => Int.toNat_natCast i) _
    intro i hlo hhi
    obtain ⟨hlow, hhigh, hrank⟩ := map_eq_goodFirst_iff.mp hnat i hlo hhi
    exact ⟨(f i).toNat, hcast i hlo hhi, hlow, hhigh, hrank⟩
  · intro h
    have hnat : (List.range' lo (hi - lo)).map (fun i => (f i).toNat) =
        goodFirst bad (List.range' lo (hi - lo)) := by
      refine map_eq_goodFirst_iff.mpr fun i hlo hhi => ?_
      obtain ⟨p, hp, hrest⟩ := h i hlo hhi
      rw [hp]
      exact hrest
    rw [← hnat, List.map_map]
    refine List.map_congr_left fun i hi => ?_
    obtain ⟨hlo, hhi⟩ := (hmem i).mp hi
    obtain ⟨p, hp, -⟩ := h i hlo hhi
    rw [Function.comp_apply, hp]
    rfl

/-! ### Tables for every pattern -/

/-- The table of the blocks that a test calls bad. -/
def tableOf (bad : ℕ → Bool) : BbtBuf := fun u =>
  (if bad (4 * u) then 3#8 else 0) ||| (if bad (4 * u + 1) then 12#8 else 0) |||
    (if bad (4 * u + 2) then 48#8 else 0) ||| (if bad (4 * u + 3) then 192#8 else 0)

theorem bits_tableOf : ∀ b₀ b₁ b₂ b₃ : Bool,
    let byte := (if b₀ then 3#8 else 0) ||| (if b₁ then 12#8 else 0) |||
      (if b₂ then 48#8 else 0) ||| (if b₃ then 192#8 else 0)
    (decide ((byte &&& (3#8 <<< (0 * 2))) ≠ 0) = b₀ ∧
      decide ((byte &&& (3#8 <<< (1 * 2))) ≠ 0) = b₁) ∧
      decide ((byte &&& (3#8 <<< (2 * 2))) ≠ 0) = b₂ ∧
        decide ((byte &&& (3#8 <<< (3 * 2))) ≠ 0) = b₃ := by
  decide

theorem bbtBlockIsBad_tableOf {bad : ℕ → Bool} {block : ℕ} (h : block < 2 ^ 16) :
    bbtBlockIsBad (tableOf bad) block = bad block := by
  have hcast : ((block : ℤ) % 2 ^ 16).toNat = block := by omega
  unfold bbtBlockIsBad Bbt.bbtBlockIsBad tableOf
  rw [hcast]
  obtain ⟨⟨h₀, h₁⟩, h₂, h₃⟩ := bits_tableOf (bad (4 * (block / 4))) (bad (4 * (block / 4) + 1))
    (bad (4 * (block / 4) + 2)) (bad (4 * (block / 4) + 3))
  have hcases : block % 4 = 0 ∨ block % 4 = 1 ∨ block % 4 = 2 ∨ block % 4 = 3 := by omega
  rcases hcases with hmod | hmod | hmod | hmod <;> rw [hmod]
  · rw [h₀]
    congr 1
    omega
  · rw [h₁]
    congr 1
    omega
  · rw [h₂]
    congr 1
    omega
  · rw [h₃]
    congr 1
    omega

abbrev badOf (buf : BbtBuf) (block : ℕ) : Bool := bbtBlockIsBad buf block

theorem bbtBlockIsBad_tableOf_true (block : ℤ) :
    bbtBlockIsBad (tableOf fun _ => true) block = true := by
  have hmask : ∀ i < 4,
      decide (((3#8 ||| 12#8 ||| 48#8 ||| 192#8) &&& (3#8 <<< (i * 2))) ≠ 0) = true := by
    decide
  unfold bbtBlockIsBad Bbt.bbtBlockIsBad tableOf
  simp only [if_true]
  exact hmask _ (Nat.mod_lt _ (by decide))

/-! ### Windows that fit -/

section Fit

variable {lo hi : ℕ} {window : ℤ × ℤ}

theorem Bmtd.WindowFits.mapsByRank (h : Bmtd.WindowFits window lo hi) (buf : BbtBuf) :
    MapsByRank (windowBlock buf window) (badOf buf) lo hi := by
  intro i hlo hhi
  rcases h with rfl | ⟨rfl, hempty⟩
  · obtain ⟨k, hk, hlt, hrank⟩ := @pick_of_lt (fun k => badOf buf (lo + k)) (hi - lo) (i - lo)
      (by omega)
    have hend : lo + (hi - lo) = hi := by omega
    rw [rank_shift, hend] at hrank
    refine ⟨lo + k, ?_, by omega, by omega, hrank⟩
    have hcount : ((hi : ℤ) - lo).toNat = hi - lo := by omega
    have hofs : ((i : ℤ) - lo).toNat = i - lo := by omega
    unfold windowBlock
    dsimp only
    rw [hcount, hofs]
    have hbad : (fun k : ℕ => bbtBlockIsBad buf ((lo : ℤ) + k)) =
        fun k => badOf buf (lo + k) := by
      funext k
      rw [← Int.natCast_add]
    rw [hbad, hk]
    exact (Int.natCast_add lo k).symm
  · have hi : i = lo := by omega
    subst hi
    refine ⟨i, windowBlock_of_empty hempty buf i, le_rfl, Nat.lt_succ_self i, ?_⟩
    rw [Nat.sub_self]
    cases hbad : badOf buf i with
    | false => rw [rank_of_good hbad, goodBefore_self]
    | true => rw [rank_of_bad hbad, goodBefore_succ_of_bad hbad, goodBefore_self, badBefore_self]

/-- All blocks are bad but the last of an interval. -/
def lastGood (hi : ℕ) : BbtBuf := tableOf fun i => decide (i ≠ hi - 1)

theorem bbtBlockIsBad_lastGood {i : ℕ} (h : i < 2 ^ 16) :
    bbtBlockIsBad (lastGood hi) i = decide (i ≠ hi - 1) :=
  bbtBlockIsBad_tableOf h

theorem eq_of_rank_zero {p : ℕ} (hhi : hi ≤ 2 ^ 16) (hlow : lo ≤ p) (hhigh : p < hi)
    (hrank : rank (badOf (lastGood hi)) lo hi p = 0) : p = hi - 1 := by
  have hlast : badOf (lastGood hi) (hi - 1) = false := by
    rw [badOf, bbtBlockIsBad_lastGood (by omega), decide_eq_false_iff_not]
    exact not_not_intro rfl
  refine rank_injective hlow hhigh (by omega) (by omega) (hrank.trans ?_)
  rw [rank_of_good hlast]
  refine (goodBefore_eq_zero fun i _ hi => ?_).symm
  rw [badOf, bbtBlockIsBad_lastGood (by omega), decide_eq_true_iff]
  omega

/-- A window in which the first block of the range is looked up by its rank, under every
table, fits the range. -/
theorem windowFits_of_first (hlt : lo < hi) (hhi : hi ≤ 2 ^ 16) (hstart : window.1 ≤ lo)
    (hnear : 0 ≤ window.1 → (lo : ℤ) ≤ window.1 + 1) (hneg : window.1 < 0 → window.2 ≤ 0)
    (hstop : window.2 ≤ hi)
    (hfirst : ∀ buf, ∃ p : ℕ, windowBlock buf window lo = p ∧ lo ≤ p ∧ p < hi ∧
      rank (badOf buf) lo hi p = 0) : Bmtd.WindowFits window lo hi := by
  obtain ⟨p, hp, hlow, hhigh, hrank⟩ := hfirst (lastGood hi)
  have hlast : p = hi - 1 := eq_of_rank_zero hhi hlow hhigh hrank
  by_cases hempty : window.2 ≤ window.1
  · rw [windowBlock_of_empty hempty] at hp
    exact .inr ⟨by omega, hempty⟩
  have hpos : 0 ≤ window.1 := by
    -- a window below zero has no block of the range
    by_contra hbelow
    obtain ⟨q, hq, -⟩ := hfirst (tableOf fun _ => true)
    have hin := (@windowBlock_of_bad (tableOf fun _ => true) window (by omega)
      (fun i _ _ => bbtBlockIsBad_tableOf_true i) lo).2
    have := hneg (by omega)
    omega
  have hbad : ∀ i : ℤ, window.1 ≤ i → i < window.2 → i ≠ hi - 1 →
      bbtBlockIsBad (lastGood hi) i = true := by
    intro i hi₁ hi₂ hne
    obtain ⟨k, rfl⟩ := Int.eq_ofNat_of_zero_le (hpos.trans hi₁)
    rw [bbtBlockIsBad_lastGood (by omega), decide_eq_true_iff]
    omega
  have hend : window.2 = hi := by
    by_contra hshort
    have hin := (windowBlock_of_bad (by omega) (fun i h₁ h₂ => hbad i h₁ h₂ (by omega)) lo).2
    omega
  refine .inl (Prod.ext ?_ hend)
  by_contra hbefore
  -- one block more in front: the last one, the only good one, is of rank 0 and not 1
  have hat : window.1 + 1 = lo := by
    have := hnear hpos
    have : window.1 ≠ lo := hbefore
    omega
  obtain ⟨k, hk, hklt, hkrank⟩ :=
    @pick_of_lt (fun k => bbtBlockIsBad (lastGood hi) (window.1 + k))
      (window.2 - window.1).toNat (lo - window.1).toNat (by omega)
  unfold windowBlock at hp
  rw [hk, Option.map_some, Option.getD_some] at hp
  have hgood : bbtBlockIsBad (lastGood hi) (window.1 + k) = false := by
    rw [hp, bbtBlockIsBad_lastGood (by omega), decide_eq_false_iff_not]
    exact not_not_intro hlast
  have hzero := (@rank_of_good (fun k => bbtBlockIsBad (lastGood hi) (window.1 + k)) 0
    (window.2 - window.1).toNat k hgood).trans
      (goodBefore_eq_zero fun i _ hi => hbad _ (by omega) (by omega) (by omega))
  omega

variable {f : BbtBuf → ℕ → ℤ}

/-- With a bad block in front, a good number is not at its own rank. -/
theorem not_lt_of_orders {lo' hi' b : ℕ} (hb : lo ≤ b ∧ b < hi) (hb' : lo' ≤ b ∧ b < hi')
    (hhi : hi ≤ 2 ^ 16) (h : ∀ buf, MapsByRank (f buf) (badOf buf) lo hi)
    (h' : ∀ buf, MapsByRank (f buf) (badOf buf) lo' hi') : ¬ lo' < lo := by
  intro hlt
  let buf := tableOf fun i => decide (i = lo')
  have hbad : ∀ i < 2 ^ 16, badOf buf i = decide (i = lo') := fun i hi => bbtBlockIsBad_tableOf hi
  have hgood : ∀ i, lo ≤ i → i < hi → badOf buf i = false := by
    intro i hlo hi
    rw [hbad i (by omega), decide_eq_false_iff_not]
    omega
  obtain ⟨p, hp, hlow, hhigh, hrank⟩ := h buf b hb.1 hb.2
  rw [rank_of_good (hgood p hlow hhigh),
    goodBefore_eq_sub hlow fun i hi₁ hi₂ => hgood i hi₁ (by omega)] at hrank
  obtain ⟨q, hq, -, -, hrank'⟩ := h' buf b hb'.1 hb'.2
  have hqb : q = b := by omega
  subst hqb
  rw [rank_of_good (hgood q hb.1 hb.2)] at hrank'
  have hfirst : badOf buf lo' = true := by
    rw [hbad lo' (by omega), decide_eq_true_iff]
  have hcount := badBefore_lt le_rfl hfirst (show lo' < q by omega)
  rw [badBefore_self] at hcount
  have hsum := @goodBefore_add_badBefore (badOf buf) lo' q hb'.1
  omega

theorem not_lt_of_orders_end {hi' : ℕ} (hlt : lo < hi) (hhi' : hi' ≤ 2 ^ 16)
    (h : ∀ buf, MapsByRank (f buf) (badOf buf) lo hi)
    (h' : ∀ buf, MapsByRank (f buf) (badOf buf) lo hi') : ¬ hi < hi' := by
  intro hends
  obtain ⟨p, hp, -, hhigh, -⟩ := h (lastGood hi') lo le_rfl hlt
  obtain ⟨q, hq, hlow, hhigh', hrank⟩ := h' (lastGood hi') lo le_rfl (by omega)
  rw [Nat.sub_self] at hrank
  have hlast := eq_of_rank_zero hhi' hlow hhigh' hrank
  omega

/-- Two intervals with a common number and one order for every table are the same. -/
theorem interval_eq {lo' hi' b : ℕ} (hb : lo ≤ b ∧ b < hi) (hb' : lo' ≤ b ∧ b < hi')
    (hhi : hi ≤ 2 ^ 16) (hhi' : hi' ≤ 2 ^ 16) (h : ∀ buf, MapsByRank (f buf) (badOf buf) lo hi)
    (h' : ∀ buf, MapsByRank (f buf) (badOf buf) lo' hi') : lo = lo' ∧ hi = hi' := by
  have hlo : lo = lo' :=
    le_antisymm (not_lt.mp (not_lt_of_orders hb hb' hhi h h'))
      (not_lt.mp (not_lt_of_orders hb' hb hhi' h' h))
  subst hlo
  refine ⟨rfl, le_antisymm ?_ ?_⟩
  · exact not_lt.mp (not_lt_of_orders_end (by omega) hhi h' h)
  · exact not_lt.mp (not_lt_of_orders_end (by omega) hhi' h h')

end Fit

end Order

/-! ## The blocks of a range and its window -/

namespace Bmtd

variable {c : Bmtd}

theorem blockFrom_le_iff {addr block : ℕ} :
    c.blockFrom addr ≤ block ↔ addr ≤ block * 2 ^ c.blkShift := by
  have hpos : 0 < 2 ^ c.blkShift := Nat.two_pow_pos _
  unfold blockFrom
  rw [Nat.div_le_iff_le_mul_add_pred hpos, Nat.mul_comm]
  omega

theorem lt_blockFrom_iff {addr block : ℕ} :
    block < c.blockFrom addr ↔ block * 2 ^ c.blkShift < addr := by
  rw [← not_le, blockFrom_le_iff, not_le]

variable {r : BitVec 32 × BitVec 32} {block : ℕ}

theorem blockFrom_le_total (hr : r ∈ c.remapRange) :
    c.blockFrom r.2.toNat ≤ c.totalBlks :=
  blockFrom_le_iff.mpr (c.range_le r hr)

theorem mem_blocksOf {r : ℕ × ℕ} :
    block ∈ c.blocksOf r ↔
      block < c.totalBlks ∧ r.1 ≤ block * 2 ^ c.blkShift ∧ block * 2 ^ c.blkShift < r.2 := by
  simp [blocksOf]

theorem blocksOf_eq {r : ℕ × ℕ} (hr : c.blockFrom r.2 ≤ c.totalBlks) :
    c.blocksOf r =
      List.range' (c.blockFrom r.1) (c.blockFrom r.2 - c.blockFrom r.1) := by
  refine List.Pairwise.eq_of_mem_iff (List.pairwise_lt_range.filter _) List.pairwise_lt_range'
    fun block => ?_
  rw [mem_blocksOf, List.mem_range'_1, ← blockFrom_le_iff, ← lt_blockFrom_iff]
  omega

theorem windowAt_of_nil (h : c.remapRange = []) (block : ℕ) :
    c.windowAt block = some (0, ((c.totalBlks / 2 ^ c.blkShift : ℕ) : ℤ)) := by
  unfold windowAt mappingBlockInRange
  rw [if_pos h, Option.map_some, Int.shiftRight_eq_div_pow, Int.shiftRight_eq_div_pow,
    Int.zero_ediv, Int.natCast_ediv]

theorem windowAt_of_ne_nil (h : c.remapRange ≠ []) (block : ℕ) :
    c.windowAt block = (c.rangeAt block).map c.window := by
  unfold windowAt mappingBlockInRange
  rw [if_neg h, Option.map_map]
  rfl

/-! ### Signed ends -/

theorem shiftRight_natCast (n k : ℕ) : ((n : ℤ) >>> k) = ((n / 2 ^ k : ℕ) : ℤ) := by
  rw [Int.shiftRight_eq_div_pow, Int.natCast_ediv]

theorem shiftRight_le {x : ℤ} {n : ℕ} (h : x ≤ n) (k : ℕ) : x >>> k ≤ ((n / 2 ^ k : ℕ) : ℤ) := by
  rw [← shiftRight_natCast, Int.shiftRight_eq_div_pow, Int.shiftRight_eq_div_pow]
  exact Int.ediv_le_ediv (by exact_mod_cast Nat.two_pow_pos k) h

theorem shiftRight_neg {x : ℤ} (h : x < 0) (k : ℕ) : x >>> k < 0 := by
  rw [Int.shiftRight_eq_div_pow]
  exact Int.ediv_neg_of_neg_of_pos h (by exact_mod_cast Nat.two_pow_pos k)

theorem toInt_le_toNat (x : BitVec 32) : x.toInt ≤ x.toNat := by
  rw [BitVec.toInt_eq_toNat_cond]
  split <;> omega

theorem div_le_blockFrom (c : Bmtd) (addr : ℕ) :
    addr / 2 ^ c.blkShift ≤ c.blockFrom addr ∧ c.blockFrom addr ≤ addr / 2 ^ c.blkShift + 1 := by
  have hpos : 0 < 2 ^ c.blkShift := Nat.two_pow_pos _
  constructor
  · exact Nat.div_le_div_right (Nat.le_add_right _ _)
  · rw [blockFrom_le_iff, Nat.add_mul, Nat.one_mul]
    have := Nat.div_add_mod addr (2 ^ c.blkShift)
    have := Nat.mod_lt addr hpos
    have hcomm := Nat.mul_comm (addr / 2 ^ c.blkShift) (2 ^ c.blkShift)
    omega

theorem window_fst_le (r : BitVec 32 × BitVec 32) :
    (c.window r).1 ≤ ((r.1.toNat / 2 ^ c.blkShift : ℕ) : ℤ) :=
  shiftRight_le (toInt_le_toNat r.1) _

theorem window_snd_le (r : BitVec 32 × BitVec 32) :
    (c.window r).2 ≤ ((r.2.toNat / 2 ^ c.blkShift : ℕ) : ℤ) :=
  shiftRight_le (toInt_le_toNat r.2) _

/-- A start that is not negative is rounded down by less than a block. -/
theorem le_window_fst (h : 0 ≤ (c.window r).1) :
    (c.blockFrom r.1.toNat : ℤ) ≤ (c.window r).1 + 1 := by
  have hpos : r.1.toInt = r.1.toNat := by
    have hneg := mt (fun hneg => shiftRight_neg hneg c.blkShift) (not_lt.mpr h)
    rw [BitVec.toInt_eq_toNat_cond] at hneg ⊢
    split at hneg
    case isTrue hlow => rw [if_pos hlow]
    case isFalse => omega
  unfold window
  rw [hpos, shiftRight_natCast]
  have := (c.div_le_blockFrom r.1.toNat).2
  dsimp only
  omega

/-- From 2 GiB on both ends are negative. -/
theorem window_snd_neg (hlt : r.1.toNat < r.2.toNat) (h : (c.window r).1 < 0) :
    (c.window r).2 ≤ 0 := by
  have hneg : r.1.toInt < 0 := by
    by_contra hpos
    obtain ⟨n, hn⟩ := Int.eq_ofNat_of_zero_le (not_lt.mp hpos)
    unfold window at h
    rw [hn, shiftRight_natCast] at h
    exact absurd h (not_lt.mpr (Int.natCast_nonneg _))
  refine (shiftRight_neg ?_ c.blkShift).le
  rw [BitVec.toInt_eq_toNat_cond] at hneg ⊢
  split at hneg <;> split <;> omega

/-! ### The range of a block -/

theorem rangeAt_some (h : c.rangeAt block = some r) :
    r ∈ c.remapRange ∧ r.1.toNat ≤ block * 2 ^ c.blkShift % 2 ^ 32 ∧
      block * 2 ^ c.blkShift % 2 ^ 32 < r.2.toNat := by
  have hin := List.find?_some h
  simp only [Bool.and_eq_true, decide_eq_true_eq, BitVec.le_def, BitVec.lt_def,
    BitVec.toNat_ofNat, Nat.shiftLeft_eq] at hin
  exact ⟨List.mem_of_find?_eq_some h, hin⟩

theorem rangeAt_eq (hblock : block < c.totalBlks) (haddr : block * 2 ^ c.blkShift < 2 ^ 32) :
    c.rangeAt block =
      c.remapRange.find? fun r => decide (block ∈ c.blocksOf (r.1.toNat, r.2.toNat)) := by
  unfold rangeAt
  dsimp only
  congr 1
  funext r
  simp only [mem_blocksOf, BitVec.le_def, BitVec.lt_def, BitVec.toNat_ofNat, Nat.shiftLeft_eq,
    Nat.mod_eq_of_lt haddr, Bool.decide_and, hblock, decide_true, Bool.true_and]

theorem mem_blocksOf_of_rangeAt (hblock : block < c.totalBlks)
    (haddr : block * 2 ^ c.blkShift < 2 ^ 32) (h : c.rangeAt block = some r) :
    block ∈ c.blocksOf (r.1.toNat, r.2.toNat) := by
  obtain ⟨-, hlow, hhigh⟩ := rangeAt_some h
  rw [Nat.mod_eq_of_lt haddr] at hlow hhigh
  exact mem_blocksOf.mpr ⟨hblock, hlow, hhigh⟩

theorem addr_lt_of_mem (h : block ∈ c.blocksOf (r.1.toNat, r.2.toNat)) :
    block * 2 ^ c.blkShift < 2 ^ 32 := by
  obtain ⟨-, -, hhigh⟩ := mem_blocksOf.mp h
  dsimp only at hhigh
  exact hhigh.trans r.2.isLt

theorem window_fst_le_block (h : c.rangeAt block = some r) : (c.window r).1 ≤ block := by
  obtain ⟨-, hlow, -⟩ := rangeAt_some h
  have hmod := Nat.mod_le (block * 2 ^ c.blkShift) (2 ^ 32)
  have hdiv : r.1.toNat / 2 ^ c.blkShift ≤ block :=
    Nat.div_le_of_le_mul (by rw [Nat.mul_comm]; omega)
  have := @window_fst_le c r
  omega

theorem getMappingBlockIndexBbt_of_rangeAt (h : c.rangeAt block = some r) (buf : BbtBuf) :
    c.getMappingBlockIndexBbt buf block = windowBlock buf (c.window r) block := by
  have hne : c.remapRange ≠ [] := List.ne_nil_of_mem (rangeAt_some h).1
  refine getMappingBlockIndexBbt_eq ?_ (window_fst_le_block h)
  rw [windowAt_of_ne_nil hne, h, Option.map_some]

theorem remapRanges_of_ne_nil (h : c.remapRange ≠ []) :
    c.remapRanges = c.remapRange.map fun r => (r.1.toNat, r.2.toNat) :=
  if_neg h

theorem mapsByRank_of_permutes {buf : BbtBuf} (h : c.PermutesRanges buf) (hr : r ∈ c.remapRange) :
    MapsByRank (c.getMappingBlockIndexBbt buf) (badOf buf) (c.blockFrom r.1.toNat)
      (c.blockFrom r.2.toNat) := by
  have hmem : (r.1.toNat, r.2.toNat) ∈ c.remapRanges := by
    rw [remapRanges_of_ne_nil (List.ne_nil_of_mem hr)]
    exact List.mem_map_of_mem hr
  have horder := h.goodFirst _ hmem
  rw [blocksOf_eq (blockFrom_le_total hr)] at horder
  exact mapsByRank_iff.mp horder

/-! ## Without the property -/

theorem blocksOf_whole (c : Bmtd) :
    c.blocksOf (0, c.totalBlks * 2 ^ c.blkShift) = List.range' 0 c.totalBlks := by
  have hzero : c.blockFrom 0 = 0 := Nat.le_zero.mp (blockFrom_le_iff.mpr (Nat.zero_le _))
  have htotal : c.blockFrom (c.totalBlks * 2 ^ c.blkShift) = c.totalBlks := by
    refine le_antisymm (blockFrom_le_iff.mpr le_rfl) ?_
    exact Nat.le_of_mul_le_mul_right (blockFrom_le_iff.mp le_rfl) (Nat.two_pow_pos _)
  rw [blocksOf_eq htotal.le, hzero, htotal, Nat.sub_zero]

section Whole

variable (hnil : c.remapRange = [])

include hnil

/-- The whole flash is one range, looked up in a window of shifted block numbers. -/
theorem permutesRanges_whole_iff (buf : BbtBuf) :
    c.PermutesRanges buf ↔
      MapsByRank (windowBlock buf (0, ((c.totalBlks / 2 ^ c.blkShift : ℕ) : ℤ))) (badOf buf) 0
        c.totalBlks := by
  have hget : c.getMappingBlockIndexBbt buf =
      windowBlock buf (0, ((c.totalBlks / 2 ^ c.blkShift : ℕ) : ℤ)) := by
    funext block
    exact getMappingBlockIndexBbt_eq (windowAt_of_nil hnil block) (Int.natCast_nonneg block)
  have hranges : c.remapRanges = [(0, c.totalBlks * 2 ^ c.blkShift)] := if_pos hnil
  have hlaw := @mapsByRank_iff (c.getMappingBlockIndexBbt buf) (badOf buf) 0 c.totalBlks
  rw [Nat.sub_zero, hget] at hlaw
  rw [← hlaw, ← hget, ← blocksOf_whole c]
  constructor
  · intro h
    exact h.goodFirst _ (hranges ▸ List.mem_singleton_self _)
  · intro h
    refine ⟨?_, ?_⟩
    · rw [hranges]
      rintro r hr
      rw [List.mem_singleton.mp hr]
      exact h
    · intro block hblock houtside
      refine absurd (mem_blocksOf.mpr ⟨hblock, Nat.zero_le _, ?_⟩)
        (houtside _ (hranges ▸ List.mem_singleton_self _))
      exact Nat.mul_lt_mul_of_pos_right hblock (Nat.two_pow_pos _)

theorem permutes_whole_iff :
    (∀ buf, c.PermutesRanges buf) ↔ c.totalBlks ≤ 1 ∨ c.blkShift = 0 := by
  simp only [permutesRanges_whole_iff hnil]
  constructor
  · intro h
    by_contra hnot
    have hlt : c.totalBlks / 2 ^ c.blkShift < c.totalBlks :=
      Nat.div_lt_self (by omega) (Nat.one_lt_two_pow (by omega))
    have hfits := @windowFits_of_first 0 c.totalBlks
      (0, ((c.totalBlks / 2 ^ c.blkShift : ℕ) : ℤ)) (by omega) c.total_lt.le le_rfl
      (fun _ => by simp) (fun hneg => absurd hneg (lt_irrefl _)) (Int.ofNat_le.mpr hlt.le)
      fun buf => h buf 0 le_rfl (by omega)
    rcases hfits with heq | ⟨hone, -⟩
    · have := congrArg Prod.snd heq
      dsimp only at this
      omega
    · omega
  · intro h buf
    by_cases hzero : c.blkShift = 0
    · refine WindowFits.mapsByRank (.inl ?_) buf
      rw [hzero, Nat.pow_zero, Nat.div_one]
      rfl
    · have hempty : c.totalBlks / 2 ^ c.blkShift = 0 :=
        Nat.div_eq_of_lt (lt_of_le_of_lt (h.resolve_right hzero) (Nat.one_lt_two_pow hzero))
      intro i hlo hhi
      refine WindowFits.mapsByRank (.inr ⟨?_, ?_⟩) buf i hlo hhi
      · omega
      · rw [hempty]
        exact le_rfl

end Whole

/-! ## With the property -/

/-- Two ranges with a common block have the same blocks, where both keep the order. -/
theorem blocksOf_eq_of_permutes (h : ∀ buf, c.PermutesRanges buf)
    {r q : BitVec 32 × BitVec 32} (hr : r ∈ c.remapRange) (hq : q ∈ c.remapRange) {block : ℕ}
    (hbr : block ∈ c.blocksOf (r.1.toNat, r.2.toNat))
    (hbq : block ∈ c.blocksOf (q.1.toNat, q.2.toNat)) :
    c.blocksOf (q.1.toNat, q.2.toNat) = c.blocksOf (r.1.toNat, r.2.toNat) := by
  obtain ⟨-, hrlow, hrhigh⟩ := mem_blocksOf.mp hbr
  obtain ⟨-, hqlow, hqhigh⟩ := mem_blocksOf.mp hbq
  have hends := interval_eq
    ⟨blockFrom_le_iff.mpr hqlow, lt_blockFrom_iff.mpr hqhigh⟩
    ⟨blockFrom_le_iff.mpr hrlow, lt_blockFrom_iff.mpr hrhigh⟩
    ((blockFrom_le_total hq).trans c.total_lt.le) ((blockFrom_le_total hr).trans c.total_lt.le)
    (fun buf => mapsByRank_of_permutes (h buf) hq) (fun buf => mapsByRank_of_permutes (h buf) hr)
  rw [blocksOf_eq (blockFrom_le_total hq), blocksOf_eq (blockFrom_le_total hr)]
  dsimp only
  rw [hends.1, hends.2]

variable {r : BitVec 32 × BitVec 32}

theorem rangeAt_eq_of_permutes (h : ∀ buf, c.PermutesRanges buf) {block other : ℕ}
    (hr : r ∈ c.remapRange) (hblock : block ∈ c.blocksOf (r.1.toNat, r.2.toNat))
    (hother : other ∈ c.blocksOf (r.1.toNat, r.2.toNat)) : c.rangeAt other = c.rangeAt block := by
  rw [rangeAt_eq (mem_blocksOf.mp hblock).1 (addr_lt_of_mem hblock),
    rangeAt_eq (mem_blocksOf.mp hother).1 (addr_lt_of_mem hother)]
  have hsame : ∀ q ∈ c.remapRange, other ∈ c.blocksOf (q.1.toNat, q.2.toNat) ↔
      block ∈ c.blocksOf (q.1.toNat, q.2.toNat) := by
    intro q hq
    constructor
    · intro hin
      rwa [blocksOf_eq_of_permutes h hr hq hother hin]
    · intro hin
      rwa [blocksOf_eq_of_permutes h hr hq hblock hin]
  exact List.find?_congr fun q hq => by rw [decide_eq_decide.mpr (hsame q hq)]

theorem windowFits_of_permutes (h : ∀ buf, c.PermutesRanges buf) {block : ℕ}
    (hat : c.rangeAt block = some r) (hin : block ∈ c.blocksOf (r.1.toNat, r.2.toNat)) :
    WindowFits (c.window r) (c.blockFrom r.1.toNat) (c.blockFrom r.2.toNat) := by
  obtain ⟨hr, -, -⟩ := rangeAt_some hat
  obtain ⟨-, hlow, hhigh⟩ := mem_blocksOf.mp hin
  have hlo := blockFrom_le_iff.mpr hlow
  have hhi := lt_blockFrom_iff.mpr hhigh
  dsimp only at hlow hhigh hlo hhi
  have htotal := blockFrom_le_total hr
  -- the first block of the range is looked up in the same window
  have hfirst : c.blockFrom r.1.toNat ∈ c.blocksOf (r.1.toNat, r.2.toNat) := by
    rw [blocksOf_eq htotal, List.mem_range'_1]
    dsimp only
    omega
  have hfirstAt := (rangeAt_eq_of_permutes h hr hin hfirst).trans hat
  refine windowFits_of_first (by omega) (htotal.trans c.total_lt.le) ?_ ?_ ?_ ?_ fun buf => ?_
  · have := @window_fst_le c r
    have := (c.div_le_blockFrom r.1.toNat).1
    omega
  · exact le_window_fst
  · exact window_snd_neg (by omega)
  · have := @window_snd_le c r
    have := (c.div_le_blockFrom r.2.toNat).1
    omega
  · obtain ⟨p, hp, hplo, hphi, hrank⟩ :=
      mapsByRank_of_permutes (h buf) hr (c.blockFrom r.1.toNat) le_rfl (by omega)
    rw [getMappingBlockIndexBbt_of_rangeAt hfirstAt] at hp
    exact ⟨p, hp, hplo, hphi, hrank.trans (Nat.sub_self _)⟩

/-- A block that wraps into a range would be moved by a table of bad blocks. -/
theorem window_empty_of_permutes (h : ∀ buf, c.PermutesRanges buf) {block : ℕ}
    (hblock : block < c.totalBlks) (hat : c.rangeAt block = some r)
    (haddr : ¬ block * 2 ^ c.blkShift < 2 ^ 32) : (c.window r).2 ≤ (c.window r).1 := by
  by_contra hne
  have hnil : c.remapRange ≠ [] := List.ne_nil_of_mem (rangeAt_some hat).1
  have hstays := (h (tableOf fun _ => true)).identity block hblock fun q hq hin => by
    rw [remapRanges_of_ne_nil hnil] at hq
    obtain ⟨q, -, rfl⟩ := List.mem_map.mp hq
    exact haddr (addr_lt_of_mem hin)
  rw [getMappingBlockIndexBbt_of_rangeAt hat] at hstays
  have hlt := (@windowBlock_of_bad (tableOf fun _ => true) (c.window r) (by omega)
    (fun i _ _ => bbtBlockIsBad_tableOf_true i) block).2
  have hend : r.2.toNat / 2 ^ c.blkShift ≤ block := by
    refine Nat.div_le_of_le_mul ?_
    have := r.2.isLt
    rw [Nat.mul_comm]
    omega
  have := @window_snd_le c r
  omega

/-! ## When the lookup permutes its ranges -/

theorem fits_of_permutes (h : ∀ buf, c.PermutesRanges buf) : c.Fits := by
  unfold Fits
  split
  case isTrue hnil => exact (permutes_whole_iff hnil).mp h
  case isFalse hne =>
    intro block hblock r hat
    obtain ⟨hr, -, -⟩ := rangeAt_some hat
    split
    case isTrue haddr =>
      have hin := mem_blocksOf_of_rangeAt hblock haddr hat
      refine ⟨fun q hq hbq => ?_, ?_⟩
      · exact blocksOf_eq_of_permutes h hr hq hin hbq
      · exact windowFits_of_permutes h hat hin
    case isFalse haddr => exact window_empty_of_permutes h hblock hat haddr

/-- The order of a range of the property. -/
theorem mapsByRank_of_fits (hne : c.remapRange ≠ []) (h : c.Fits) (buf : BbtBuf)
    {q : BitVec 32 × BitVec 32} (hq : q ∈ c.remapRange) :
    MapsByRank (c.getMappingBlockIndexBbt buf) (badOf buf) (c.blockFrom q.1.toNat)
      (c.blockFrom q.2.toNat) := by
  unfold Fits at h
  rw [if_neg hne] at h
  intro i hlo hhi
  have hmem : i ∈ c.blocksOf (q.1.toNat, q.2.toNat) := by
    refine mem_blocksOf.mpr ⟨hhi.trans_le (blockFrom_le_total hq), ?_, ?_⟩
    · exact blockFrom_le_iff.mp hlo
    · exact lt_blockFrom_iff.mp hhi
  have hi := (mem_blocksOf.mp hmem).1
  have haddr := addr_lt_of_mem hmem
  cases hat : c.rangeAt i with
  | none =>
    rw [rangeAt_eq hi haddr] at hat
    exact absurd (decide_eq_true hmem) (List.find?_eq_none.mp hat q hq)
  | some r =>
    have hfits := h i hi r hat
    rw [if_pos haddr] at hfits
    obtain ⟨hsame, hwindow⟩ := hfits
    obtain ⟨hr, -, -⟩ := rangeAt_some hat
    have heq := hsame q hq hmem
    rw [blocksOf_eq (blockFrom_le_total hq), blocksOf_eq (blockFrom_le_total hr)] at heq
    dsimp only at heq
    have hlen := congrArg List.length heq
    rw [List.length_range', List.length_range'] at hlen
    have hhead := congrArg List.head? heq
    rw [List.head?_range', List.head?_range', if_neg (by omega), if_neg (by omega)] at hhead
    have hlow : c.blockFrom q.1.toNat = c.blockFrom r.1.toNat := Option.some.inj hhead
    have hhigh : c.blockFrom q.2.toNat = c.blockFrom r.2.toNat := by omega
    rw [getMappingBlockIndexBbt_of_rangeAt hat, hlow, hhigh]
    exact hwindow.mapsByRank buf i (hlow ▸ hlo) (hhigh ▸ hhi)

theorem permutes_of_fits (h : c.Fits) (buf : BbtBuf) : c.PermutesRanges buf := by
  by_cases hnil : c.remapRange = []
  · unfold Fits at h
    rw [if_pos hnil] at h
    exact (permutes_whole_iff hnil).mpr h buf
  have hranges := remapRanges_of_ne_nil hnil
  refine ⟨fun r hr => ?_, fun block hblock houtside => ?_⟩
  · rw [hranges] at hr
    obtain ⟨q, hq, rfl⟩ := List.mem_map.mp hr
    rw [blocksOf_eq (blockFrom_le_total hq)]
    exact mapsByRank_iff.mpr (mapsByRank_of_fits hnil h buf hq)
  · cases hat : c.rangeAt block with
    | none =>
      refine getMappingBlockIndexBbt_of_none ?_
      rw [windowAt_of_ne_nil hnil, hat, Option.map_none]
    | some r =>
      rw [getMappingBlockIndexBbt_of_rangeAt hat]
      refine windowBlock_of_empty ?_ buf block
      unfold Fits at h
      rw [if_neg hnil] at h
      have hfits := h block hblock r hat
      split at hfits
      case isTrue haddr =>
        have hin := mem_blocksOf_of_rangeAt hblock haddr hat
        refine absurd hin (houtside _ ?_)
        rw [hranges]
        exact List.mem_map_of_mem (rangeAt_some hat).1
      case isFalse => exact hfits

/-- For every table the lookup permutes its ranges, good blocks first, if and only if the
shifted ends of the ranges are those of their blocks. -/
theorem permutesRanges_iff_fits (c : Bmtd) : (∀ buf, c.PermutesRanges buf) ↔ c.Fits :=
  ⟨fits_of_permutes, permutes_of_fits⟩

/-- A flash of 128 MiB without the property. -/
def plainFlash : Bmtd where
  totalBlks := 1024
  blkShift := 17
  remapRange := []
  total_lt := by decide
  range_le := fun _ hr => absurd hr List.not_mem_nil

/-- There the first block keeps its place when it is bad, although the others are good. -/
theorem not_permutesRanges_plainFlash :
    ¬ plainFlash.PermutesRanges (tableOf fun block => decide (block = 0)) := by
  intro h
  have hnil : plainFlash.remapRange = [] := rfl
  obtain ⟨p, hp, -, -, hrank⟩ :=
    (permutesRanges_whole_iff hnil _).mp h 0 le_rfl (show 0 < 1024 by decide)
  rw [windowBlock_of_empty (show ((1024 / 2 ^ 17 : ℕ) : ℤ) ≤ 0 by decide)] at hp
  have hp : p = 0 := by omega
  subst hp
  have hbad : ∀ i < 2 ^ 16, badOf (tableOf fun block => decide (block = 0)) i = decide (i = 0) :=
    fun i hi => bbtBlockIsBad_tableOf hi
  rw [rank_of_bad (hbad 0 (by decide)), badBefore_self] at hrank
  have hgood : badOf (tableOf fun block => decide (block = 0)) 1 = false := hbad 1 (by decide)
  have hcount := goodBefore_lt (Nat.zero_le 1) hgood (show 1 < 1024 by decide)
  change goodBefore _ 0 1024 + 0 = 0 at hrank
  omega

end Bmtd

end OpenWrt.MtkBmt.BbtRange
