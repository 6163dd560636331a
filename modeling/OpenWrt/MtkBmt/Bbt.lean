/-
# The table of bad blocks

This backend keeps two bits for each block. Within a range the logical blocks go to
the good blocks in order, and the ones that are left over to the bad blocks. The
mapping is computed from the table each time, so marking a block bad moves all
later blocks of its range, up to the first that had no good block.
-/

import OpenWrt.Lib.GoodFirst
import OpenWrt.MtkBmt.Nand

namespace OpenWrt.MtkBmt.Bbt

open OpenWrt.Lib.GoodFirst

/-! ## The table -/

/-- The bytes of the table, four blocks in each. -/
abbrev BbtBuf := ℕ → BitVec 8

/-- Either bit of a block tells that it is bad. -/
def bbtBlockIsBad (buf : BbtBuf) (block : ℕ) : Bool :=
  (buf (block / 4) &&& (3#8 <<< (block % 4 * 2))) ≠ 0

def setBlockBits (buf : BbtBuf) (block : ℕ) (bad : Bool) : BbtBuf :=
  let mask := 3#8 <<< (block % 4 * 2)
  Function.update buf (block / 4)
    (if bad then buf (block / 4) ||| mask else buf (block / 4) &&& ~~~mask)

/-- What the driver keeps in memory. -/
structure Desc where
  bbtBuf : BbtBuf
  bmtBlkIdx : ℕ

/-- `mtknand` -/
def signature : List UInt8 := [0x6d, 0x74, 0x6b, 0x6e, 0x61, 0x6e, 0x64]

section Set

variable {σ Page : Type} (nand : Nand σ BbtBuf Page)

def bbtSetBlockState (block : ℕ) (bad : Bool) (d : Desc) (s : σ) : Desc × σ :=
  let d := { d with bbtBuf := setBlockBits d.bbtBuf block bad }
  let s := (nand.erase s d.bmtBlkIdx).2
  (d, (nand.writeTable s d.bmtBlkIdx signature d.bbtBuf).2)

end Set

/-! ## The mapping -/

section Mapping

variable (isBad : ℕ → Bool)

/-- Look for the good block after `ofs` others, in `fuel` blocks from `i` on, and
count the bad ones on the way. -/
def findGood : (fuel i ofs badBlocks : ℕ) → Option ℕ × ℕ × ℕ
  | 0, _, ofs, badBlocks => (none, ofs, badBlocks)
  | fuel + 1, i, ofs, badBlocks =>
    if isBad i then findGood fuel (i + 1) ofs (badBlocks + 1)
    else
      match ofs with
      | 0 => (some i, 0, badBlocks)
      | ofs + 1 => findGood fuel (i + 1) ofs badBlocks

/-- Look down from below `i` for the last bad block with at most `ofs` before it. -/
def findBad (ofs : ℕ) : (i badBlocks : ℕ) → Option ℕ
  | 0, _ => none
  | i + 1, badBlocks =>
    if badBlocks = 0 then none
    else if ¬ isBad i then findBad ofs i badBlocks
    else if badBlocks - 1 ≤ ofs then some i
    else findBad ofs i (badBlocks - 1)

/-- The physical block of a logical one. -/
def mappingBlockIndex (c : RemapRange) (block : ℕ) : ℕ :=
  match c.mappingBlockInRange block with
  | none => block
  | some (start, stop) =>
    let start := start / 2 ^ c.blkShift
    let stop := stop / 2 ^ c.blkShift
    match findGood isBad (stop - start) start (block - start) 0 with
    | (some i, _, _) => i
    | (none, ofs, badBlocks) => (findBad isBad ofs stop badBlocks).getD block

end Mapping

/-- The physical block of a logical one under a table. -/
def getMappingBlockIndexBbt (c : RemapRange) (d : Desc) (block : ℕ) : ℕ :=
  mappingBlockIndex (bbtBlockIsBad d.bbtBuf) c block

section Calls

variable {σ Page : Type} (c : RemapRange) (pgSize blkPages : ℕ) (nand : Nand σ BbtBuf Page)

/-- Mark the physical block of a logical one bad, and copy its data up to `copyLen`
bytes to where it is mapped then. -/
def remapBlockBbt (block mappedBlk copyLen : ℕ) (d : Desc) (s : σ) : Bool × Desc × σ :=
  match c.mappingBlockInRange block with
  | none => (false, d, s)
  | some _ =>
    let (d, s) := bbtSetBlockState nand mappedBlk true d s
    let newBlk := getMappingBlockIndexBbt c d block
    let s := (nand.erase s newBlk).2
    let s :=
      if 0 < copyLen then (nand.bbtNandCopy pgSize blkPages newBlk mappedBlk copyLen s).2 else s
    (true, d, s)

end Calls

/-! ## What the table says after a block is marked -/

theorem mask_and_self : ∀ i < 4, 3#8 <<< (i * 2) ≠ 0 := by decide

theorem mask_and_mask : ∀ i < 4, ∀ j < 4, i ≠ j → (3#8 <<< (i * 2)) &&& (3#8 <<< (j * 2)) = 0 := by
  decide

theorem or_mask_and (a m k : BitVec 8) : (a ||| m) &&& k = (a &&& k) ||| (m &&& k) := by
  ext i
  simp [Bool.and_or_distrib_right]

/-- Marking sets the state of one block. -/
theorem bbtBlockIsBad_setBlockBits (buf : BbtBuf) (block : ℕ) :
    bbtBlockIsBad (setBlockBits buf block true) =
      Function.update (bbtBlockIsBad buf) block true := by
  funext other
  unfold bbtBlockIsBad setBlockBits
  by_cases hother : other = block
  · subst hother
    have hmask := mask_and_self (other % 4) (Nat.mod_lt _ (by decide))
    have habsorb : ∀ a m : BitVec 8, (a ||| m) &&& m = m := by
      refine fun a m => BitVec.eq_of_getLsbD_eq fun i hi => ?_
      rw [BitVec.getLsbD_and, BitVec.getLsbD_or]
      cases a.getLsbD i <;> cases m.getLsbD i <;> rfl
    simp only [Function.update_self, if_true, habsorb]
    simpa using hmask
  · rw [Function.update_of_ne hother]
    by_cases hunit : other / 4 = block / 4
    · have hmod : block % 4 ≠ other % 4 := by omega
      have hmask := mask_and_mask (block % 4) (Nat.mod_lt _ (by decide)) (other % 4)
        (Nat.mod_lt _ (by decide)) hmod
      simp only [hunit, Function.update_self, if_true, or_mask_and, hmask]
      simp
    · simp only [Function.update_of_ne hunit]

/-! ## The mapping inverts the rank -/

section Rank

variable {isBad : ℕ → Bool} {lo hi : ℕ}

theorem findGood_some {fuel i ofs badBlocks p : ℕ} {rest : ℕ × ℕ} (hlo : lo ≤ i)
    (h : findGood isBad fuel i ofs badBlocks = (some p, rest)) :
    i ≤ p ∧ p < i + fuel ∧ isBad p = false ∧
      goodBefore isBad lo p = goodBefore isBad lo i + ofs := by
  induction fuel generalizing i ofs badBlocks with
  | zero => cases h
  | succ fuel ih =>
    unfold findGood at h
    split at h
    case isTrue hbad =>
      obtain ⟨hle, hlt, hp, hcount⟩ := ih (by omega) h
      rw [goodBefore_succ_of_bad hbad] at hcount
      exact ⟨by omega, by omega, hp, hcount⟩
    case isFalse hgood =>
      have hgood : isBad i = false := by simpa using hgood
      cases ofs with
      | zero =>
        cases h
        exact ⟨le_rfl, by omega, hgood, rfl⟩
      | succ ofs =>
        obtain ⟨hle, hlt, hp, hcount⟩ := ih (by omega) h
        rw [goodBefore_succ_of_good hlo hgood] at hcount
        exact ⟨by omega, by omega, hp, by omega⟩

theorem findGood_none {fuel i ofs badBlocks ofs' badBlocks' : ℕ} (hlo : lo ≤ i)
    (h : findGood isBad fuel i ofs badBlocks = (none, ofs', badBlocks')) :
    ofs' + goodBefore isBad lo (i + fuel) = ofs + goodBefore isBad lo i ∧
      badBlocks' + badBefore isBad lo i = badBlocks + badBefore isBad lo (i + fuel) := by
  induction fuel generalizing i ofs badBlocks with
  | zero =>
    cases h
    exact ⟨rfl, rfl⟩
  | succ fuel ih =>
    have hnext : i + 1 + fuel = i + (fuel + 1) := by omega
    unfold findGood at h
    split at h
    case isTrue hbad =>
      have hrest := ih (by omega) h
      rw [hnext, goodBefore_succ_of_bad hbad, badBefore_succ_of_bad hlo hbad] at hrest
      omega
    case isFalse hgood =>
      have hgood : isBad i = false := by simpa using hgood
      cases ofs with
      | zero => cases h
      | succ ofs =>
        have hrest := ih (by omega) h
        rw [hnext, goodBefore_succ_of_good hlo hgood, badBefore_succ_of_good hgood] at hrest
        omega

theorem findBad_spec {stop ofs badBlocks : ℕ} (hlo : lo ≤ stop)
    (hcount : badBlocks = badBefore isBad lo stop) (hofs : ofs < badBlocks) :
    ∃ p, findBad isBad ofs stop badBlocks = some p ∧ lo ≤ p ∧ p < stop ∧ isBad p = true ∧
      badBefore isBad lo p = ofs := by
  induction stop generalizing badBlocks with
  | zero =>
    have : lo = 0 := by omega
    subst this
    rw [badBefore_self] at hcount
    omega
  | succ stop ih =>
    have hlo' : lo ≤ stop := by
      by_contra hgt
      have : lo = stop + 1 := by omega
      rw [← this, badBefore_self] at hcount
      omega
    unfold findBad
    rw [if_neg (by omega)]
    cases hbad : isBad stop with
    | false =>
      rw [badBefore_succ_of_good hbad] at hcount
      obtain ⟨p, hp, hplo, hpstop, hrest⟩ := ih hlo' hcount hofs
      rw [if_pos (by simp)]
      exact ⟨p, hp, hplo, by omega, hrest⟩
    | true =>
      rw [badBefore_succ_of_bad hlo' hbad] at hcount
      rw [if_neg (by simp)]
      split
      case isTrue hle => exact ⟨stop, rfl, hlo', by omega, hbad, by omega⟩
      case isFalse hgt =>
        obtain ⟨p, hp, hplo, hpstop, hrest⟩ :=
          ih hlo' (show badBlocks - 1 = badBefore isBad lo stop by omega) (by omega)
        exact ⟨p, hp, hplo, by omega, hrest⟩

variable {c : RemapRange} {block : ℕ}

theorem mappingBlockIndex_of_none (h : c.blockRange block = none) :
    mappingBlockIndex isBad c block = block := by
  unfold RemapRange.blockRange at h
  unfold mappingBlockIndex
  rw [Option.map_eq_none_iff.mp h]

theorem mappingBlockIndex_of_empty (h : c.blockRange block = some (lo, lo)) :
    mappingBlockIndex isBad c block = block := by
  unfold RemapRange.blockRange at h
  obtain ⟨⟨start, stop⟩, hr, heq⟩ := Option.map_eq_some_iff.mp h
  obtain ⟨hstart, hstop⟩ := Prod.mk.inj heq
  unfold mappingBlockIndex
  rw [hr]
  dsimp only at hstart hstop ⊢
  rw [hstart, hstop, Nat.sub_self]
  have hnone : ∀ ofs i, findBad isBad ofs i 0 = none := by
    intro ofs i
    cases i <;> simp [findBad]
  simp [findGood, hnone]

theorem mappingBlockIndex_spec (isBad : ℕ → Bool) (h : c.blockRange block = some (lo, hi))
    (hlo : lo ≤ block) (hhi : block < hi) :
    lo ≤ mappingBlockIndex isBad c block ∧ mappingBlockIndex isBad c block < hi ∧
      rank isBad lo hi (mappingBlockIndex isBad c block) = block - lo := by
  unfold RemapRange.blockRange at h
  obtain ⟨⟨start, stop⟩, hr, heq⟩ := Option.map_eq_some_iff.mp h
  obtain ⟨hstart, hstop⟩ := Prod.mk.inj heq
  unfold mappingBlockIndex
  rw [hr]
  dsimp only at hstart hstop ⊢
  rw [hstart, hstop]
  have hend : lo + (hi - lo) = hi := by omega
  rcases hfind : findGood isBad (hi - lo) lo (block - lo) 0 with ⟨found, ofs, badBlocks⟩
  cases found with
  | some p =>
    obtain ⟨hplo, hphi, hgood, hcount⟩ := findGood_some le_rfl hfind
    rw [hend] at hphi
    rw [goodBefore_self, Nat.zero_add] at hcount
    refine ⟨hplo, hphi, ?_⟩
    rw [rank_of_good hgood]
    exact hcount
  | none =>
    obtain ⟨hofs, hbad⟩ := findGood_none le_rfl hfind
    rw [hend, goodBefore_self] at hofs
    rw [hend, badBefore_self] at hbad
    have htotal : goodBefore isBad lo hi + badBefore isBad lo hi = hi - lo :=
      goodBefore_add_badBefore (by omega)
    have hcounted : badBlocks = badBefore isBad lo hi := by omega
    obtain ⟨p, hp, hplo, hphi, hpbad, hcount⟩ :=
      findBad_spec (by omega) hcounted (show ofs < badBlocks by omega)
    dsimp only
    rw [hp, Option.getD_some]
    refine ⟨hplo, hphi, ?_⟩
    rw [rank_of_bad hpbad]
    omega

theorem mappingBlockIndex_eq {p : ℕ} (h : c.blockRange block = some (lo, hi)) (hlo : lo ≤ block)
    (hhi : block < hi) (hplo : lo ≤ p) (hphi : p < hi) (hrank : rank isBad lo hi p = block - lo) :
    mappingBlockIndex isBad c block = p := by
  obtain ⟨hlo', hhi', hrank'⟩ := mappingBlockIndex_spec isBad h hlo hhi
  exact rank_injective hlo' hhi' hplo hphi (hrank'.trans hrank.symm)

theorem mappingBlockIndex_of_nil (h : c.ranges = []) : mappingBlockIndex isBad c block = block :=
  mappingBlockIndex_of_empty (RemapRange.blockRange_of_nil h block)

/-- Distinct logical blocks are at distinct blocks. -/
theorem mappingBlockIndex_injective {other : ℕ} (hblock : block < c.totalBlks)
    (hother : other < c.totalBlks)
    (h : mappingBlockIndex isBad c block = mappingBlockIndex isBad c other) : block = other := by
  by_cases hnil : c.ranges = []
  · rwa [mappingBlockIndex_of_nil hnil, mappingBlockIndex_of_nil hnil] at h
  have hranged : ∀ {i j lo hi : ℕ}, i < c.totalBlks → j < c.totalBlks →
      c.blockRange i = some (lo, hi) →
      mappingBlockIndex isBad c i = mappingBlockIndex isBad c j → i = j := by
    intro i j lo hi hi' hj hrange hij
    obtain ⟨-, hlo, hhi⟩ := RemapRange.mem_of_blockRange hnil hi' hrange
    obtain ⟨hplo, hphi, hrank⟩ := mappingBlockIndex_spec isBad hrange hlo hhi
    by_cases hsame : c.blockRange j = some (lo, hi)
    · obtain ⟨-, hjlo, hjhi⟩ := RemapRange.mem_of_blockRange hnil hj hsame
      obtain ⟨-, -, hjrank⟩ := mappingBlockIndex_spec isBad hsame hjlo hjhi
      rw [hij, hjrank] at hrank
      omega
    · obtain ⟨houtside, hapart⟩ := RemapRange.blockRange_apart hi' hj hrange hsame
      cases hrangej : c.blockRange j with
      | none =>
        rw [hij, mappingBlockIndex_of_none hrangej] at hplo hphi
        omega
      | some r =>
        obtain ⟨lo', hi''⟩ := r
        obtain ⟨-, hjlo, hjhi⟩ := RemapRange.mem_of_blockRange hnil hj hrangej
        obtain ⟨hqlo, hqhi, -⟩ := mappingBlockIndex_spec isBad hrangej hjlo hjhi
        have := hapart lo' hi'' hrangej
        omega
  cases hrange : c.blockRange block with
  | some r => exact hranged hblock hother hrange h
  | none =>
    cases hrange' : c.blockRange other with
    | some r => exact (hranged hother hblock hrange' h.symm).symm
    | none => rwa [mappingBlockIndex_of_none hrange, mappingBlockIndex_of_none hrange'] at h

/-! ## Marking the block of a logical block bad -/

/-- The logical blocks before it, and those outside its range, stay where they are. -/
theorem mappingBlockIndex_mark {other : ℕ} (hblock : block < c.totalBlks)
    (hother : other < c.totalBlks)
    (hkept : other < block ∨ c.blockRange other ≠ c.blockRange block) :
    mappingBlockIndex (Function.update isBad (mappingBlockIndex isBad c block) true) c other =
      mappingBlockIndex isBad c other := by
  by_cases hnil : c.ranges = []
  · rw [mappingBlockIndex_of_nil hnil, mappingBlockIndex_of_nil hnil]
  cases hrange : c.blockRange other with
  | none => rw [mappingBlockIndex_of_none hrange, mappingBlockIndex_of_none hrange]
  | some r =>
    obtain ⟨lo, hi⟩ := r
    obtain ⟨-, hlo, hhi⟩ := RemapRange.mem_of_blockRange hnil hother hrange
    obtain ⟨hplo, hphi, hrank⟩ := mappingBlockIndex_spec isBad hrange hlo hhi
    refine mappingBlockIndex_eq hrange hlo hhi hplo hphi ?_
    rw [← hrank]
    by_cases hsame : c.blockRange block = some (lo, hi)
    · have hlt : other < block := hkept.resolve_right fun hne => hne (hrange.trans hsame.symm)
      obtain ⟨-, hblo, hbhi⟩ := RemapRange.mem_of_blockRange hnil hblock hsame
      obtain ⟨hqlo, hqhi, hbrank⟩ := mappingBlockIndex_spec isBad hsame hblo hbhi
      cases hbad : isBad (mappingBlockIndex isBad c block) with
      | true => rw [← hbad, Function.update_eq_self]
      | false =>
        -- a smaller rank than a good block's is that of a good block before it
        have hbefore := (rank_lt_iff hqlo hqhi).mpr hbad
        have hgood : isBad (mappingBlockIndex isBad c other) = false :=
          (rank_lt_iff hplo hphi).mp (by omega)
        rw [rank_of_good hgood] at hrank
        rw [rank_of_good hbad] at hbrank
        refine rank_mark_of_lt hgood ?_
        by_contra hle
        have : goodBefore isBad lo _ ≤ goodBefore isBad lo _ :=
          goodBefore_mono (Nat.le_of_not_lt hle)
        omega
    · obtain ⟨houtside, hapart⟩ := RemapRange.blockRange_apart hother hblock hrange hsame
      refine rank_mark_of_outside ?_ hphi hplo
      cases hrangeb : c.blockRange block with
      | none =>
        rw [mappingBlockIndex_of_none hrangeb]
        omega
      | some r =>
        obtain ⟨lo', hi'⟩ := r
        obtain ⟨-, hblo, hbhi⟩ := RemapRange.mem_of_blockRange hnil hblock hrangeb
        obtain ⟨hqlo, hqhi, -⟩ := mappingBlockIndex_spec isBad hrangeb hblo hbhi
        have := hapart lo' hi' hrangeb
        omega

/-- The blocks after it move to the block of their successor, as long as that is good. -/
theorem mappingBlockIndex_mark_after {other : ℕ} (h : c.blockRange block = some (lo, hi))
    (hlo : lo ≤ block) (hlt : block < other) (hhi : other + 1 < hi)
    (hsame : c.blockRange other = some (lo, hi)) (hsucc : c.blockRange (other + 1) = some (lo, hi))
    (hgood : isBad (mappingBlockIndex isBad c (other + 1)) = false) :
    mappingBlockIndex (Function.update isBad (mappingBlockIndex isBad c block) true) c other =
      mappingBlockIndex isBad c (other + 1) := by
  obtain ⟨hqlo, hqhi, hbrank⟩ := mappingBlockIndex_spec isBad h hlo (by omega)
  obtain ⟨hplo, hphi, hrank⟩ := mappingBlockIndex_spec isBad hsucc (by omega) hhi
  have hbefore := (rank_lt_iff hplo hphi).mpr hgood
  have hbad : isBad (mappingBlockIndex isBad c block) = false :=
    (rank_lt_iff hqlo hqhi).mp (by omega)
  refine mappingBlockIndex_eq hsame (by omega) (by omega) hplo hphi ?_
  have hmoved : mappingBlockIndex isBad c block < mappingBlockIndex isBad c (other + 1) := by
    rw [rank_of_good hgood] at hrank
    rw [rank_of_good hbad] at hbrank
    by_contra hle
    have : goodBefore isBad lo _ ≤ goodBefore isBad lo _ := goodBefore_mono (Nat.le_of_not_lt hle)
    omega
  have hmark : rank _ lo hi _ + 1 = rank isBad lo hi _ := rank_mark_of_gt hqlo hbad hgood hmoved
  omega

end Rank

/-! ## Calls -/

section Frame

variable {σ Page : Type} {c : RemapRange} {nand : Nand σ BbtBuf Page}

/-- A remap writes the block of the table and the block that is mapped then. -/
theorem remapBlockBbt_sameBlock (hlocal : nand.Local) {pgSize blkPages block mappedBlk copyLen : ℕ}
    {d : Desc} {s : σ} {p : ℕ} (htable : p ≠ d.bmtBlkIdx)
    (hnew : p ≠ getMappingBlockIndexBbt c
      (remapBlockBbt c pgSize blkPages nand block mappedBlk copyLen d s).2.1 block) :
    nand.SameBlock s (remapBlockBbt c pgSize blkPages nand block mappedBlk copyLen d s).2.2 p := by
  unfold remapBlockBbt at hnew ⊢
  split
  case h_1 => exact .refl s p
  case h_2 r hr =>
    rw [hr] at hnew
    dsimp only [bbtSetBlockState] at hnew ⊢
    have htableSame : nand.SameBlock s (nand.writeTable (nand.erase s d.bmtBlkIdx).2 d.bmtBlkIdx
        signature (setBlockBits d.bbtBuf mappedBlk true)).2 p :=
      (hlocal.erase htable).trans (hlocal.writeTable htable)
    have hsame := htableSame.trans (hlocal.erase hnew)
    split
    case isTrue => exact hsame.trans (hlocal.bbtNandCopy hnew _)
    case isFalse => exact hsame

end Frame

end OpenWrt.MtkBmt.Bbt
