/-
# The version 2 table maps blocks apart

The scan gives the logical blocks distinct homes below the pool, a remap gives
one of them a spare that no other block has, and the table's own block is never
a spare in use. This module carries these facts through every sequence of remaps
and unmaps and every pattern of failing erases and writes.

An unmap puts a block on the physical block of the same number. That is its home
only when the scan met no bad block before it; an unmap of a shifted block maps
it onto a bad block or onto the home of its neighbour. A table that no pool block
takes is lost, with its index: what follows reads outside the table.
-/

import Mathlib.Order.Nat
import OpenWrt.Lib.Run
import OpenWrt.MtkBmt.V2

namespace OpenWrt.MtkBmt.V2

open OpenWrt.Lib

/-! ## What the scan builds -/

section Scan

variable {c : Config} {isBad : ℕ → Bool}

theorem findValidBlockFrom_spec {loops block found : ℕ}
    (h : findValidBlockFrom c isBad loops block = found) (hne : found ≠ 0) :
    block ≤ found ∧ found < c.totalBlks ∧ isBad found = false := by
  induction loops generalizing block with
  | zero =>
    unfold findValidBlockFrom at h
    split at h
    case isTrue => exact absurd h.symm hne
    case isFalse hlt =>
      split at h
      case isTrue => exact absurd h.symm hne
      case isFalse hgood =>
        subst h
        exact ⟨le_refl _, by omega, by simpa using hgood⟩
  | succ loops ih =>
    unfold findValidBlockFrom at h
    split at h
    case isTrue => exact absurd h.symm hne
    case isFalse hlt =>
      split at h
      case isTrue =>
        obtain ⟨hle, hrest⟩ := ih h
        exact ⟨by omega, hrest⟩
      case isFalse hgood =>
        subst h
        exact ⟨le_refl _, by omega, by simpa using hgood⟩

theorem findValidBlock_spec {block : ℕ} (hne : findValidBlock c isBad block ≠ 0) :
    block ≤ findValidBlock c isBad block ∧ findValidBlock c isBad block < c.totalBlks ∧
      isBad (findValidBlock c isBad block) = false :=
  findValidBlockFrom_spec rfl hne

/-- The homes of the logical blocks up to `n`: they grow, and all but the first
were read as good. -/
structure Homes (isBad : ℕ → Bool) (n : ℕ) (home : ℕ → ℕ) : Prop where
  zero : home 0 = 0
  lt_succ : ∀ i < n, home i < home (i + 1)
  good : ∀ i < n, isBad (home (i + 1)) = false

theorem Homes.strictMono {n : ℕ} {home : ℕ → ℕ} (h : Homes isBad n home) {i j : ℕ}
    (hij : i < j) (hj : j ≤ n) : home i < home j := by
  induction j, hij using Nat.le_induction with
  | base => exact h.lt_succ i (by omega)
  | succ j hij ih => exact (ih (by omega)).trans (h.lt_succ j (by omega))

theorem Homes.le_home {n : ℕ} {home : ℕ → ℕ} (h : Homes isBad n home) {i : ℕ} (hi : i ≤ n) :
    i ≤ home i := by
  induction i with
  | zero => omega
  | succ i ih =>
    have := ih (by omega)
    have := h.lt_succ i (by omega)
    omega

theorem Homes.not_bad {n : ℕ} {home : ℕ → ℕ} (h : Homes isBad n home) {i : ℕ} (hi : i ≤ n) :
    home i = 0 ∨ isBad (home i) = false := by
  cases i with
  | zero => exact .inl h.zero
  | succ i => exact .inr (h.good i (by omega))

theorem scanData_spec {old home : ℕ → ℕ} {n : ℕ} (h : scanData c isBad old n = some home) :
    Homes isBad n home := by
  induction n generalizing home with
  | zero =>
    cases h
    exact ⟨by simp, by omega, by omega⟩
  | succ n ih =>
    simp only [scanData, Option.bind_eq_bind, Option.bind_eq_some_iff] at h
    obtain ⟨before, hbefore, h⟩ := h
    split at h
    case isTrue => cases h
    case isFalse hne =>
      cases h
      have hprev := ih hbefore
      obtain ⟨hle, -, hgood⟩ := findValidBlock_spec hne
      have hold : ∀ i ≤ n, Function.update before (n + 1)
          (findValidBlock c isBad (before n + 1)) i = before i :=
        fun i hi => Function.update_of_ne (by omega) _ _
      refine ⟨by rw [hold 0 (by omega), hprev.zero], fun i hi => ?_, fun i hi => ?_⟩
      · rw [hold i (by omega)]
        rcases Nat.lt_succ_iff_lt_or_eq.mp hi with hlt | rfl
        · rw [hold (i + 1) (by omega)]
          exact hprev.lt_succ i hlt
        · rw [Function.update_self]
          omega
      · rcases Nat.lt_succ_iff_lt_or_eq.mp hi with hlt | rfl
        · rw [hold (i + 1) (by omega)]
          exact hprev.good i hlt
        · rw [Function.update_self]
          exact hgood

/-- The entries from `i` to `j` are free good blocks from `low` on, in growing
order. -/
structure PoolPart (c : Config) (isBad : ℕ → Bool) (low i j : ℕ) (bmtTbl : ℕ → Bbmt) :
    Prop where
  low_le : ∀ k, i ≤ k → k < j → low ≤ (bmtTbl k).block
  lt_total : ∀ k, i ≤ k → k < j → (bmtTbl k).block < c.totalBlks
  good : ∀ k, i ≤ k → k < j → isBad (bmtTbl k).block = false
  mono : ∀ k l, i ≤ k → k < l → l < j → (bmtTbl k).block < (bmtTbl l).block
  free : ∀ k, i ≤ k → k < j → (bmtTbl k).mapped = .noMapped

theorem scanPool_spec {fuel block i : ℕ} {bmtTbl : ℕ → Bbmt} :
    i ≤ (scanPool c isBad fuel block i bmtTbl).2 ∧
      (∀ k, k < i ∨ (scanPool c isBad fuel block i bmtTbl).2 ≤ k →
        (scanPool c isBad fuel block i bmtTbl).1 k = bmtTbl k) ∧
      PoolPart c isBad block i (scanPool c isBad fuel block i bmtTbl).2
        (scanPool c isBad fuel block i bmtTbl).1 := by
  induction fuel generalizing block i bmtTbl with
  | zero =>
    unfold scanPool
    exact ⟨le_refl _, fun _ _ => rfl, by constructor <;> intros <;> omega⟩
  | succ fuel ih =>
    unfold scanPool
    dsimp only
    split
    case isTrue =>
      exact ⟨le_refl _, fun _ _ => rfl, by constructor <;> intros <;> omega⟩
    case isFalse hne =>
      obtain ⟨hle, hlt, hgood⟩ := findValidBlock_spec hne
      generalize findValidBlock c isBad block = found at *
      obtain ⟨hi, hsame, hpart⟩ :=
        @ih (found + 1) (i + 1) (Function.update bmtTbl i ⟨found, .noMapped⟩)
      generalize scanPool c isBad fuel (found + 1) (i + 1)
        (Function.update bmtTbl i ⟨found, .noMapped⟩) = result at *
      have hhead : result.1 i = ⟨found, .noMapped⟩ := by
        rw [hsame i (.inl (by omega)), Function.update_self]
      refine ⟨by omega, fun k hk => ?_, ?_⟩
      · rw [hsame k (by omega), Function.update_of_ne (by omega)]
      · constructor
        · intro k hik hkj
          rcases Nat.eq_or_lt_of_le hik with rfl | hlater
          · rw [hhead]
            exact hle
          · have := hpart.low_le k (by omega) hkj
            omega
        · intro k hik hkj
          rcases Nat.eq_or_lt_of_le hik with rfl | hlater
          · rw [hhead]
            exact hlt
          · exact hpart.lt_total k (by omega) hkj
        · intro k hik hkj
          rcases Nat.eq_or_lt_of_le hik with rfl | hlater
          · rw [hhead]
            exact hgood
          · exact hpart.good k (by omega) hkj
        · intro k l hik hkl hlj
          rcases Nat.eq_or_lt_of_le hik with rfl | hlater
          · have := hpart.low_le l (by omega) hlj
            rw [hhead]
            dsimp only
            omega
          · exact hpart.mono k l (by omega) hkl hlj
        · intro k hik hkj
          rcases Nat.eq_or_lt_of_le hik with rfl | hlater
          · rw [hhead]
          · exact hpart.free k (by omega) hkj

/-- Both tables as the scan leaves them. -/
structure ScanResult (c : Config) (isBad : ℕ → Bool) (d : Desc) : Prop where
  homes : Homes isBad (c.poolLba - 1) d.bbt.bbTbl
  poolPba : d.poolPba = d.bbt.bbTbl (c.poolLba - 1) + 1
  past_end : ∀ k, d.bmtBlkIdx < k → d.poolBlock k = 0
  low : ∀ k ≤ d.bmtBlkIdx, d.poolPba ≤ d.poolBlock k
  high : ∀ k ≤ d.bmtBlkIdx, d.poolBlock k < c.totalBlks
  good : ∀ k ≤ d.bmtBlkIdx, isBad (d.poolBlock k) = false
  mono : ∀ k l, k < l → l ≤ d.bmtBlkIdx → d.poolBlock k < d.poolBlock l
  free : ∀ k < d.bmtBlkIdx, d.poolUse k = .noMapped
  table : d.poolUse d.bmtBlkIdx = .bmtMapped

theorem scanBadBlocks_spec {bbt : Bbbt} {d : Desc} (hempty : ∀ k, (bbt.bmtTbl k).block = 0)
    (h : scanBadBlocks c isBad bbt = some d) : ScanResult c isBad d := by
  simp only [scanBadBlocks, Option.bind_eq_bind, Option.bind_eq_some_iff] at h
  obtain ⟨home, hhome, h⟩ := h
  split at h
  case isTrue => cases h
  case isFalse =>
    obtain ⟨-, hsame, hpart⟩ :=
      @scanPool_spec c isBad c.totalBlks (home (c.poolLba - 1) + 1) 0 bbt.bmtTbl
    generalize scanPool c isBad c.totalBlks (home (c.poolLba - 1) + 1) 0 bbt.bmtTbl = result at *
    obtain ⟨bmtTbl, i⟩ := result
    dsimp only at hsame hpart h
    split at h
    case isTrue => cases h
    case isFalse hi =>
      cases h
      have hblock : ∀ k, (Function.update bmtTbl (i - 1) ⟨(bmtTbl (i - 1)).block, .bmtMapped⟩
          k).block = (bmtTbl k).block := by
        intro k
        by_cases hk : k = i - 1
        · rw [hk, Function.update_self]
        · rw [Function.update_of_ne hk]
      constructor <;> simp only [Desc.poolBlock, Desc.poolUse, hblock]
      · exact scanData_spec hhome
      · intro k hk
        rw [hsame k (.inr (by omega))]
        exact hempty k
      · exact fun k hk => hpart.low_le k (by omega) (by omega)
      · exact fun k hk => hpart.lt_total k (by omega) (by omega)
      · exact fun k hk => hpart.good k (by omega) (by omega)
      · exact fun k l hkl hl => hpart.mono k l (by omega) hkl (by omega)
      · intro k hk
        rw [Function.update_of_ne (by omega)]
        exact hpart.free k (by omega) (by omega)
      · rw [Function.update_self]

/-- The entries grow, so an index is not above its block. -/
theorem ScanResult.index_lt {d : Desc} (h : ScanResult c isBad d) :
    d.bmtBlkIdx < c.totalBlks := by
  have hle : ∀ k ≤ d.bmtBlkIdx, k ≤ d.poolBlock k := by
    intro k hk
    induction k with
    | zero => omega
    | succ k ih =>
      have := ih (by omega)
      have := h.mono k (k + 1) (by omega) hk
      omega
  have := hle _ le_rfl
  have := h.high _ le_rfl
  omega

theorem ScanResult.poolLba_le_poolPba {d : Desc} (h : ScanResult c isBad d) :
    c.poolLba ≤ d.poolPba := by
  have := h.homes.le_home le_rfl
  have := c.poolLba_pos
  have := h.poolPba
  omega

end Scan

/-! ## What an upload changes -/

section Upload

variable {σ Page : Type} {nand : Nand σ Bbbt Page}

@[simp] theorem Bbbt.sign_bbTbl (bbt : Bbbt) : bbt.sign.bbTbl = bbt.bbTbl := rfl

@[simp] theorem Bbbt.sign_bmtTbl (bbt : Bbbt) : bbt.sign.bmtTbl = bbt.bmtTbl := rfl

@[simp] theorem Bbbt.drop_bbTbl (bbt : Bbbt) (n : ℕ) : (bbt.drop n).bbTbl = bbt.bbTbl := rfl

theorem Bbbt.drop_mapped (bbt : Bbbt) (n k : ℕ) :
    ((bbt.drop n).bmtTbl k).mapped = (bbt.bmtTbl k).mapped := by
  unfold Bbbt.drop
  by_cases hk : k = n
  · simp [hk]
  · simp [hk]

theorem Bbbt.drop_block_self (bbt : Bbbt) (n : ℕ) : ((bbt.drop n).bmtTbl n).block = 0 := by
  simp [Bbbt.drop]

theorem Bbbt.drop_block_of_ne (bbt : Bbbt) {n k : ℕ} (hk : k ≠ n) :
    ((bbt.drop n).bmtTbl k).block = (bbt.bmtTbl k).block := by
  simp [Bbbt.drop, hk]

/-- Storing a table below entry `n` keeps the mapping and the uses, drops
entries that are not spares in use, and ends at an entry that is kept, as are
all below it. -/
structure Stored (n : ℕ) (before : Bbbt) (index : ℕ) (after : Bbbt) : Prop where
  bbTbl : after.bbTbl = before.bbTbl
  mapped : ∀ k, (after.bmtTbl k).mapped = (before.bmtTbl k).mapped
  block : ∀ k, (after.bmtTbl k).block = (before.bmtTbl k).block ∨
    ((after.bmtTbl k).block = 0 ∧ (before.bmtTbl k).mapped ≠ .normalMapped)
  index : index = noIndex ∨ (index < n ∧ (before.bmtTbl index).mapped ≠ .normalMapped ∧
    ∀ k ≤ index, (after.bmtTbl k).block = (before.bmtTbl k).block)

/-- A failed try drops its entry and goes on below. -/
theorem Stored.of_drop {n index : ℕ} {before signed after : Bbbt}
    (hbbTbl : signed.bbTbl = before.bbTbl) (hbmtTbl : signed.bmtTbl = before.bmtTbl)
    (huse : (before.bmtTbl n).mapped ≠ .normalMapped)
    (h : Stored n (signed.drop n) index after) : Stored (n + 1) before index after := by
  obtain ⟨hmap, hmapped, hblock, hindex⟩ := h
  simp only [Bbbt.drop_mapped, hbmtTbl] at hmapped hblock hindex
  refine ⟨by rw [hmap, Bbbt.drop_bbTbl, hbbTbl], hmapped, fun k => ?_, ?_⟩
  · have hk := hblock k
    by_cases hkn : k = n
    · subst hkn
      rw [Bbbt.drop_block_self] at hk
      exact .inr ⟨hk.elim id And.left, huse⟩
    · rwa [Bbbt.drop_block_of_ne _ hkn, hbmtTbl] at hk
  · refine hindex.imp id fun ⟨hlt, hnormal, hbelow⟩ => ⟨by omega, hnormal, fun k hk => ?_⟩
    rw [hbelow k hk, Bbbt.drop_block_of_ne _ (by omega), hbmtTbl]

theorem uploadFrom_spec {n : ℕ} {bbt : Bbbt} {s : σ} :
    Stored n bbt (uploadFrom nand n bbt s).1 (uploadFrom nand n bbt s).2.1 := by
  induction n generalizing bbt s with
  | zero => exact ⟨rfl, fun _ => rfl, fun _ => .inl rfl, .inl rfl⟩
  | succ n ih =>
    unfold uploadFrom
    split
    case isTrue => exact ⟨rfl, fun _ => rfl, fun _ => .inl rfl, .inl rfl⟩
    case isFalse huse =>
      split
      case h_1 => exact .of_drop rfl rfl huse ih
      case h_2 =>
        split
        case h_1 => exact .of_drop (bbt.sign_bbTbl) (bbt.sign_bmtTbl) huse ih
        case h_2 =>
          exact ⟨rfl, fun _ => rfl, fun _ => .inl rfl,
            .inr ⟨Nat.lt_succ_self n, huse, fun _ _ => rfl⟩⟩

/-- The same for the memory of the driver. -/
structure Uploaded (before after : Desc) : Prop where
  bbTbl : after.bbt.bbTbl = before.bbt.bbTbl
  poolPba : after.poolPba = before.poolPba
  use : ∀ k, after.poolUse k = before.poolUse k
  block : ∀ k, after.poolBlock k = before.poolBlock k ∨
    (after.poolBlock k = 0 ∧ before.poolUse k ≠ .normalMapped)
  index : after.bmtBlkIdx = noIndex ∨
    (after.bmtBlkIdx ≤ before.bmtBlkIdx ∧ before.poolUse after.bmtBlkIdx ≠ .normalMapped ∧
      ∀ k ≤ after.bmtBlkIdx, after.poolBlock k = before.poolBlock k)

theorem upload_spec (nand : Nand σ Bbbt Page) (d : Desc) (s : σ) :
    Uploaded d (upload nand d s).1 := by
  obtain ⟨hmap, huse, hblock, hindex⟩ := @uploadFrom_spec σ Page nand (d.bmtBlkIdx + 1) d.bbt s
  exact ⟨hmap, rfl, huse, hblock, hindex.imp id fun h => ⟨Nat.lt_succ_iff.mp h.1, h.2⟩⟩

end Upload

/-! ## Runs -/

/-- What the generic layer asks of the table for a logical block. -/
inductive Call
  | /-- The block failed: move it, with its data up to the given length. -/
    remap (block copyLen : ℕ)
  | /-- The block is good again: put it back. -/
    unmap (block : ℕ)
  deriving DecidableEq

/-- A table in use. Beside it stand the mapping the scan made, the blocks the
scan read as bad, and the blocks that were given up since. -/
structure Instance (σ : Type) where
  desc : Desc
  dev : σ
  home : ℕ → ℕ
  factoryBad : ℕ → Bool
  worn : List ℕ

/-- The pool blocks that did not take the table. -/
def droppedBlocks (before after : Desc) : List ℕ :=
  ((List.range (before.bmtBlkIdx + 1)).filter fun k =>
    after.poolBlock k ≠ before.poolBlock k).map before.poolBlock

section Run

variable {σ Page : Type} (c : Config) (nand : Nand σ Bbbt Page)

/-- The table a first boot builds. -/
def Instance.create (old : Bbbt) (s : σ) : Option (Instance σ) := do
  let scanned ← scanBadBlocks c (blockBad nand s) (emptyBbt old)
  let (desc, dev) ← initFresh c nand old s
  some
    { desc := desc
      dev := dev
      home := scanned.bbt.bbTbl
      factoryBad := fun block => decide (0 < block) && blockBad nand s block
      worn := droppedBlocks scanned desc }

/-- One call for a logical block. A remap gives up the block that failed, an
unmap takes back the one it names, and either gives up the pool blocks that do
not take the table. -/
def Instance.next (st : Instance σ) : Call → Option (Instance σ)
  | .remap block copyLen =>
    if block < c.poolLba then
      match remapBlockV2 c nand block (st.desc.bbt.bbTbl block) copyLen st.desc st.dev with
      | (false, _, _) => some st
      | (true, desc, dev) =>
        some { st with
          desc := desc
          dev := dev
          worn := droppedBlocks st.desc desc ++ st.desc.bbt.bbTbl block :: st.worn }
    else none
  | .unmap block =>
    if block < c.poolLba then
      match unmapBlockV2 nand block st.desc st.dev with
      | (desc, dev) =>
        some { st with
          desc := desc
          dev := dev
          worn := droppedBlocks st.desc desc ++ st.worn.filter (· ≠ block) }
    else none

/-- Every sequence of calls from a first boot, over every behaviour of the
driver. -/
def system : System (Instance σ) Call :=
  .ofFn (fun st => ∃ old s, Instance.create c nand old s = some st) (Instance.next c nand)

/-- The logical blocks have distinct physical blocks, none of them a bad one or
the table's. -/
structure Instance.Apart (st : Instance σ) : Prop where
  injective : ∀ i < c.poolLba, ∀ j < c.poolLba,
    st.desc.bbt.bbTbl i = st.desc.bbt.bbTbl j → i = j
  not_factoryBad : ∀ i < c.poolLba, st.factoryBad (st.desc.bbt.bbTbl i) = false
  not_worn : ∀ i < c.poolLba, st.desc.bbt.bbTbl i ∉ st.worn
  not_table : st.desc.bmtBlkIdx ≠ noIndex → ∀ i < c.poolLba,
    st.desc.bbt.bbTbl i ≠ st.desc.tableBlock

/-- The table has a place, and an unmap names a block whose home has its number. -/
def Instance.Sound (st : Instance σ) (call : Call) : Prop :=
  st.desc.bmtBlkIdx ≠ noIndex ∧
    match call with
    | .remap _ _ => True
    | .unmap block => st.home block = block

instance (st : Instance σ) : (call : Call) → Decidable (st.Sound call)
  | .remap _ _ => inferInstanceAs (Decidable (_ ∧ True))
  | .unmap block => inferInstanceAs (Decidable (_ ∧ st.home block = block))

end Run

/-! ## The invariant -/

/-- The homes are distinct good blocks below the pool. -/
structure Scanned (c : Config) (home : ℕ → ℕ) (factoryBad : ℕ → Bool) (poolPba : ℕ) :
    Prop where
  lt_pool : ∀ i < c.poolLba, home i < poolPba
  injective : ∀ i < c.poolLba, ∀ j < c.poolLba, home i = home j → i = j
  good : ∀ i < c.poolLba, factoryBad (home i) = false

/-- The entries of the pool are distinct good blocks from the pool's start on. -/
structure PoolSound (factoryBad : ℕ → Bool) (d : Desc) : Prop where
  low : ∀ k, d.poolBlock k ≠ 0 → d.poolPba ≤ d.poolBlock k
  good : ∀ k, d.poolBlock k ≠ 0 → factoryBad (d.poolBlock k) = false
  injective : ∀ k l, d.poolBlock k ≠ 0 → d.poolBlock k = d.poolBlock l → k = l

/-- Each logical block is at its home or at a spare in use, apart from the others,
and no block that was given up is mapped or can be taken. -/
structure MapSound (c : Config) (home : ℕ → ℕ) (worn : List ℕ) (d : Desc) : Prop where
  mapped : ∀ i < c.poolLba, d.bbt.bbTbl i = home i ∨
    ∃ k, d.poolUse k = .normalMapped ∧ d.poolBlock k ≠ 0 ∧ d.bbt.bbTbl i = d.poolBlock k
  injective : ∀ i < c.poolLba, ∀ j < c.poolLba, d.bbt.bbTbl i = d.bbt.bbTbl j → i = j
  worn_used : ∀ w ∈ worn, ∀ k, d.poolBlock k ≠ 0 → d.poolBlock k = w →
    d.poolUse k = .normalMapped
  worn_unmapped : ∀ w ∈ worn, ∀ i < c.poolLba, d.bbt.bbTbl i ≠ w

/-- The table is in an entry that is not a spare in use, and no entry up to it
is lost. -/
def IndexSound (d : Desc) : Prop :=
  d.bmtBlkIdx ≠ noIndex →
    d.poolUse d.bmtBlkIdx ≠ .normalMapped ∧ ∀ k ≤ d.bmtBlkIdx, d.poolBlock k ≠ 0

section Preservation

variable {c : Config} {home : ℕ → ℕ} {factoryBad : ℕ → Bool} {worn : List ℕ} {d d' : Desc}

theorem Uploaded.poolSound (h : Uploaded d d') (hpool : PoolSound factoryBad d) :
    PoolSound factoryBad d' := by
  have hsame : ∀ k, d'.poolBlock k ≠ 0 → d'.poolBlock k = d.poolBlock k :=
    fun k hk => (h.block k).resolve_right fun hzero => hk hzero.1
  refine ⟨fun k hk => ?_, fun k hk => ?_, fun k l hk hkl => ?_⟩
  · rw [h.poolPba, hsame k hk]
    exact hpool.low k (hsame k hk ▸ hk)
  · rw [hsame k hk]
    exact hpool.good k (hsame k hk ▸ hk)
  · have hl : d'.poolBlock l ≠ 0 := hkl ▸ hk
    rw [hsame k hk, hsame l hl] at hkl
    exact hpool.injective k l (hsame k hk ▸ hk) hkl

theorem Uploaded.indexSound (h : Uploaded d d') (hindex : IndexSound d)
    (hhas : d.bmtBlkIdx ≠ noIndex) : IndexSound d' := by
  intro hhas'
  obtain ⟨hle, huse, hbelow⟩ := h.index.resolve_left hhas'
  refine ⟨by rwa [h.use], fun k hk => ?_⟩
  rw [hbelow k hk]
  exact (hindex hhas).2 k (by omega)

theorem Uploaded.exists_of_mem_droppedBlocks (h : Uploaded d d') {w : ℕ}
    (hw : w ∈ droppedBlocks d d') :
    ∃ k, d.poolBlock k = w ∧ d'.poolBlock k = 0 ∧ w ≠ 0 ∧ d.poolUse k ≠ .normalMapped := by
  obtain ⟨k, hk, rfl⟩ := List.mem_map.mp hw
  have hne : d'.poolBlock k ≠ d.poolBlock k := by simpa using (List.mem_filter.mp hk).2
  obtain ⟨hzero, huse⟩ := (h.block k).resolve_left hne
  exact ⟨k, rfl, hzero, fun heq => hne (hzero.trans heq.symm), huse⟩

/-- An upload keeps the mapping sound, also against the blocks it gives up. -/
theorem Uploaded.mapSound (h : Uploaded d d') (hscan : Scanned c home factoryBad d.poolPba)
    (hpool : PoolSound factoryBad d) (hmap : MapSound c home worn d) :
    MapSound c home (droppedBlocks d d' ++ worn) d' := by
  have hsame : ∀ k, d'.poolBlock k ≠ 0 → d'.poolBlock k = d.poolBlock k :=
    fun k hk => (h.block k).resolve_right fun hzero => hk hzero.1
  have hspare : ∀ k, d.poolUse k = .normalMapped → d'.poolBlock k = d.poolBlock k :=
    fun k hk => (h.block k).resolve_right fun hzero => hzero.2 hk
  refine ⟨fun i hi => ?_, ?_, fun w hw k hk hkw => ?_, fun w hw i hi => ?_⟩
  · rw [h.bbTbl]
    refine (hmap.mapped i hi).imp id fun ⟨k, huse, hne, hik⟩ => ⟨k, ?_⟩
    rw [h.use, hspare k huse]
    exact ⟨huse, hne, hik⟩
  · rw [h.bbTbl]
    exact hmap.injective
  · rw [h.use]
    rw [hsame k hk] at hkw
    rcases List.mem_append.mp hw with hdropped | hworn
    · obtain ⟨l, hl, hzero, hw0, -⟩ := h.exists_of_mem_droppedBlocks hdropped
      have hkl : k = l := hpool.injective k l (hkw ▸ hw0) (hkw.trans hl.symm)
      exact absurd (hkl ▸ hzero) hk
    · exact hmap.worn_used w hworn k (hsame k hk ▸ hk) hkw
  · rw [h.bbTbl]
    rcases List.mem_append.mp hw with hdropped | hworn
    · obtain ⟨l, hl, -, hw0, huse⟩ := h.exists_of_mem_droppedBlocks hdropped
      intro hiw
      rcases hmap.mapped i hi with hhome | ⟨k, hk, hne, hik⟩
      · have := hscan.lt_pool i hi
        have := hpool.low l (hl ▸ hw0)
        omega
      · have hkl : k = l := hpool.injective k l hne (by rw [← hik, hiw, hl])
        exact huse (hkl ▸ hk)
    · exact hmap.worn_unmapped w hworn i hi

@[simp] theorem Desc.assign_poolBlock (d : Desc) (block k l : ℕ) :
    (d.assign block k).poolBlock l = d.poolBlock l := by
  unfold Desc.assign Desc.poolBlock Bbbt.map Bbbt.use
  by_cases hl : l = k
  · simp [hl]
  · simp [hl]

theorem Desc.assign_poolUse_self (d : Desc) (block k : ℕ) :
    (d.assign block k).poolUse k = .normalMapped := by
  simp [Desc.assign, Desc.poolUse, Bbbt.map, Bbbt.use]

theorem Desc.assign_poolUse_of_ne (d : Desc) (block : ℕ) {k l : ℕ} (hl : l ≠ k) :
    (d.assign block k).poolUse l = d.poolUse l := by
  simp [Desc.assign, Desc.poolUse, Bbbt.map, Bbbt.use, hl]

theorem Desc.assign_bbTbl_self (d : Desc) (block k : ℕ) :
    (d.assign block k).bbt.bbTbl block = d.poolBlock k := by
  simp [Desc.assign, Bbbt.map]

theorem Desc.assign_bbTbl_of_ne (d : Desc) {block i : ℕ} (k : ℕ) (hi : i ≠ block) :
    (d.assign block k).bbt.bbTbl i = d.bbt.bbTbl i := by
  simp [Desc.assign, Bbbt.map, Bbbt.use, hi]

theorem findValidBlockInPool_spec {k : ℕ} (h : findValidBlockInPool d = some k) :
    k < d.bmtBlkIdx ∧ d.poolBlock k ≠ 0 ∧ d.poolUse k = .noMapped := by
  have hfree := List.find?_some h
  have hmem := List.mem_range.mp (List.mem_of_find?_eq_some h)
  simp only [Bool.and_eq_true, decide_eq_true_eq] at hfree
  exact ⟨hmem, hfree⟩

theorem MapSound.ne_free (hmap : MapSound c home worn d)
    (hscan : Scanned c home factoryBad d.poolPba) (hpool : PoolSound factoryBad d) {k i : ℕ}
    (hne : d.poolBlock k ≠ 0) (huse : d.poolUse k ≠ .normalMapped) (hi : i < c.poolLba) :
    d.bbt.bbTbl i ≠ d.poolBlock k := by
  intro heq
  rcases hmap.mapped i hi with hhome | ⟨l, hl, hl0, hil⟩
  · have := hscan.lt_pool i hi
    have := hpool.low k hne
    omega
  · exact huse (hpool.injective l k hl0 (hil.symm.trans heq) ▸ hl)

theorem PoolSound.assign (hpool : PoolSound factoryBad d) (block k : ℕ) :
    PoolSound factoryBad (d.assign block k) := by
  constructor <;> simp only [Desc.assign_poolBlock]
  exacts [hpool.low, hpool.good, hpool.injective]

theorem PoolSound.restore (hpool : PoolSound factoryBad d) (block : ℕ) :
    PoolSound factoryBad (d.restore block) :=
  ⟨hpool.low, hpool.good, hpool.injective⟩

theorem IndexSound.assign (hindex : IndexSound d) (block : ℕ) {k : ℕ} (hk : k < d.bmtBlkIdx) :
    IndexSound (d.assign block k) := by
  intro hhas
  obtain ⟨huse, hkept⟩ := hindex hhas
  refine ⟨?_, fun l hl => ?_⟩
  · change (d.assign block k).poolUse d.bmtBlkIdx ≠ _
    rwa [d.assign_poolUse_of_ne block (Nat.ne_of_gt hk)]
  · rw [d.assign_poolBlock]
    exact hkept l hl

theorem IndexSound.restore (hindex : IndexSound d) (block : ℕ) : IndexSound (d.restore block) :=
  hindex

theorem Desc.droppedBlocks_assign (d : Desc) (block k : ℕ) :
    droppedBlocks (d.assign block k) d' = droppedBlocks d d' := by
  have hblocks : (d.assign block k).poolBlock = d.poolBlock :=
    funext fun l => d.assign_poolBlock block k l
  unfold droppedBlocks
  rw [hblocks]
  rfl

/-- Giving a block a free entry keeps the mapping sound; the block it was at is
given up. -/
theorem MapSound.assign (hmap : MapSound c home worn d)
    (hscan : Scanned c home factoryBad d.poolPba) (hpool : PoolSound factoryBad d)
    {block k : ℕ} (hblock : block < c.poolLba) (hne : d.poolBlock k ≠ 0)
    (hfree : d.poolUse k = .noMapped) :
    MapSound c home (d.bbt.bbTbl block :: worn) (d.assign block k) := by
  have hspare : ∀ l, d.poolUse l = .normalMapped →
      (d.assign block k).poolUse l = .normalMapped := by
    intro l hl
    by_cases hlk : l = k
    · rw [hlk]
      exact d.assign_poolUse_self block k
    · rwa [d.assign_poolUse_of_ne block hlk]
  have hnew : ∀ i < c.poolLba, d.bbt.bbTbl i ≠ d.poolBlock k :=
    fun i hi => hmap.ne_free hscan hpool hne (by simp [hfree]) hi
  refine ⟨fun i hi => ?_, fun i hi j hj hij => ?_, fun w hw l hl hlw => ?_,
    fun w hw i hi => ?_⟩
  · by_cases hib : i = block
    · subst hib
      refine .inr ⟨k, d.assign_poolUse_self i k, ?_, ?_⟩
      · rwa [d.assign_poolBlock]
      · rw [d.assign_poolBlock, d.assign_bbTbl_self]
    · rw [d.assign_bbTbl_of_ne k hib]
      refine (hmap.mapped i hi).imp id fun ⟨l, hl, hl0, hil⟩ => ⟨l, hspare l hl, ?_⟩
      rw [d.assign_poolBlock]
      exact ⟨hl0, hil⟩
  · by_cases hib : i = block
    · by_cases hjb : j = block
      · rw [hib, hjb]
      · subst hib
        rw [d.assign_bbTbl_self, d.assign_bbTbl_of_ne k hjb] at hij
        exact absurd hij.symm (hnew j hj)
    · by_cases hjb : j = block
      · subst hjb
        rw [d.assign_bbTbl_self, d.assign_bbTbl_of_ne k hib] at hij
        exact absurd hij (hnew i hi)
      · rw [d.assign_bbTbl_of_ne k hib, d.assign_bbTbl_of_ne k hjb] at hij
        exact hmap.injective i hi j hj hij
  · rw [d.assign_poolBlock] at hl hlw
    rcases List.mem_cons.mp hw with rfl | hw
    · -- the block given up was at home, or at a spare that stays in use
      rcases hmap.mapped block hblock with hhome | ⟨m, hm, hm0, hbm⟩
      · have := hscan.lt_pool block hblock
        have := hpool.low l hl
        omega
      · exact hspare l (hpool.injective l m hl (hlw.trans hbm) ▸ hm)
    · exact hspare l (hmap.worn_used w hw l hl hlw)
  · by_cases hib : i = block
    · subst hib
      rw [d.assign_bbTbl_self]
      rcases List.mem_cons.mp hw with rfl | hw
      · exact (hnew i hi).symm
      · intro hkw
        have := hmap.worn_used w hw k hne hkw
        simp [hfree] at this
    · rw [d.assign_bbTbl_of_ne k hib]
      rcases List.mem_cons.mp hw with rfl | hw
      · exact fun heq => hib (hmap.injective i hi block hblock heq)
      · exact hmap.worn_unmapped w hw i hi

/-- Putting a block back on its home keeps the mapping sound. -/
theorem MapSound.restore (hmap : MapSound c home worn d)
    (hscan : Scanned c home factoryBad d.poolPba) (hpool : PoolSound factoryBad d)
    {block : ℕ} (hblock : block < c.poolLba) (hhome : home block = block) :
    MapSound c home (worn.filter (· ≠ block)) (d.restore block) := by
  have hother : ∀ i < c.poolLba, i ≠ block → d.bbt.bbTbl i ≠ block := by
    intro i hi hne heq
    rcases hmap.mapped i hi with hih | ⟨k, -, hk0, hik⟩
    · exact hne (hscan.injective i hi block hblock (by omega))
    · have := hscan.lt_pool block hblock
      have := hpool.low k hk0
      omega
  have hself : (d.restore block).bbt.bbTbl block = block := by simp [Desc.restore, Bbbt.map]
  have hkeep : ∀ i, i ≠ block → (d.restore block).bbt.bbTbl i = d.bbt.bbTbl i := by
    intro i hi
    simp [Desc.restore, Bbbt.map, hi]
  refine ⟨fun i hi => ?_, fun i hi j hj hij => ?_, fun w hw => ?_, fun w hw i hi => ?_⟩
  · by_cases hib : i = block
    · subst hib
      exact .inl (hself.trans hhome.symm)
    · rw [hkeep i hib]
      exact hmap.mapped i hi
  · by_cases hib : i = block
    · by_cases hjb : j = block
      · rw [hib, hjb]
      · rw [hib, hself, hkeep j hjb] at hij
        exact absurd hij.symm (hother j hj hjb)
    · by_cases hjb : j = block
      · rw [hjb, hself, hkeep i hib] at hij
        exact absurd hij (hother i hi hib)
      · rw [hkeep i hib, hkeep j hjb] at hij
        exact hmap.injective i hi j hj hij
  · exact hmap.worn_used w (List.mem_filter.mp hw).1
  · have hwb : w ≠ block := by simpa using (List.mem_filter.mp hw).2
    by_cases hib : i = block
    · rw [hib, hself]
      exact hwb.symm
    · rw [hkeep i hib]
      exact hmap.worn_unmapped w (List.mem_filter.mp hw).1 i hi

end Preservation

/-! ## Reachable tables -/

section Reachable

variable {σ Page : Type} {c : Config} {nand : Nand σ Bbbt Page}

/-- What every run with sound calls keeps. -/
structure Instance.Inv (c : Config) (st : Instance σ) : Prop where
  scanned : Scanned c st.home st.factoryBad st.desc.poolPba
  pool : PoolSound st.factoryBad st.desc
  map : MapSound c st.home st.worn st.desc
  index : IndexSound st.desc

theorem Instance.Inv.apart {st : Instance σ} (h : st.Inv c) : st.Apart c := by
  refine ⟨h.map.injective, fun i hi => ?_, fun i hi hworn => ?_, fun hhas i hi => ?_⟩
  · rcases h.map.mapped i hi with hhome | ⟨k, -, hk0, hik⟩
    · rw [hhome]
      exact h.scanned.good i hi
    · rw [hik]
      exact h.pool.good k hk0
  · exact h.map.worn_unmapped _ hworn i hi rfl
  · obtain ⟨huse, hkept⟩ := h.index hhas
    exact h.map.ne_free h.scanned h.pool (hkept _ le_rfl) huse hi

theorem Instance.Inv.upload {home : ℕ → ℕ} {factoryBad : ℕ → Bool} {worn : List ℕ} {d : Desc}
    (hscan : Scanned c home factoryBad d.poolPba) (hpool : PoolSound factoryBad d)
    (hmap : MapSound c home worn d) (hindex : IndexSound d) (hhas : d.bmtBlkIdx ≠ noIndex)
    (s : σ) :
    Instance.Inv c
      { desc := (V2.upload nand d s).1, dev := (V2.upload nand d s).2, home := home
        factoryBad := factoryBad, worn := droppedBlocks d (V2.upload nand d s).1 ++ worn } := by
  have hup := upload_spec nand d s
  exact ⟨hup.poolPba.symm ▸ hscan, hup.poolSound hpool, hup.mapSound hscan hpool hmap,
    hup.indexSound hindex hhas⟩

theorem Instance.create_inv {old : Bbbt} {s : σ} {st : Instance σ}
    (h : Instance.create c nand old s = some st) : st.Inv c := by
  simp only [Instance.create, Option.bind_eq_bind, Option.bind_eq_some_iff] at h
  obtain ⟨d, hscan, ⟨desc, dev⟩, hfresh, h⟩ := h
  cases h
  simp only [initFresh, hscan] at hfresh
  split at hfresh
  case isTrue => cases hfresh
  case isFalse =>
    split at hfresh
    case isTrue => cases hfresh
    case isFalse =>
      cases hfresh
      have hresult := scanBadBlocks_spec (fun _ => rfl) hscan
      have hpos := c.poolLba_pos
      have hwithin : ∀ k, d.poolBlock k ≠ 0 → k ≤ d.bmtBlkIdx :=
        fun k hk => Nat.le_of_not_lt fun hlt => hk (hresult.past_end k hlt)
      have hscanned : Scanned c d.bbt.bbTbl
          (fun block => decide (0 < block) && blockBad nand s block) d.poolPba := by
        refine ⟨fun i hi => ?_, fun i hi j hj hij => ?_, fun i hi => ?_⟩
        · rw [hresult.poolPba]
          rcases Nat.lt_or_eq_of_le (Nat.le_sub_one_of_lt hi) with hlt | rfl
          · have := hresult.homes.strictMono hlt le_rfl
            omega
          · omega
        · by_contra hne
          rcases Nat.lt_or_gt_of_ne hne with hlt | hgt
          · have := hresult.homes.strictMono hlt (Nat.le_sub_one_of_lt hj)
            omega
          · have := hresult.homes.strictMono hgt (Nat.le_sub_one_of_lt hi)
            omega
        · rcases hresult.homes.not_bad (Nat.le_sub_one_of_lt hi) with hzero | hgood
          · simp [hzero]
          · simp [hgood]
      have hpool : PoolSound (fun block => decide (0 < block) && blockBad nand s block) d := by
        refine ⟨fun k hk => hresult.low k (hwithin k hk), fun k hk => ?_, fun k l hk hkl => ?_⟩
        · simp [hresult.good k (hwithin k hk)]
        · have hl := hwithin l (hkl ▸ hk)
          by_contra hne
          rcases Nat.lt_or_gt_of_ne hne with hlt | hgt
          · have := hresult.mono k l hlt hl
            omega
          · have := hresult.mono l k hgt (hwithin k hk)
            omega
      have hmap : MapSound c d.bbt.bbTbl [] d :=
        ⟨fun i _ => .inl rfl, hscanned.injective, by simp, by simp⟩
      have hindex : IndexSound d := by
        refine fun _ => ⟨by simp [hresult.table], fun k hk => ?_⟩
        have := hresult.low k hk
        have := hresult.poolPba
        omega
      have hhas : d.bmtBlkIdx ≠ noIndex := by
        have := hresult.index_lt
        have := c.total_lt
        unfold noIndex
        omega
      simpa using Instance.Inv.upload hscanned hpool hmap hindex hhas s

/-- A sound call keeps the invariant. -/
theorem Instance.next_inv {st st' : Instance σ} {call : Call} (hinv : st.Inv c)
    (hsound : st.Sound call) (h : Instance.next c nand st call = some st') : st'.Inv c := by
  obtain ⟨hscan, hpool, hmap, hindex⟩ := hinv
  obtain ⟨hhas, hsound⟩ := hsound
  cases call with
  | remap block copyLen =>
    simp only [Instance.next] at h
    split at h
    case isFalse => cases h
    case isTrue hblock =>
      unfold remapBlockV2 at h
      cases hfind : findValidBlockInPool st.desc with
      | none =>
        simp only [hfind] at h
        cases h
        exact ⟨hscan, hpool, hmap, hindex⟩
      | some k =>
        simp only [hfind] at h
        cases h
        obtain ⟨hk, hne, hfree⟩ := findValidBlockInPool_spec hfind
        rw [← Desc.droppedBlocks_assign st.desc block k]
        exact Instance.Inv.upload (d := st.desc.assign block k) hscan (hpool.assign block k)
          (hmap.assign hscan hpool hblock hne hfree) (hindex.assign block hk) hhas _
  | unmap block =>
    simp only [Instance.next] at h
    split at h
    case isFalse => cases h
    case isTrue hblock =>
      cases h
      exact Instance.Inv.upload (d := st.desc.restore block) hscan (hpool.restore block)
        (hmap.restore hscan hpool hblock hsound) (hindex.restore block) hhas _

theorem inv_of_reachable {st : Instance σ}
    (h : ((system c nand).restrict Instance.Sound).Reachable st) : st.Inv c := by
  refine h.invariant (I := Instance.Inv c) ?_ ?_
  · rintro st ⟨old, s, hcreate⟩
    exact Instance.create_inv hcreate
  · rintro source call target hinv ⟨hsound, hstep⟩
    exact Instance.next_inv hinv hsound hstep

end Reachable

/-! ## A shifted block -/

section Shifted

/-- Sixty blocks, fifty of them in the pool. -/
def shiftedConfig : Config where
  totalBlks := 60
  blkPages := 4
  pgSize := 512
  bmtPoolSize := 50
  tableSize := 64
  pool_le := by decide
  total_lt := by decide

/-- A flash whose block 3 has a bad block marker, and on which nothing fails. -/
def shiftedNand : Nand Unit Bbbt Unit where
  read _ block _ :=
    some ⟨⟨[], 0, fun _ => 0, fun _ => ⟨0, .noMapped⟩⟩, [if block = 3 then 0 else 0xff]⟩
  readPage _ _ _ := some ()
  erase _ _ := (true, ())
  writeTable _ _ _ _ := (true, ())
  writePage _ _ _ _ := (true, ())

/-- A buffer as it comes from the allocator. -/
def blankBbt : Bbbt := ⟨[], 0xff, fun _ => 0xffff, fun _ => ⟨0xffff, .other 0xffff⟩⟩

/-- The calls after a first boot on this flash. -/
def shiftedRun (calls : List Call) : Option (Instance Unit) := do
  calls.foldlM (Instance.next shiftedConfig shiftedNand)
    (← Instance.create shiftedConfig shiftedNand blankBbt ())

example : (shiftedRun []).map (fun st => (List.range 10).map st.desc.bbt.bbTbl) =
    some [0, 1, 2, 4, 5, 6, 7, 8, 9, 10] := by decide +kernel

def shiftedSoundRun (calls : List Call) : Option (Instance Unit) := do
  calls.foldlM (fun st call =>
    if st.Sound call then Instance.next shiftedConfig shiftedNand st call else none)
    (← Instance.create shiftedConfig shiftedNand blankBbt ())

end Shifted

end OpenWrt.MtkBmt.V2
