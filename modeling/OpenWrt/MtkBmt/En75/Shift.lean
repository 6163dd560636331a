/-
# The shift past factory bad blocks

A user block is moved up past the factory bad blocks before it, in one pass over their
table. With the table in ascending order the user blocks are the good blocks below the
reserve area, in their order and without a gap. The mapping of worn blocks into the
reserve area, which is behind all of them, keeps user blocks apart.
-/

import OpenWrt.Lib.Skip
import OpenWrt.MtkBmt.En75.Mapping

namespace OpenWrt.MtkBmt.En75

open OpenWrt.Lib

variable {ctx : Ctx}

/-- The number of user blocks, which `w_init` sets the size of the device to. -/
def userBlocks (ctx : Ctx) : ℕ := ctx.reserveAreaBegin - ctx.bbt.table.length

/-- The table of factory bad blocks is in ascending order without repetition, and its blocks are
below the reserve area. -/
structure Bbt.Ordered (ctx : Ctx) : Prop where
  ascending : ctx.bbt.table.Pairwise (· < ·)
  below : ∀ bad ∈ ctx.bbt.table, bad.toNat < ctx.reserveAreaBegin

def FactoryBad (ctx : Ctx) (block : ℕ) : Prop := ∃ bad ∈ ctx.bbt.table, bad.toNat = block

instance (ctx : Ctx) (block : ℕ) : Decidable (FactoryBad ctx block) :=
  inferInstanceAs (Decidable (∃ bad ∈ ctx.bbt.table, bad.toNat = block))

/-- Worn blocks are no factory bad blocks, and are mapped into the reserve area. -/
structure Bmt.Placed (c : Chip) (ctx : Ctx) : Prop where
  distinct : ctx.bmt.Distinct
  fromBlock : ∀ block target, ctx.bmt.Maps block target → ¬ FactoryBad ctx block
  toBlock : ∀ block target, ctx.bmt.Maps block target →
    ctx.reserveAreaBegin ≤ target ∧ target < c.totalBlks

def factoryBlocks (ctx : Ctx) : List ℕ := ctx.bbt.table.map UInt16.toNat

theorem mem_factoryBlocks {block : ℕ} : block ∈ factoryBlocks ctx ↔ FactoryBad ctx block :=
  List.mem_map

theorem getMappingBlockBbt_eq (ctx : Ctx) (block : ℕ) :
    getMappingBlockBbt ctx block =
      if skip (factoryBlocks ctx) block < ctx.reserveAreaBegin then
        some (skip (factoryBlocks ctx) block)
      else none := by
  have hpass : ctx.bbt.table.foldl
      (fun block bad => if bad.toNat ≤ block then block + 1 else block) block =
        skip (factoryBlocks ctx) block := by
    rw [skip, factoryBlocks, List.foldl_map]
  unfold getMappingBlockBbt
  simp only [hpass]
  by_cases h : skip (factoryBlocks ctx) block < ctx.reserveAreaBegin
  · rw [if_pos h, if_neg (by omega)]
  · rw [if_neg h, if_pos (by omega)]

theorem getMappingBlockBbt_eq_some_iff {block target : ℕ} :
    getMappingBlockBbt ctx block = some target ↔
      skip (factoryBlocks ctx) block = target ∧ target < ctx.reserveAreaBegin := by
  rw [getMappingBlockBbt_eq]
  split
  next h =>
    rw [Option.some.injEq]
    exact ⟨fun heq => ⟨heq, heq ▸ h⟩, And.left⟩
  next h =>
    refine ⟨fun heq => ?_, fun heq => absurd (heq.1 ▸ heq.2) h⟩
    cases heq

namespace Bbt.Ordered

variable (h : Bbt.Ordered ctx)
include h

theorem pairwise : (factoryBlocks ctx).Pairwise (· < ·) :=
  List.pairwise_map.mpr (h.ascending.imp fun hlt => UInt16.lt_iff_toNat_lt.mp hlt)

theorem lt : ∀ bad ∈ factoryBlocks ctx, bad < ctx.reserveAreaBegin := by
  intro block hmem
  obtain ⟨bad, hbad, rfl⟩ := List.mem_map.mp hmem
  exact h.below bad hbad

theorem skip_lt_iff (block : ℕ) :
    skip (factoryBlocks ctx) block < ctx.reserveAreaBegin ↔ block < userBlocks ctx := by
  rw [Lib.skip_lt_iff h.pairwise h.lt, factoryBlocks, List.length_map, userBlocks]

theorem strictMono {a b : ℕ} (hlt : a < b) (hb : b < userBlocks ctx) :
    ∃ p q, getMappingBlockBbt ctx a = some p ∧ getMappingBlockBbt ctx b = some q ∧ p < q := by
  have hmapped := (h.skip_lt_iff b).mpr hb
  have hpq := skip_strictMono (factoryBlocks ctx) hlt
  exact ⟨_, _, getMappingBlockBbt_eq_some_iff.mpr ⟨rfl, Nat.lt_trans hpq hmapped⟩,
    getMappingBlockBbt_eq_some_iff.mpr ⟨rfl, hmapped⟩, hpq⟩

theorem image_iff (target : ℕ) :
    (∃ block < userBlocks ctx, getMappingBlockBbt ctx block = some target) ↔
      target < ctx.reserveAreaBegin ∧ ¬ FactoryBad ctx target := by
  constructor
  · rintro ⟨block, -, hmap⟩
    obtain ⟨rfl, hlt⟩ := getMappingBlockBbt_eq_some_iff.mp hmap
    exact ⟨hlt, fun hbad => skip_notMem h.pairwise block (mem_factoryBlocks.mpr hbad)⟩
  · rintro ⟨hlt, hgood⟩
    obtain ⟨block, rfl⟩ := exists_skip_eq h.pairwise (mt mem_factoryBlocks.mp hgood)
    exact ⟨block, (h.skip_lt_iff block).mp hlt, getMappingBlockBbt_eq_some_iff.mpr ⟨rfl, hlt⟩⟩

theorem eq_none {block : ℕ} (hge : userBlocks ctx ≤ block) : getMappingBlockBbt ctx block = none := by
  rw [getMappingBlockBbt_eq, if_neg (mt (h.skip_lt_iff block).mp (by omega))]

end Bbt.Ordered

/-- Worn blocks and the others are kept apart. -/
theorem Bmt.Placed.injective {c : Chip} (hplaced : Bmt.Placed c ctx) {a b target : ℕ}
    (ha : getMappingBlock ctx a = some target) (hb : getMappingBlock ctx b = some target) :
    a = b := by
  obtain ⟨p, hp, rfl⟩ := Option.map_eq_some_iff.mp ha
  obtain ⟨q, hq, heq⟩ := Option.map_eq_some_iff.mp hb
  obtain ⟨hskipA, hpLt⟩ := getMappingBlockBbt_eq_some_iff.mp hp
  obtain ⟨hskipB, hqLt⟩ := getMappingBlockBbt_eq_some_iff.mp hq
  have hpq : p = q := by
    cases hlookA : ctx.bmt.lookup p with
    | none =>
      cases hlookB : ctx.bmt.lookup q with
      | none =>
        rw [hlookA, hlookB] at heq
        exact heq.symm
      | some target =>
        rw [hlookA, hlookB] at heq
        have := (hplaced.toBlock _ _ (Bmt.maps_of_lookup hlookB)).1
        simp only [Option.getD_some, Option.getD_none] at heq
        omega
    | some target =>
      cases hlookB : ctx.bmt.lookup q with
      | none =>
        rw [hlookA, hlookB] at heq
        have := (hplaced.toBlock _ _ (Bmt.maps_of_lookup hlookA)).1
        simp only [Option.getD_some, Option.getD_none] at heq
        omega
      | some other =>
        rw [hlookA, hlookB] at heq
        simp only [Option.getD_some] at heq
        subst heq
        exact hplaced.distinct.injective (Bmt.maps_of_lookup hlookA) (Bmt.maps_of_lookup hlookB)
  exact (skip_strictMono (factoryBlocks ctx)).injective (hskipA.trans (hpq.trans hskipB.symm))

/-- The shift past the factory bad blocks enumerates the good blocks below the reserve area, and
mapping the worn ones keeps the user blocks apart. -/
theorem mappingBlock_enumerates (c : Chip) (hordered : Bbt.Ordered ctx) :
    (∀ a b, a < b → b < userBlocks ctx →
      ∃ p q, getMappingBlockBbt ctx a = some p ∧ getMappingBlockBbt ctx b = some q ∧ p < q) ∧
    (∀ target, (∃ block < userBlocks ctx, getMappingBlockBbt ctx block = some target) ↔
      target < ctx.reserveAreaBegin ∧ ¬ FactoryBad ctx target) ∧
    (∀ block, userBlocks ctx ≤ block → getMappingBlockBbt ctx block = none) ∧
    (Bmt.Placed c ctx → ∀ a b target, getMappingBlock ctx a = some target →
      getMappingBlock ctx b = some target → a = b) :=
  ⟨fun _ _ hlt hb => hordered.strictMono hlt hb, hordered.image_iff, fun _ => hordered.eq_none,
    fun hplaced _ _ _ => hplaced.injective⟩

def sixteenBlocks : Chip where
  totalBlks := 16
  pgSize := 2048
  blkPages := 64
  bbtTableSize := 1000
  assertReserveSize := none
  factoryBadblocks := none
  enableRemap := false
  remapPartitions := []
  totalBlks_lt := by decide

/-- Ten blocks before the reserve area, of which two are bad and one is mapped. -/
def twoBad : Ctx := { Ctx.initial with
  bbt := ⟨1, [2, 5]⟩
  bmt := Bmt.zero.remap 3 12
  reserveAreaBegin := 10 }

theorem mappingBlock_enumerates_twoBad :
    (getMappingBlockBbt twoBad 7 = some 9 ∧ getMappingBlockBbt twoBad 8 = none ∧
      getMappingBlock twoBad 2 = some 12) ∧
    (∀ target, (∃ block < 8, getMappingBlockBbt twoBad block = some target) ↔
      target < 10 ∧ ¬ FactoryBad twoBad target) ∧
    ∀ a b target, getMappingBlock twoBad a = some target → getMappingBlock twoBad b = some target →
      a = b := by
  have hordered : Bbt.Ordered twoBad := by
    refine ⟨by decide, fun bad hbad => ?_⟩
    rcases List.mem_pair.mp hbad with rfl | rfl
    · decide
    · decide
  have hzero : Bmt.zero.Distinct := ⟨fun _ hi => absurd hi (by simp [Bmt.zero]),
    fun _ hi => absurd hi (by simp [Bmt.zero])⟩
  have hnone : ∀ b p, ¬ Bmt.zero.Maps b p := fun _ _ ⟨_, hi, _⟩ => absurd hi (by simp [Bmt.zero])
  have hmaps : ∀ block target, twoBad.bmt.Maps block target → block = 3 ∧ target = 12 := by
    intro block target hmap
    have := (Bmt.maps_remap hzero (by decide) (by decide) (by decide)).mp hmap
    split at this
    next hblock => exact ⟨hblock, this⟩
    next => exact absurd this (hnone _ _)
  have hplaced : Bmt.Placed sixteenBlocks twoBad := by
    refine ⟨hzero.remap (by decide) (by decide) (by decide) fun b => hnone b 12, ?_, ?_⟩
    · intro block target hmap
      obtain ⟨rfl, -⟩ := hmaps block target hmap
      decide
    · intro block target hmap
      obtain ⟨-, rfl⟩ := hmaps block target hmap
      decide
  have hall := mappingBlock_enumerates sixteenBlocks hordered
  exact ⟨by decide, hall.2.1, hall.2.2.2 hplaced⟩

end OpenWrt.MtkBmt.En75
