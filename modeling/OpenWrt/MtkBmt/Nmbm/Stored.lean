/-
# What an update stores

An update that reports success has written the table that lies in the cache. It is the
image of the memory when the last round began. The round may find a block bad while it
writes, and record that in memory; when the write succeeds all the same, the memory is
declared clean, and the table goes on calling the block good. So the stored table
agrees with the memory exactly when the last round is calm.
-/

import OpenWrt.MtkBmt.Nmbm.Calm
import OpenWrt.MtkBmt.Nmbm.Invariant

namespace OpenWrt.MtkBmt.Nmbm

open OpenWrt.Lib

/-! ## Tables and memory -/

section Table

variable (g : Chip) (ni : Instance)

def Instance.tableWord (i : ℕ) : Word :=
  (ni.infoTableCache.getD (i / g.pgWords) []).getD (i % g.pgWords) 0

/-- The table in the cache has the block states and the mapping of the memory. -/
structure Instance.Stored : Prop where
  state : ∀ i < g.stateTableWords,
    ni.tableWord g (ni.infoTable.stateTableOff.toNat / 4 + i) = ni.blockState i
  mapping : ∀ lb < g.mappingTableWords,
    ni.tableWord g (ni.infoTable.mappingTableOff.toNat / 4 + lb) =
      BitVec.ofInt 32 (ni.blockMapping lb)

/-- The header leads to two tables of whole words, one after the other. -/
structure Instance.LaidOut : Prop where
  stateAligned : 4 ∣ ni.infoTable.stateTableOff.toNat
  mappingAligned : 4 ∣ ni.infoTable.mappingTableOff.toNat
  header : 8 ≤ ni.infoTable.stateTableOff.toNat / 4
  apart : ni.infoTable.stateTableOff.toNat / 4 + g.stateTableWords ≤
    ni.infoTable.mappingTableOff.toNat / 4
  room : ni.infoTable.mappingTableOff.toNat / 4 + g.mappingTableWords ≤ g.infoTableWords

instance : Decidable (ni.Stored g) :=
  decidable_of_iff
    ((∀ i < g.stateTableWords,
        ni.tableWord g (ni.infoTable.stateTableOff.toNat / 4 + i) = ni.blockState i) ∧
      ∀ lb < g.mappingTableWords,
        ni.tableWord g (ni.infoTable.mappingTableOff.toNat / 4 + lb) =
          BitVec.ofInt 32 (ni.blockMapping lb))
    ⟨fun h => ⟨h.1, h.2⟩, fun h => ⟨h.state, h.mapping⟩⟩

end Table

section Image

variable {g : Chip} {crc : Crc}

theorem Chip.infoTableWords_eq (g : Chip) :
    g.infoTablePages * g.pgWords = g.infoTableWords := by
  have halign : ∀ words, g.pgWords ∣ g.alignPages words := fun words => Nat.dvd_mul_left _ _
  have hdvd : g.pgWords ∣ g.infoTableWords :=
    Nat.dvd_add (Nat.dvd_add (halign _) (halign _)) (halign _)
  exact Nat.div_mul_cancel hdvd

theorem getD_toPages {words : List Word} {i : ℕ} (hi : i < g.infoTableWords) :
    ((toPages g words).getD (i / g.pgWords) []).getD (i % g.pgWords) 0 = words.getD i 0 := by
  have hpage : i / g.pgWords < g.infoTablePages := by
    apply Nat.div_lt_of_lt_mul
    rw [Nat.mul_comm, g.infoTableWords_eq]
    exact hi
  have hword := Nat.mod_lt i g.pgWords_pos
  have hsum : i / g.pgWords * g.pgWords + i % g.pgWords = i := Nat.div_add_mod' i g.pgWords
  simp only [toPages, List.getD_eq_getElem?_getD, List.getElem?_map,
    List.getElem?_range hpage, Option.map_some, Option.getD_some,
    List.getElem?_take_of_lt hword, List.getElem?_drop, hsum]

theorem getD_image (ni : Instance) (h : InfoTableHeader) {i : ℕ} (hi : i < g.infoTableWords) :
    (image g ni h).getD i 0 = imageWord g ni h i := by
  unfold image
  simp [List.getD_eq_getElem?_getD, hi]

variable {σ : Type}

variable {h : InfoTableHeader}

theorem tableWord_generate {ni : Instance} {i : ℕ} (hlow : 8 ≤ i) (hi : i < g.infoTableWords) :
    ((toPages g (checkedImage g crc ni h)).getD (i / g.pgWords) []).getD (i % g.pgWords) 0 =
      imageWord g ni h i := by
  rw [getD_toPages hi]
  unfold checkedImage
  rw [getD_image ni _ hi]
  have hbeyond : ¬ i < 8 := by omega
  simp only [imageWord, if_neg hbeyond]

/-- The states of the memory from which the table was made. -/
theorem Instance.LaidOut.imageWord_state {ni : Instance} (hlaid : ni.LaidOut g)
    (hstate : h.stateTableOff = ni.infoTable.stateTableOff)
    (hmapping : h.mappingTableOff = ni.infoTable.mappingTableOff) {i : ℕ}
    (hi : i < g.stateTableWords) :
    imageWord g ni h (ni.infoTable.stateTableOff.toNat / 4 + i) = ni.blockState i := by
  have hheader := hlaid.header
  have hapart := hlaid.apart
  unfold imageWord
  rw [hstate, hmapping, if_neg (by omega), if_neg (by omega), if_pos (by omega)]
  congr 1
  omega

/-- The mapping of the memory from which the table was made. -/
theorem Instance.LaidOut.imageWord_mapping {ni : Instance} (hlaid : ni.LaidOut g)
    (hmapping : h.mappingTableOff = ni.infoTable.mappingTableOff) {lb : ℕ}
    (hlb : lb < g.mappingTableWords) :
    imageWord g ni h (ni.infoTable.mappingTableOff.toNat / 4 + lb) =
      BitVec.ofInt 32 (ni.blockMapping lb) := by
  have hheader := hlaid.header
  have hapart := hlaid.apart
  unfold imageWord
  rw [hmapping, if_neg (by omega), if_pos (by omega)]
  congr 3
  omega

theorem Instance.LaidOut.congr {ni ni' : Instance} (hlaid : ni.LaidOut g)
    (hstate : ni'.infoTable.stateTableOff = ni.infoTable.stateTableOff)
    (hmapping : ni'.infoTable.mappingTableOff = ni.infoTable.mappingTableOff) :
    ni'.LaidOut g where
  stateAligned := hstate ▸ hlaid.stateAligned
  mappingAligned := hmapping ▸ hlaid.mappingAligned
  header := hstate ▸ hlaid.header
  apart := hstate ▸ hmapping ▸ hlaid.apart
  room := hmapping ▸ hlaid.room

/-- The table in the cache is made of the memory that has just been written down, up to
the block states since. -/
theorem Instance.LaidOut.stored_iff {ni ni' : Instance} (hlaid : ni.LaidOut g)
    (htable : ni'.infoTable = ni.nextHeader g)
    (hcache : ni'.infoTableCache = toPages g (checkedImage g crc ni (ni.nextHeader g)))
    (hmapping : ni'.blockMapping = ni.blockMapping) :
    ni'.Stored g ↔ ∀ i < g.stateTableWords, ni'.blockState i = ni.blockState i := by
  have hheader := hlaid.header
  have hapart := hlaid.apart
  have hroom := hlaid.room
  have hstateOff : ni'.infoTable.stateTableOff = ni.infoTable.stateTableOff := by
    rw [htable]
    rfl
  have hmappingOff : ni'.infoTable.mappingTableOff = ni.infoTable.mappingTableOff := by
    rw [htable]
    rfl
  have hword : ∀ i, 8 ≤ i → i < g.infoTableWords →
      ni'.tableWord g i = imageWord g ni (ni.nextHeader g) i := by
    intro i hlow hi
    unfold tableWord
    rw [hcache]
    exact tableWord_generate hlow hi
  have hstate : ∀ i < g.stateTableWords,
      ni'.tableWord g (ni'.infoTable.stateTableOff.toNat / 4 + i) = ni.blockState i := by
    intro i hi
    rw [hstateOff, hword _ (by omega) (by omega)]
    exact hlaid.imageWord_state (h := ni.nextHeader g) rfl rfl hi
  constructor
  · intro hstored i hi
    exact (hstored.state i hi).symm.trans (hstate i hi)
  · intro hsame
    refine ⟨fun i hi => (hstate i hi).trans (hsame i hi).symm, fun lb hlb => ?_⟩
    rw [hmappingOff, hmapping, hword _ (by omega) (by omega)]
    exact hlaid.imageWord_mapping (h := ni.nextHeader g) rfl hlb

end Image

/-! ## The last round -/

section Update

variable {σ : Type} {g : Chip} {crc : Crc} {mtd : Mtd σ}

variable {x y : Sys σ}

theorem Lost.exists_word (h : Lost x y) (htop : x.ni.mappingBlocksTopBa ≤ g.blockCount) :
    ∃ i < g.stateTableWords, y.ni.blockState i ≠ x.ni.blockState i := by
  obtain ⟨ba, hba, hgood, hbad⟩ := h
  refine ⟨ba / 16, ?_, fun hsame => ?_⟩
  · unfold Chip.stateTableWords
    omega
  · have hstate : y.ni.getBlockState ba = x.ni.getBlockState ba := by
      unfold Instance.getBlockState packedGet
      rw [hsame]
    unfold Instance.IsGood at hgood
    rw [hbad, hgood] at hstate
    exact absurd hstate (by decide)

variable (g crc mtd) in
/-- A round that has something to write puts the memory into the cache and writes it to
both places. -/
theorem updateInfoTableOnce_finished {x : Sys σ} (hchanged : x.ni.Changed) :
    Finished (CalmRound g crc mtd x) (x.map fun ni => (generateInfoTableCache g crc ni).2)
      (updateInfoTableOnce g crc mtd false x) := by
  have hwrite : ¬ (¬ (generateInfoTableCache g crc x.ni).1 = true ∧ ¬ false = true) := by
    simp [generateInfoTableCache, hchanged]
  unfold updateInfoTableOnce
  dsimp only
  rw [if_neg hwrite]
  exact updateBothTables_finished g mtd (toPages_ne_nil g _)

/-- The table of a round agrees with the memory exactly when the round is calm. -/
theorem stored_iff_of_updateInfoTableOnce {ok : Bool} (hlaid : x.ni.LaidOut g)
    (htop : x.ni.mappingBlocksTopBa ≤ g.blockCount) (hchanged : x.ni.Changed)
    (h : updateInfoTableOnce g crc mtd false x = (ok, y)) :
    y.ni.Stored g ↔ CalmRound g crc mtd x := by
  have hfound := (updateInfoTableOnce_finished g crc mtd hchanged).found
  rw [h] at hfound
  rw [hlaid.stored_iff hfound.worn.table hfound.worn.cache hfound.worn.mapping]
  constructor
  · intro hsame
    by_contra hcalm
    obtain ⟨i, hi, hne⟩ := (hfound.lost hcalm).exists_word htop
    exact hne (hsame i hi)
  · intro hcalm i _
    rw [hfound.kept hcalm]
    rfl

theorem Instance.LaidOut.updateInfoTableOnce {ok : Bool} (hlaid : x.ni.LaidOut g)
    (hchanged : x.ni.Changed) (h : updateInfoTableOnce g crc mtd false x = (ok, y)) :
    y.ni.LaidOut g ∧ y.ni.mappingBlocksTopBa = x.ni.mappingBlocksTopBa := by
  have hworn := (updateInfoTableOnce_finished g crc mtd hchanged).found.worn
  rw [h] at hworn
  have htable : y.ni.infoTable = x.ni.nextHeader g := hworn.table
  refine ⟨hlaid.congr ?_ ?_, hworn.top⟩ <;> rw [htable] <;> rfl

/-- A round that succeeds and leaves something to write has lost a good block. -/
theorem goodCount_lt_of_updateInfoTableOnce (htop : x.ni.mappingBlocksTopBa ≤ g.blockCount)
    (hchanged : x.ni.Changed) (h : updateInfoTableOnce g crc mtd false x = (true, y))
    (hagain : y.ni.Changed) : y.ni.goodCount g.blockCount < x.ni.goodCount g.blockCount := by
  have hfinished := updateInfoTableOnce_finished g crc mtd hchanged
  rw [h] at hfinished
  obtain ⟨hmapping, hstate⟩ := hfinished.quiet rfl
  have hcount : y.ni.blockStateChanged + y.ni.goodCount g.blockCount ≤
      x.ni.goodCount g.blockCount := hstate g.blockCount htop
  have hpos : y.ni.blockStateChanged ≠ 0 := hagain.resolve_right fun hne => hne hmapping
  omega

theorem stored_iff_of_updateInfoTableFrom {fuel : ℕ} (hlaid : x.ni.LaidOut g)
    (htop : x.ni.mappingBlocksTopBa ≤ g.blockCount) (hchanged : x.ni.Changed)
    (hfuel : x.ni.goodCount g.blockCount + 1 < fuel)
    (h : updateInfoTableFrom g crc mtd fuel x = (true, y)) :
    y.ni.Stored g ↔ SettlesFrom g crc mtd fuel x := by
  induction fuel generalizing x with
  | zero => omega
  | succ fuel ih =>
    unfold updateInfoTableFrom at h
    unfold SettlesFrom
    rw [if_pos hchanged] at h
    dsimp only
    rcases honce : updateInfoTableOnce g crc mtd false x with ⟨_ | _, z⟩
    case false =>
      rw [honce] at h
      cases h
    case true =>
      rw [honce] at h
      dsimp only at h ⊢
      by_cases hagain : z.ni.Changed
      · -- the round is repeated
        rw [if_pos hagain]
        have hlt := goodCount_lt_of_updateInfoTableOnce htop hchanged honce hagain
        obtain ⟨hlaid', htop'⟩ := hlaid.updateInfoTableOnce hchanged honce
        exact ih hlaid' (htop' ▸ htop) hagain (by omega) h
      · rw [if_neg hagain]
        have hlast : z = y := by
          cases fuel with
          | zero => omega
          | succ fuel =>
            unfold updateInfoTableFrom at h
            rw [if_neg hagain] at h
            exact (Prod.mk.inj h).2
        rw [← hlast]
        exact stored_iff_of_updateInfoTableOnce hlaid htop hchanged honce

/-- An update that reports success has stored the memory exactly when its last round
meets no bad block. -/
theorem updateInfoTable_stored_iff {x y : Sys σ} (hlaid : x.ni.LaidOut g)
    (htop : x.ni.mappingBlocksTopBa ≤ g.blockCount) (hopen : x.ni.isProtected = false)
    (hchanged : x.ni.Changed) (h : updateInfoTable g crc mtd x = (true, y)) :
    y.ni.Stored g ↔ Settles g crc mtd x := by
  unfold updateInfoTable at h
  rw [hopen] at h
  have hcount := x.ni.goodCount_le g.blockCount
  exact stored_iff_of_updateInfoTableFrom hlaid htop hchanged (by omega) h

end Update

/-! ## A block that fails under the table -/

section BadTable

/-- The instance of the small chip in a remap of block 1, before the tables are
updated. -/
def remapOne : Instance :=
  ({ initStructure smallGeometry with
      blockMapping := fun lb => lb
      dataBlockCount := 16
      mgmtStartBa := 16
      mainTableBa := 16
      mainTableEnd := 17
      backupTableBa := 19
      backupTableEnd := 20
      mappingBlocksBa := 20
      mappingBlocksTopBa := 30
      signatureBa := 31 }.setBlockState 1 blockStBad).takeSpare 1 30

/-- The same with the flash erased. -/
def remapOneSys : Sys (ℕ → ℕ → Page) := ⟨remapOne, smallChip.dev⟩

/-- The small flash, on which one block can no longer be erased. -/
def failingMtd (block : ℕ) : Mtd (ℕ → ℕ → Page) :=
  { smallMtd with
    erase := fun s ba => if ba = block then (false, s) else smallMtd.erase s ba }

theorem laidOut_remapOne : remapOne.LaidOut smallGeometry := by
  constructor <;> decide +kernel

theorem exists_of_succeeded {σ : Type} {result : Bool × Sys σ} {P : Instance → Prop}
    (hok : result.1 = true) (h : P result.2.ni) : ∃ y, result = (true, y) ∧ P y.ni :=
  ⟨result.2, Prod.ext hok rfl, h⟩

theorem stored_remapOne :
    ∃ y, updateInfoTable smallGeometry crc32Le smallMtd remapOneSys = (true, y) ∧
      Settles smallGeometry crc32Le smallMtd remapOneSys := by
  have htop : remapOneSys.ni.mappingBlocksTopBa ≤ smallGeometry.blockCount := by decide +kernel
  have hchanged : remapOneSys.ni.Changed := by decide +kernel
  have hok : (updateInfoTable smallGeometry crc32Le smallMtd remapOneSys).1 = true := by
    decide +kernel
  have hstored : (updateInfoTable smallGeometry crc32Le smallMtd remapOneSys).2.ni.Stored
      smallGeometry := by decide +kernel
  obtain ⟨y, hrun, hstored⟩ :=
    exists_of_succeeded (P := fun ni => ni.Stored smallGeometry) hok hstored
  refine ⟨y, hrun, ?_⟩
  rwa [updateInfoTable_stored_iff laidOut_remapOne htop rfl hchanged hrun] at hstored

/-- Block 19, the first of the backup table, fails. The backup goes into block 20, and
both tables call block 19 good. -/
theorem not_stored_of_failing_block :
    ∃ x y : Sys (ℕ → ℕ → Page), x.ni.LaidOut smallGeometry ∧
      x.ni.mappingBlocksTopBa ≤ smallGeometry.blockCount ∧ x.ni.isProtected = false ∧
      x.ni.Changed ∧ updateInfoTable smallGeometry crc32Le (failingMtd 19) x = (true, y) ∧
      y.ni.getBlockState 19 = blockStBad ∧ ¬ y.ni.Stored smallGeometry := by
  have htop : remapOneSys.ni.mappingBlocksTopBa ≤ smallGeometry.blockCount := by decide +kernel
  have hchanged : remapOneSys.ni.Changed := by decide +kernel
  have hok : (updateInfoTable smallGeometry crc32Le (failingMtd 19) remapOneSys).1 = true := by
    decide +kernel
  have hbad : (updateInfoTable smallGeometry crc32Le (failingMtd 19)
      remapOneSys).2.ni.getBlockState 19 = blockStBad ∧
      ¬ (updateInfoTable smallGeometry crc32Le (failingMtd 19) remapOneSys).2.ni.Stored
        smallGeometry := by decide +kernel
  obtain ⟨y, hrun, hbad, hstored⟩ :=
    exists_of_succeeded (P := fun ni => ni.getBlockState 19 = blockStBad ∧
      ¬ ni.Stored smallGeometry) hok hbad
  exact ⟨remapOneSys, y, laidOut_remapOne, htop, rfl, hchanged, hrun, hbad, hstored⟩

end BadTable

end OpenWrt.MtkBmt.Nmbm
