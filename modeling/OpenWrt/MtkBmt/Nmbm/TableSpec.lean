/-
# What an update of the tables changes

A write into a range erases, writes and marks bad only good blocks of the range,
and returns a part of it. From this follows what an update as a whole can change:
the state of blocks between the start of the management region and the last
unmapped spare, and the records of where the tables are. These stay in order:
main table, backup table, unmapped spares.

Marking a block bad is counted once, when it stops being good. The number of good
blocks and the count of changes together never grow, so the rounds of an update
come to an end.
-/

import Mathlib.Order.Nat
import OpenWrt.MtkBmt.Nmbm.InfoTable

namespace OpenWrt.MtkBmt.Nmbm

open OpenWrt.Lib

/-! ## Block states -/

section State

variable (ni : Instance)

theorem Instance.getBlockState_setBlockState_self (ba : ℕ) (state : Word) :
    (ni.setBlockState ba state).getBlockState ba = state &&& 3 :=
  packedGet_packedSet_self (by decide) (by decide) (by
    rw [BitVec.and_assoc]
    rfl)

theorem Instance.getBlockState_setBlockState_of_ne {ba other : ℕ} (state : Word)
    (h : other ≠ ba) : (ni.setBlockState ba state).getBlockState other = ni.getBlockState other :=
  packedGet_packedSet_of_ne (by
    rw [BitVec.and_assoc]
    rfl) h

/-- The good blocks below a number. -/
def Instance.goodCount (n : ℕ) : ℕ := ((List.range n).filter fun ba => ni.IsGood ba).length

theorem Instance.goodCount_succ (n : ℕ) :
    ni.goodCount (n + 1) = ni.goodCount n + if ni.IsGood n then 1 else 0 := by
  unfold goodCount
  rw [List.range_succ, List.filter_append, List.length_append]
  by_cases h : ni.IsGood n
  · simp [h]
  · simp [h]

end State

/-- The pages of a block read the same in two states. -/
def Mtd.SameBlock {σ : Type} (mtd : Mtd σ) (s t : σ) (ba : ℕ) : Prop :=
  ∀ page tries, mtd.readOob t ba page tries = mtd.readOob s ba page tries

/-- Erasing, writing or marking a block leaves what is read from the others. -/
structure Mtd.Local {σ : Type} (mtd : Mtd σ) : Prop where
  writeOob {s : σ} {ba other page : ℕ} {data : Page} (h : other ≠ ba) :
    mtd.SameBlock s (mtd.writeOob s ba page data).2 other
  erase {s : σ} {ba other : ℕ} (h : other ≠ ba) : mtd.SameBlock s (mtd.erase s ba).2 other
  blockMarkbad {s : σ} {ba other : ℕ} (h : other ≠ ba) :
    mtd.SameBlock s (mtd.blockMarkbad s ba) other

section Spec

variable {σ : Type} {g : Chip} {crc : Crc} {mtd : Mtd σ}

theorem Mtd.SameBlock.refl (s : σ) (ba : ℕ) : mtd.SameBlock s s ba := fun _ _ => rfl

theorem Mtd.SameBlock.trans {s t u : σ} {ba : ℕ} (hst : mtd.SameBlock s t ba)
    (htu : mtd.SameBlock t u ba) : mtd.SameBlock s u ba :=
  fun page tries => (htu page tries).trans (hst page tries)

/-! ## Writing one block -/

/-- Trying an operation again keeps what the operation keeps. -/
theorem sameBlock_retry {op : σ → Bool × σ} {other : ℕ}
    (hop : ∀ s, mtd.SameBlock s (op s).2 other) (left : ℕ) (s : σ) :
    mtd.SameBlock s (retry op left s).2 other := by
  induction left generalizing s with
  | zero => exact .refl s other
  | succ left ih =>
    unfold retry
    have hs := hop s
    split
    case h_1 t heq =>
      rw [heq] at hs
      exact hs
    case h_2 t heq =>
      rw [heq] at hs
      exact hs.trans (ih t)

variable (g) in
theorem Mtd.Local.eraseBlockAndCheck (hlocal : mtd.Local) {ba other : ℕ} (hne : other ≠ ba)
    (s : σ) : mtd.SameBlock s (eraseBlockAndCheck g mtd ba s).2 other := by
  have herase : mtd.SameBlock s (erasePhysBlock mtd ba s).2 other :=
    sameBlock_retry (fun s => hlocal.erase hne) tryCount s
  unfold Nmbm.eraseBlockAndCheck
  split
  case h_1 t heq =>
    rw [heq] at herase
    exact herase
  case h_2 t heq =>
    rw [heq] at herase
    split <;> exact herase

variable (g) in
theorem Mtd.Local.writeVerifyFrom (hlocal : mtd.Local) {ba other : ℕ} (hne : other ≠ ba)
    (size : ℕ) (data : List Page) (page : ℕ) (s : σ) :
    mtd.SameBlock s (writeVerifyFrom g mtd ba size data page s).2 other := by
  induction data generalizing page s with
  | nil => exact .refl s other
  | cons words rest ih =>
    have hwrite : mtd.SameBlock s (writePhysPage mtd ba page words s).2 other :=
      sameBlock_retry (fun s => hlocal.writeOob hne) tryCount s
    unfold Nmbm.writeVerifyFrom
    split
    case h_1 t heq =>
      rw [heq] at hwrite
      exact hwrite
    case h_2 t heq =>
      rw [heq] at hwrite
      dsimp only
      split
      case isTrue => exact hwrite
      case isFalse =>
        split
        case isTrue => exact hwrite.trans (ih (page + 1) t)
        case isFalse => exact hwrite

/-! ## Writing into a range -/

/-- Good blocks of a range may have been erased, written and marked bad, and
nothing else has changed. -/
structure Marked (mtd : Mtd σ) (low high : ℕ) (x y : Sys σ) : Prop where
  ni : y.ni = { x.ni with
    blockState := y.ni.blockState, blockStateChanged := y.ni.blockStateChanged }
  state : ∀ ba, y.ni.getBlockState ba = x.ni.getBlockState ba ∨
    (low ≤ ba ∧ ba < high ∧ x.ni.IsGood ba ∧ y.ni.getBlockState ba = blockStBad)
  count : ∀ n, high ≤ n → y.ni.blockStateChanged + y.ni.goodCount n ≤
    x.ni.blockStateChanged + x.ni.goodCount n
  good : ∀ n, y.ni.goodCount n ≤ x.ni.goodCount n
  dev : mtd.Local → ∀ ba, ba < low ∨ high ≤ ba → mtd.SameBlock x.dev y.dev ba

theorem Marked.refl (low high : ℕ) (x : Sys σ) : Marked mtd low high x x :=
  ⟨rfl, fun _ => .inl rfl, fun _ _ => le_rfl, fun _ => le_rfl, fun _ _ _ => .refl _ _⟩

theorem Marked.trans {low high : ℕ} {x y z : Sys σ} (hxy : Marked mtd low high x y)
    (hyz : Marked mtd low high y z) : Marked mtd low high x z where
  ni := by
    rw [hyz.ni, hxy.ni]
  state ba := by
    rcases hyz.state ba with hz | ⟨hlow, hhigh, hgood, hbad⟩
    · rw [hz]
      exact hxy.state ba
    · rcases hxy.state ba with hy | ⟨-, -, -, hbad'⟩
      · exact .inr ⟨hlow, hhigh, hy.symm.trans hgood, hbad⟩
      · exact .inl (by
          unfold Instance.IsGood at hgood
          rw [hbad'] at hgood
          exact absurd hgood (by decide))
  count n hn := (hyz.count n hn).trans (hxy.count n hn)
  good n := (hyz.good n).trans (hxy.good n)
  dev hlocal ba hba := (hxy.dev hlocal ba hba).trans (hyz.dev hlocal ba hba)

theorem Marked.mono {low high low' high' : ℕ} {x y : Sys σ} (h : Marked mtd low high x y)
    (hlow : low' ≤ low) (hhigh : high ≤ high') : Marked mtd low' high' x y where
  ni := h.ni
  state ba := (h.state ba).imp id fun ⟨hl, hh, hrest⟩ => ⟨by omega, by omega, hrest⟩
  count n hn := h.count n (by omega)
  good := h.good
  dev hlocal ba hba := h.dev hlocal ba (by omega)

variable {low high ba : ℕ} {x : Sys σ}

theorem Marked.of_dev (hlow : low ≤ ba) (hhigh : ba < high) {s : σ}
    (h : mtd.Local → ∀ other, other ≠ ba → mtd.SameBlock x.dev s other) :
    Marked mtd low high x { x with dev := s } :=
  ⟨rfl, fun _ => .inl rfl, fun _ _ => le_rfl, fun _ => le_rfl,
    fun hlocal other hother => h hlocal other (by omega)⟩

theorem Marked.of_erase (hlow : low ≤ ba) (hhigh : ba < high) {ok : Bool} {s : σ}
    (h : eraseBlockAndCheck g mtd ba x.dev = (ok, s)) :
    Marked mtd low high x { x with dev := s } :=
  .of_dev hlow hhigh fun hlocal other hne => by
    have hsame := hlocal.eraseBlockAndCheck g hne x.dev
    rwa [h] at hsame

theorem Marked.of_write (hlow : low ≤ ba) (hhigh : ba < high) {data : List Page} {ok : Bool} {s : σ}
    (h : writeVerifyData g mtd ba data x.dev = (ok, s)) :
    Marked mtd low high x { x with dev := s } :=
  .of_dev hlow hhigh fun hlocal other hne => by
    have hsame := hlocal.writeVerifyFrom g hne g.pgWords data 0 x.dev
    unfold writeVerifyData at h
    rwa [h] at hsame

/-- Marking a good block bad moves one from the good blocks to the changes. -/
theorem Instance.goodCount_setBad {ni : Instance} {ba : ℕ} (hgood : ni.IsGood ba) (n : ℕ) :
    (ni.setBlockState ba blockStBad).goodCount n + (if ba < n then 1 else 0) =
      ni.goodCount n := by
  induction n with
  | zero => rfl
  | succ n ih =>
    rw [goodCount_succ, goodCount_succ]
    by_cases hba : n = ba
    · subst hba
      have hbad : ¬ (ni.setBlockState n blockStBad).IsGood n := by
        unfold IsGood
        rw [getBlockState_setBlockState_self]
        decide
      rw [if_neg hbad, if_pos hgood]
      simp only [lt_irrefl, if_false] at ih
      simp only [Nat.lt_succ_self, if_true]
      omega
    · have hsame : (ni.setBlockState ba blockStBad).IsGood n ↔ ni.IsGood n := by
        unfold IsGood
        rw [getBlockState_setBlockState_of_ne _ _ hba]
      simp only [hsame]
      by_cases hlt : ba < n
      · rw [if_pos hlt] at ih
        rw [if_pos (by omega : ba < n + 1)]
        omega
      · rw [if_neg hlt] at ih
        rw [if_neg (by omega : ¬ ba < n + 1)]
        omega

theorem Marked.noteBad (hlow : low ≤ ba) (hhigh : ba < high) (hgood : x.ni.IsGood ba) :
    Marked mtd low high x (x.noteBad ba) where
  ni := rfl
  state other := by
    by_cases hba : other = ba
    · subst hba
      exact .inr ⟨hlow, hhigh, hgood, x.ni.getBlockState_setBlockState_self other blockStBad⟩
    · exact .inl (x.ni.getBlockState_setBlockState_of_ne blockStBad hba)
  count n hn := by
    have hcount := Instance.goodCount_setBad hgood n
    rw [if_pos (by omega : ba < n)] at hcount
    have hchange : (x.noteBad ba).ni.blockStateChanged ≤ x.ni.blockStateChanged + 1 := by
      unfold Sys.noteBad Instance.setBlockState
      dsimp only
      split <;> omega
    change _ + (x.ni.setBlockState ba blockStBad).goodCount n ≤ _
    omega
  good n := by
    have hcount := Instance.goodCount_setBad hgood n
    change (x.ni.setBlockState ba blockStBad).goodCount n ≤ _
    omega
  dev _ _ _ := .refl _ _

theorem Marked.markBad (hlow : low ≤ ba) (hhigh : ba < high) (hgood : x.ni.IsGood ba) :
    Marked mtd low high x (Sys.markBad mtd x ba) := by
  have hnote : Marked mtd low high x (x.noteBad ba) := .noteBad hlow hhigh hgood
  exact ⟨hnote.ni, hnote.state, hnote.count, hnote.good,
    fun hlocal other hother => hlocal.blockMarkbad (by omega)⟩

theorem eraseRangeFrom_marked (fuel ba : ℕ) (x : Sys σ) :
    Marked mtd ba (ba + fuel) x (eraseRangeFrom g mtd fuel ba x) := by
  induction fuel generalizing ba x with
  | zero => exact .refl _ _ x
  | succ fuel ih =>
    have hrest : ∀ y, Marked mtd ba (ba + (fuel + 1)) y (eraseRangeFrom g mtd fuel (ba + 1) y) :=
      fun y => (ih (ba + 1) y).mono (by omega) (by omega)
    unfold eraseRangeFrom
    split
    case isTrue => exact hrest x
    case isFalse hgood =>
      have hgood : x.ni.IsGood ba := not_not.mp hgood
      split
      case isTrue => exact (Marked.noteBad (by omega) (by omega) hgood).trans (hrest _)
      case isFalse =>
        split
        case h_1 s heq => exact (Marked.of_erase le_rfl (by omega) heq).trans (hrest _)
        case h_2 s heq =>
          exact ((Marked.of_erase le_rfl (by omega) heq).trans
            (Marked.markBad le_rfl (by omega) hgood)).trans (hrest _)

theorem eraseRange_marked (ba limit : ℕ) (x : Sys σ) :
    Marked mtd ba limit x (eraseRange g mtd ba limit x) := by
  by_cases hle : ba ≤ limit
  · exact (eraseRangeFrom_marked (limit - ba) ba x).mono le_rfl (by omega)
  · unfold eraseRange
    rw [Nat.sub_eq_zero_of_le (by omega)]
    exact .refl _ _ x

variable (g mtd) in
/-- A write into a range changes nothing outside it, and a write that succeeds
starts and ends in it. -/
theorem writeMgmtRangeFrom_spec (fuel ba : ℕ) (start : Option ℕ) (data : List Page) (x : Sys σ) :
    Marked mtd ba (ba + fuel) x (writeMgmtRangeFrom g mtd fuel ba start data x).2 ∧
      ∀ first stop, (writeMgmtRangeFrom g mtd fuel ba start data x).1 = some (first, stop) →
        ba ≤ stop ∧ stop ≤ ba + fuel ∧ (∀ s, start = some s → first = s) ∧
          (start = none → data ≠ [] → ba ≤ first ∧ first < stop) := by
  induction fuel generalizing ba start data x with
  | zero =>
    cases data with
    | nil =>
      refine ⟨.refl _ _ x, fun first stop h => ?_⟩
      cases h
      exact ⟨le_rfl, le_rfl, by rintro s rfl; rfl, fun _ hne => absurd rfl hne⟩
    | cons page rest => exact ⟨.refl _ _ x, fun first stop h => by cases h⟩
  | succ fuel ih =>
    cases data with
    | nil =>
      refine ⟨.refl _ _ x, fun first stop h => ?_⟩
      cases h
      exact ⟨le_rfl, by omega, by rintro s rfl; rfl, fun _ hne => absurd rfl hne⟩
    | cons page rest =>
      -- going on behind a block that was passed over
      have hskip : ∀ y, Marked mtd ba (ba + (fuel + 1)) x y → ∀ result,
          result = writeMgmtRangeFrom g mtd fuel (ba + 1) start (page :: rest) y →
          Marked mtd ba (ba + (fuel + 1)) x result.2 ∧
            ∀ first stop, result.1 = some (first, stop) →
              ba ≤ stop ∧ stop ≤ ba + (fuel + 1) ∧ (∀ s, start = some s → first = s) ∧
                (start = none → page :: rest ≠ [] → ba ≤ first ∧ first < stop) := by
        rintro y hy result rfl
        obtain ⟨hmarked, hrange⟩ := ih (ba + 1) start (page :: rest) y
        refine ⟨hy.trans (hmarked.mono (by omega) (by omega)), fun first stop h => ?_⟩
        obtain ⟨hlow, hhigh, hsome, hnone⟩ := hrange first stop h
        exact ⟨by omega, by omega, hsome, fun hstart hne =>
          ⟨by have := (hnone hstart hne).1; omega, (hnone hstart hne).2⟩⟩
      unfold writeMgmtRangeFrom
      dsimp only
      split
      case isTrue => exact hskip x (.refl _ _ x) _ rfl
      case isFalse hgood =>
        have hgood : x.ni.IsGood ba := not_not.mp hgood
        split
        case isTrue => exact hskip _ (.noteBad le_rfl (by omega) hgood) _ rfl
        case isFalse =>
          split
          case h_1 s heq =>
            exact hskip _ ((Marked.of_erase le_rfl (by omega) heq).trans
              (.markBad le_rfl (by omega) hgood)) _ rfl
          case h_2 s heq =>
            have herased : Marked mtd ba (ba + (fuel + 1)) x { x with dev := s } :=
              .of_erase le_rfl (by omega) heq
            split
            case h_1 t hwrite =>
              exact hskip _ ((herased.trans (.of_write le_rfl (by omega) hwrite)).trans
                (.markBad le_rfl (by omega) hgood)) _ rfl
            case h_2 t hwrite =>
              obtain ⟨hmarked, hrange⟩ := ih (ba + 1) (some (start.getD ba))
                ((page :: rest).drop g.pagesPerBlk) { x with dev := t }
              refine ⟨(herased.trans (.of_write le_rfl (by omega) hwrite)).trans
                (hmarked.mono (by omega) (by omega)), fun first stop h => ?_⟩
              obtain ⟨hlow, hhigh, hsome, -⟩ := hrange first stop h
              have hfirst := hsome _ rfl
              refine ⟨by omega, by omega, ?_, ?_⟩
              · rintro s rfl
                exact hfirst
              · rintro rfl -
                change first = ba at hfirst
                omega

variable (g mtd) in
theorem writeInfoTable_spec (ba limit : ℕ) (x : Sys σ) :
    Marked mtd ba limit x (writeInfoTable g mtd ba limit x).2 ∧
      ∀ first stop, x.ni.infoTableCache ≠ [] →
        (writeInfoTable g mtd ba limit x).1 = some (first, stop) →
          ba ≤ first ∧ first < stop ∧ stop ≤ limit := by
  obtain ⟨hmarked, hrange⟩ :=
    writeMgmtRangeFrom_spec g mtd (limit - ba) ba none x.ni.infoTableCache x
  refine ⟨?_, fun first stop hne h => ?_⟩
  · by_cases hle : ba ≤ limit
    · exact hmarked.mono le_rfl (by omega)
    · -- the range is empty and nothing is done
      unfold writeInfoTable writeMgmtRange
      rw [Nat.sub_eq_zero_of_le (by omega)]
      cases x.ni.infoTableCache <;> exact .refl _ _ x
  · obtain ⟨hlow, hhigh, -, hfirst⟩ := hrange first stop h
    obtain ⟨hle, hlt⟩ := hfirst rfl hne
    omega

variable (g mtd) in
theorem writeDownFrom_spec {low : ℕ} (fuel ba : ℕ) (x : Sys σ) (hlow : low + fuel ≤ ba + 1) :
    Marked mtd low x.ni.mappingBlocksTopBa x (writeDownFrom g mtd fuel ba x).2 ∧
      ∀ first stop, x.ni.infoTableCache ≠ [] →
        (writeDownFrom g mtd fuel ba x).1 = some (first, stop) →
          low ≤ first ∧ first < stop ∧ stop ≤ x.ni.mappingBlocksTopBa := by
  induction fuel generalizing ba x with
  | zero => exact ⟨.refl _ _ x, fun first stop _ h => by cases h⟩
  | succ fuel ih =>
    obtain ⟨hmarked, hrange⟩ := writeInfoTable_spec g mtd ba x.ni.mappingBlocksTopBa x
    have hwide := hmarked.mono (by omega : low ≤ ba) le_rfl
    unfold writeDownFrom
    split
    case h_1 range y heq =>
      rw [heq] at hwide hrange
      refine ⟨hwide, fun first stop hne h => ?_⟩
      have hfirst := hrange first stop hne h
      omega
    case h_2 y heq =>
      rw [heq] at hwide
      have htop : y.ni.mappingBlocksTopBa = x.ni.mappingBlocksTopBa := by rw [hwide.ni]
      have hcache : y.ni.infoTableCache = x.ni.infoTableCache := by rw [hwide.ni]
      obtain ⟨hrest, hrange'⟩ := ih (ba - 1) y (by omega)
      rw [htop] at hrest hrange'
      rw [hcache] at hrange'
      exact ⟨hwide.trans hrest, hrange'⟩

variable (g mtd) in
theorem writeDown_spec (ba low : ℕ) (x : Sys σ) (hlow : low ≤ ba) :
    Marked mtd low x.ni.mappingBlocksTopBa x (writeDown g mtd ba low x).2 ∧
      ∀ first stop, x.ni.infoTableCache ≠ [] →
        (writeDown g mtd ba low x).1 = some (first, stop) →
          low ≤ first ∧ first < stop ∧ stop ≤ x.ni.mappingBlocksTopBa :=
  writeDownFrom_spec g mtd (ba + 1 - low) ba x (by omega)

/-! ## Walks -/

theorem Instance.walkAscFrom_spec {ni : Instance} {fuel ba count next : ℕ}
    (h : ni.walkAscFrom fuel ba count = some next) :
    ba ≤ next ∧ next < ba + fuel ∧ ni.IsGood next := by
  induction fuel generalizing ba count with
  | zero => cases h
  | succ fuel ih =>
    unfold walkAscFrom at h
    split at h
    case isTrue hgood =>
      cases count with
      | zero =>
        cases h
        exact ⟨le_rfl, by omega, hgood⟩
      | succ count =>
        have := ih h
        exact ⟨by omega, by omega, this.2.2⟩
    case isFalse =>
      have := ih h
      exact ⟨by omega, by omega, this.2.2⟩

theorem Instance.tryReserveBlocks_spec {ni : Instance} {ba count limit next : ℕ}
    (h : ni.tryReserveBlocks g ba count limit = some next) : ba ≤ next ∧ ni.IsGood next := by
  induction count with
  | zero =>
    have := walkAscFrom_spec h
    exact ⟨this.1, this.2.2⟩
  | succ count ih =>
    unfold tryReserveBlocks at h
    split at h
    case h_1 found hfound =>
      cases h
      have := walkAscFrom_spec hfound
      exact ⟨this.1, this.2.2⟩
    case h_2 => exact ih h

/-! ## What an update keeps -/

/-- The records are in order: the tables from the start of the region, the main
one first, then the unmapped spares. -/
structure InOrder (ni : Instance) : Prop where
  mgmt_pos : 0 < ni.mgmtStartBa
  mgmt_le : ni.mgmtStartBa ≤ ni.mappingBlocksBa
  base_le : ni.mappingBlocksBa ≤ ni.mappingBlocksTopBa
  main : ni.mainTableBa = 0 ∨ (ni.mgmtStartBa ≤ ni.mainTableBa ∧
    ni.mainTableBa < ni.mainTableEnd ∧ ni.mainTableEnd ≤ ni.mappingBlocksBa)
  backup : ni.backupTableBa = 0 ∨ (ni.mgmtStartBa ≤ ni.backupTableBa ∧
    ni.backupTableBa < ni.backupTableEnd ∧ ni.backupTableEnd ≤ ni.mappingBlocksBa)
  apart : ni.mainTableBa ≠ 0 → ni.backupTableBa ≠ 0 → ni.mainTableEnd ≤ ni.backupTableBa
  cached : ni.infoTableCache ≠ []

/-- What the records of the tables and the counts of changes leave in place. -/
structure KeepsMap (ni ni' : Instance) : Prop where
  blockMapping : ni'.blockMapping = ni.blockMapping
  dataBlockCount : ni'.dataBlockCount = ni.dataBlockCount
  mgmtStartBa : ni'.mgmtStartBa = ni.mgmtStartBa
  mappingBlocksTopBa : ni'.mappingBlocksTopBa = ni.mappingBlocksTopBa
  signatureBa : ni'.signatureBa = ni.signatureBa
  signature : ni'.signature = ni.signature
  mappingClean : ni.blockMappingChanged = 0 → ni'.blockMappingChanged = 0

theorem KeepsMap.trans {a b c : Instance} (hab : KeepsMap a b) (hbc : KeepsMap b c) :
    KeepsMap a c where
  blockMapping := hbc.blockMapping.trans hab.blockMapping
  dataBlockCount := hbc.dataBlockCount.trans hab.dataBlockCount
  mgmtStartBa := hbc.mgmtStartBa.trans hab.mgmtStartBa
  mappingBlocksTopBa := hbc.mappingBlocksTopBa.trans hab.mappingBlocksTopBa
  signatureBa := hbc.signatureBa.trans hab.signatureBa
  signature := hbc.signature.trans hab.signature
  mappingClean := hbc.mappingClean ∘ hab.mappingClean

/-- An update changes the records of the tables, and marks and writes blocks of
the management region below the last unmapped spare. -/
structure Updated (mtd : Mtd σ) (x y : Sys σ) : Prop where
  keeps : KeepsMap x.ni y.ni
  state : ∀ ba, y.ni.getBlockState ba = x.ni.getBlockState ba ∨
    (x.ni.mgmtStartBa ≤ ba ∧ ba < x.ni.mappingBlocksTopBa ∧ x.ni.IsGood ba ∧
      y.ni.getBlockState ba = blockStBad)
  count : ∀ n, x.ni.mappingBlocksTopBa ≤ n → y.ni.blockStateChanged + y.ni.goodCount n ≤
    x.ni.blockStateChanged + x.ni.goodCount n
  good : ∀ n, y.ni.goodCount n ≤ x.ni.goodCount n
  dev : mtd.Local → ∀ ba, ba < x.ni.mgmtStartBa ∨ x.ni.mappingBlocksTopBa ≤ ba →
    mtd.SameBlock x.dev y.dev ba

theorem Updated.trans {x y z : Sys σ} (hxy : Updated mtd x y) (hyz : Updated mtd y z) :
    Updated mtd x z where
  keeps := hxy.keeps.trans hyz.keeps
  state ba := by
    rcases hyz.state ba with hz | ⟨hlow, hhigh, hgood, hbad⟩
    · rw [hz]
      exact hxy.state ba
    · rw [hxy.keeps.mgmtStartBa] at hlow
      rw [hxy.keeps.mappingBlocksTopBa] at hhigh
      rcases hxy.state ba with hy | ⟨-, -, -, hbad'⟩
      · exact .inr ⟨hlow, hhigh, hy.symm.trans hgood, hbad⟩
      · exact .inl (hbad.trans hbad'.symm ▸ by
          unfold Instance.IsGood at hgood
          rw [hbad'] at hgood
          exact absurd hgood (by decide))
  count n hn := (hyz.count n (by rw [hxy.keeps.mappingBlocksTopBa]; exact hn)).trans
    (hxy.count n hn)
  good n := (hyz.good n).trans (hxy.good n)
  dev hlocal ba hba := (hxy.dev hlocal ba hba).trans (hyz.dev hlocal ba (by
    rw [hxy.keeps.mgmtStartBa, hxy.keeps.mappingBlocksTopBa]
    exact hba))

theorem Marked.updated {low high : ℕ} {x y : Sys σ} (h : Marked mtd low high x y)
    (hlow : x.ni.mgmtStartBa ≤ low) (hhigh : high ≤ x.ni.mappingBlocksTopBa) :
    Updated mtd x y where
  keeps := by
    rw [h.ni]
    exact ⟨rfl, rfl, rfl, rfl, rfl, rfl, id⟩
  state ba := (h.state ba).imp id fun ⟨hl, hh, hrest⟩ => ⟨by omega, by omega, hrest⟩
  count n hn := h.count n (by omega)
  good := h.good
  dev hlocal ba hba := h.dev hlocal ba (by omega)

theorem Marked.inOrder {low high : ℕ} {x y : Sys σ} (h : Marked mtd low high x y)
    (hx : InOrder x.ni) : InOrder y.ni := by
  rw [h.ni]
  exact ⟨hx.mgmt_pos, hx.mgmt_le, hx.base_le, hx.main, hx.backup, hx.apart, hx.cached⟩

/-- Writing into a range leaves the records of the tables. -/
structure SameRecords (ni ni' : Instance) : Prop where
  main : ni'.mainTableBa = ni.mainTableBa
  mainEnd : ni'.mainTableEnd = ni.mainTableEnd
  backup : ni'.backupTableBa = ni.backupTableBa
  backupEnd : ni'.backupTableEnd = ni.backupTableEnd
  base : ni'.mappingBlocksBa = ni.mappingBlocksBa
  top : ni'.mappingBlocksTopBa = ni.mappingBlocksTopBa
  mgmt : ni'.mgmtStartBa = ni.mgmtStartBa
  cache : ni'.infoTableCache = ni.infoTableCache

theorem Marked.sameRecords {low high : ℕ} {x y : Sys σ} (h : Marked mtd low high x y) :
    SameRecords x.ni y.ni := by
  rw [h.ni]
  exact ⟨rfl, rfl, rfl, rfl, rfl, rfl, rfl, rfl⟩

/-- A function of the records that leaves the block states. -/
theorem Updated.map {f : Instance → Instance} (hkeeps : KeepsMap x.ni (f x.ni))
    (hstate : (f x.ni).blockState = x.ni.blockState)
    (hchanged : (f x.ni).blockStateChanged ≤ x.ni.blockStateChanged) : Updated mtd x (x.map f) := by
  have hget : ∀ ba, (f x.ni).getBlockState ba = x.ni.getBlockState ba := by
    intro ba
    unfold Instance.getBlockState
    rw [hstate]
  have hcount : ∀ n, (f x.ni).goodCount n = x.ni.goodCount n := by
    intro n
    unfold Instance.goodCount
    congr 1
    refine List.filter_congr fun ba _ => decide_eq_decide.mpr ?_
    unfold Instance.IsGood
    rw [hget]
  refine ⟨hkeeps, fun ba => .inl (hget ba), fun n _ => ?_, fun n => (hcount n).le,
    fun _ _ _ => .refl _ _⟩
  change (f x.ni).blockStateChanged + (f x.ni).goodCount n ≤ _
  rw [hcount]
  omega

/-- Nothing is left to write, or good blocks were lost since. -/
structure Quiet (x y : Sys σ) : Prop where
  mapping : y.ni.blockMappingChanged = 0
  state : ∀ n, x.ni.mappingBlocksTopBa ≤ n →
    y.ni.blockStateChanged + y.ni.goodCount n ≤ x.ni.goodCount n

theorem Updated.quiet {x z y : Sys σ} (hxz : Updated mtd x z) (hzy : Updated mtd z y)
    (hstate : z.ni.blockStateChanged = 0) (hmapping : z.ni.blockMappingChanged = 0) :
    Quiet x y := by
  refine ⟨hzy.keeps.mappingClean hmapping, fun n hn => ?_⟩
  have hcount := hzy.count n (by rw [hxz.keeps.mappingBlocksTopBa]; exact hn)
  have hgood := hxz.good n
  omega

theorem Updated.refl (x : Sys σ) : Updated mtd x x :=
  ⟨⟨rfl, rfl, rfl, rfl, rfl, rfl, id⟩, fun _ => .inl rfl, fun _ _ => le_rfl, fun _ => le_rfl,
    fun _ _ _ => .refl _ _⟩

/-! ## Recording tables -/

section Records

variable {ni : Instance} {start stop : ℕ}

theorem InOrder.clean (h : InOrder ni) : InOrder ni.clean :=
  ⟨h.mgmt_pos, h.mgmt_le, h.base_le, h.main, h.backup, h.apart, h.cached⟩

theorem InOrder.single (h : InOrder ni) (hnone : ni.backupTableBa = 0)
    (hlow : ni.mgmtStartBa ≤ start) (hlt : start < stop) (hhigh : stop ≤ ni.mappingBlocksTopBa) :
    InOrder ((ni.setMain start stop).setBase stop) where
  mgmt_pos := h.mgmt_pos
  mgmt_le := hlow.trans hlt.le
  base_le := hhigh
  main := .inr ⟨hlow, hlt, le_rfl⟩
  backup := .inl hnone
  apart _ hne := absurd hnone hne
  cached := h.cached

theorem InOrder.second (h : InOrder ni) (hmain : ni.mainTableBa = 0 ∨ ni.mainTableEnd ≤ start)
    (hlow : ni.mgmtStartBa ≤ start) (hlt : start < stop) (hhigh : stop ≤ ni.mappingBlocksTopBa) :
    InOrder ((ni.setBackup start stop).setBase stop) where
  mgmt_pos := h.mgmt_pos
  mgmt_le := hlow.trans hlt.le
  base_le := hhigh
  main := by
    have := h.main
    change ni.mainTableBa = 0 ∨ (ni.mgmtStartBa ≤ ni.mainTableBa ∧
      ni.mainTableBa < ni.mainTableEnd ∧ ni.mainTableEnd ≤ stop)
    omega
  backup := .inr ⟨hlow, hlt, le_rfl⟩
  apart hne _ := hmain.resolve_left hne
  cached := h.cached

theorem InOrder.first (h : InOrder ni) (hlow : ni.mgmtStartBa ≤ start) (hlt : start < stop)
    (hhigh : stop ≤ ni.mappingBlocksBa)
    (hbackup : ni.backupTableBa = 0 ∨ stop ≤ ni.backupTableBa) :
    InOrder (ni.setMain start stop) where
  mgmt_pos := h.mgmt_pos
  mgmt_le := h.mgmt_le
  base_le := h.base_le
  main := .inr ⟨hlow, hlt, hhigh⟩
  backup := h.backup
  apart _ hne := hbackup.resolve_left hne
  cached := h.cached

/-- Both tables anew. -/
theorem InOrder.both (h : InOrder ni) {start' stop' : ℕ} (hlow : ni.mgmtStartBa ≤ start)
    (hlt : start < stop) (hapart : stop ≤ start') (hlt' : start' < stop')
    (hhigh : stop' ≤ ni.mappingBlocksBa) :
    InOrder ((ni.setMain start stop).setBackup start' stop') where
  mgmt_pos := h.mgmt_pos
  mgmt_le := h.mgmt_le
  base_le := h.base_le
  main := .inr ⟨hlow, hlt, hapart.trans (hlt'.le.trans hhigh)⟩
  backup := .inr ⟨hlow.trans (hlt.le.trans hapart), hlt', hhigh⟩
  apart _ _ := hapart
  cached := h.cached

theorem InOrder.promoteBackup (h : InOrder ni) : InOrder ni.promoteBackup where
  mgmt_pos := h.mgmt_pos
  mgmt_le := h.mgmt_le
  base_le := h.base_le
  main := h.backup
  backup := .inl rfl
  apart _ hne := absurd rfl hne
  cached := h.cached

theorem InOrder.dropBackup (h : InOrder ni) : InOrder (ni.setBackup 0 0) where
  mgmt_pos := h.mgmt_pos
  mgmt_le := h.mgmt_le
  base_le := h.base_le
  main := h.main
  backup := .inl rfl
  apart _ hne := absurd rfl hne
  cached := h.cached

/-- The spares begin where the backup table was. -/
theorem InOrder.loseBackup (h : InOrder ni) (hne : ni.backupTableBa ≠ 0) :
    InOrder ((ni.setBase ni.backupTableBa).setBackup 0 0) where
  mgmt_pos := h.mgmt_pos
  mgmt_le := (h.backup.resolve_left hne).1
  base_le := by
    have := h.backup.resolve_left hne
    have := h.base_le
    change ni.backupTableBa ≤ ni.mappingBlocksTopBa
    omega
  main := h.main.imp id fun ⟨hlow, hlt, _⟩ =>
    ⟨hlow, hlt, h.apart (by have := h.mgmt_pos; omega) hne⟩
  backup := .inl rfl
  apart _ hne := absurd rfl hne
  cached := h.cached

theorem InOrder.raise (h : InOrder ni) {ba : ℕ} (hlow : ni.mappingBlocksBa ≤ ba)
    (hhigh : ba ≤ ni.mappingBlocksTopBa) : InOrder (ni.setBase ba) where
  mgmt_pos := h.mgmt_pos
  mgmt_le := h.mgmt_le.trans hlow
  base_le := hhigh
  main := h.main.imp id fun ⟨h₁, h₂, h₃⟩ => ⟨h₁, h₂, h₃.trans hlow⟩
  backup := h.backup.imp id fun ⟨h₁, h₂, h₃⟩ => ⟨h₁, h₂, h₃.trans hlow⟩
  apart := h.apart
  cached := h.cached

end Records

/-! ## The parts of an update -/

/-- What an attempt to write the tables does: it updates them, keeps the records in
order, and leaves nothing to write when it succeeds. -/
structure Attempt (mtd : Mtd σ) (x : Sys σ) (result : Bool × Sys σ) : Prop where
  updated : Updated mtd x result.2
  inOrder : InOrder result.2.ni
  quiet : result.1 = true → Quiet x result.2

/-- A part of an update so far. -/
structure Progress (mtd : Mtd σ) (x y : Sys σ) : Prop where
  updated : Updated mtd x y
  inOrder : InOrder y.ni

variable {x : Sys σ}

theorem Progress.refl (h : InOrder x.ni) : Progress mtd x x := ⟨.refl x, h⟩

theorem Progress.trans {x y z : Sys σ} (hxy : Progress mtd x y) (hyz : Progress mtd y z) :
    Progress mtd x z :=
  ⟨hxy.updated.trans hyz.updated, hyz.inOrder⟩

theorem Marked.progress {low high : ℕ} {x y : Sys σ} (h : Marked mtd low high x y)
    (hx : InOrder x.ni) (hlow : x.ni.mgmtStartBa ≤ low)
    (hhigh : high ≤ x.ni.mappingBlocksTopBa) : Progress mtd x y :=
  ⟨h.updated hlow hhigh, h.inOrder hx⟩

theorem Progress.map {f : Instance → Instance} (hkeeps : KeepsMap x.ni (f x.ni))
    (hstate : (f x.ni).blockState = x.ni.blockState)
    (hchanged : (f x.ni).blockStateChanged ≤ x.ni.blockStateChanged) (hinOrder : InOrder (f x.ni)) :
    Progress mtd x (x.map f) :=
  ⟨.map hkeeps hstate hchanged, hinOrder⟩

theorem Progress.attempt {x z y : Sys σ} (hxz : Progress mtd x z) (hzy : Progress mtd z y)
    (hstate : z.ni.blockStateChanged = 0) (hmapping : z.ni.blockMappingChanged = 0) :
    Attempt mtd x (true, y) :=
  ⟨(hxz.trans hzy).updated, hzy.inOrder, fun _ => hxz.updated.quiet hzy.updated hstate hmapping⟩

theorem Progress.write {x y : Sys σ} {ba limit : ℕ} {range : Option (ℕ × ℕ)}
    (hx : InOrder x.ni) (hlow : x.ni.mgmtStartBa ≤ ba) (hhigh : limit ≤ x.ni.mappingBlocksTopBa)
    (h : writeInfoTable g mtd ba limit x = (range, y)) :
    Progress mtd x y ∧ SameRecords x.ni y.ni ∧
      ∀ start stop, range = some (start, stop) → ba ≤ start ∧ start < stop ∧ stop ≤ limit := by
  obtain ⟨hmarked, hrange⟩ := writeInfoTable_spec g mtd ba limit x
  rw [h] at hmarked hrange
  exact ⟨hmarked.progress hx hlow hhigh, hmarked.sameRecords,
    fun start stop heq => hrange start stop hx.cached heq⟩

theorem Progress.writeDown {x y : Sys σ} {ba low : ℕ} {range : Option (ℕ × ℕ)}
    (hx : InOrder x.ni) (hmgmt : x.ni.mgmtStartBa ≤ low) (hlow : low ≤ ba)
    (h : writeDown g mtd ba low x = (range, y)) :
    Progress mtd x y ∧ SameRecords x.ni y.ni ∧
      ∀ start stop, range = some (start, stop) →
        low ≤ start ∧ start < stop ∧ stop ≤ x.ni.mappingBlocksTopBa := by
  obtain ⟨hmarked, hrange⟩ := writeDown_spec g mtd ba low x hlow
  rw [h] at hmarked hrange
  exact ⟨hmarked.progress hx hmgmt le_rfl, hmarked.sameRecords,
    fun start stop heq => hrange start stop hx.cached heq⟩

variable (g mtd) in
theorem Progress.erase (ba limit : ℕ) (hx : InOrder x.ni) (hlow : x.ni.mgmtStartBa ≤ ba)
    (hhigh : limit ≤ x.ni.mappingBlocksTopBa) :
    Progress mtd x (eraseRange g mtd ba limit x) :=
  (eraseRange_marked ba limit x).progress hx hlow hhigh

theorem rebuildInfoTable_spec (hpos : 0 < x.ni.mgmtStartBa)
    (hle : x.ni.mgmtStartBa ≤ x.ni.mappingBlocksTopBa) (hcache : x.ni.infoTableCache ≠ []) :
    Attempt mtd x (rebuildInfoTable g mtd x) := by
  unfold rebuildInfoTable
  dsimp only
  generalize hx₀ : x.map (fun ni => ((ni.setMain 0 0).setBackup 0 0).setBase
    ni.mappingBlocksTopBa) = x₀
  have hstart : Progress mtd x x₀ := by
    rw [← hx₀]
    exact .map ⟨rfl, rfl, rfl, rfl, rfl, rfl, id⟩ rfl le_rfl
      ⟨hpos, hle, le_rfl, .inl rfl, .inl rfl, fun h => absurd rfl h, hcache⟩
  have hnone : x₀.ni.backupTableBa = 0 := by rw [← hx₀]; rfl
  split
  case h_1 y heq =>
    obtain ⟨hwrite, -, -⟩ := Progress.write hstart.inOrder le_rfl le_rfl heq
    have hy := hstart.trans hwrite
    have hlast : Progress mtd y (y.map .protect) :=
      .map ⟨rfl, rfl, rfl, rfl, rfl, rfl, id⟩ rfl le_rfl
        ⟨hy.inOrder.mgmt_pos, hy.inOrder.mgmt_le, hy.inOrder.base_le, hy.inOrder.main,
          hy.inOrder.backup, hy.inOrder.apart, hy.inOrder.cached⟩
    exact ⟨(hy.trans hlast).updated, hlast.inOrder, by simp⟩
  case h_2 mainStart mainEnd y heq =>
    obtain ⟨hwrite, hsame, hrange⟩ := Progress.write hstart.inOrder le_rfl le_rfl heq
    obtain ⟨hlow, hlt, hhigh⟩ := hrange mainStart mainEnd rfl
    have hy := hstart.trans hwrite
    rw [← hsame.mgmt] at hlow
    rw [← hsame.top] at hhigh
    -- the main table is recorded, and all is clean
    generalize hx₁ : y.map (fun ni =>
      ((ni.setMain mainStart mainEnd).setBase mainEnd).clean) = x₁
    have hone : Progress mtd y x₁ := by
      rw [← hx₁]
      exact .map ⟨rfl, rfl, rfl, rfl, rfl, rfl, fun _ => rfl⟩ rfl (Nat.zero_le _)
        (hy.inOrder.single (hsame.backup.trans hnone) hlow hlt hhigh).clean
    have hclean : x₁.ni.blockStateChanged = 0 ∧ x₁.ni.blockMappingChanged = 0 := by
      rw [← hx₁]
      exact ⟨rfl, rfl⟩
    have hmain : x₁.ni.mainTableEnd = mainEnd ∧ x₁.ni.mgmtStartBa ≤ mainEnd := by
      rw [← hx₁]
      exact ⟨rfl, hlow.trans hlt.le⟩
    split
    case h_1 => exact (hy.trans hone).attempt (.refl hone.inOrder) hclean.1 hclean.2
    case h_2 next hnext =>
      have hnext := (Instance.tryReserveBlocks_spec hnext).1
      split
      case h_1 z heq =>
        obtain ⟨hwrite₁, -, -⟩ := Progress.write hone.inOrder (hmain.2.trans hnext) le_rfl heq
        exact (hy.trans hone).attempt hwrite₁ hclean.1 hclean.2
      case h_2 start stop z heq =>
        obtain ⟨hwrite₁, hsame₁, hrange₁⟩ :=
          Progress.write hone.inOrder (hmain.2.trans hnext) le_rfl heq
        obtain ⟨hlow₁, hlt₁, hhigh₁⟩ := hrange₁ start stop rfl
        rw [← hsame₁.top] at hhigh₁
        have hend : z.ni.mainTableEnd = mainEnd := hsame₁.mainEnd.trans hmain.1
        have hmgmt : z.ni.mgmtStartBa ≤ mainEnd := hsame₁.mgmt.symm ▸ hmain.2
        have htwo : Progress mtd z (z.map fun ni => (ni.setBackup start stop).setBase stop) :=
          .map ⟨rfl, rfl, rfl, rfl, rfl, rfl, id⟩ rfl le_rfl
            (hwrite₁.inOrder.second (.inr (by omega)) (by omega) hlt₁ hhigh₁)
        have herase := Progress.erase g mtd mainEnd start htwo.inOrder hmgmt
          (hlt₁.le.trans hhigh₁)
        exact (hy.trans hone).attempt ((hwrite₁.trans htwo).trans herase) hclean.1 hclean.2

/-- Rescuing the main table always leaves one. -/
theorem rescueMainInfoTable_spec (hx : InOrder x.ni) :
    Progress mtd x (rescueMainInfoTable g mtd x).2 ∧ (rescueMainInfoTable g mtd x).1 = true := by
  unfold rescueMainInfoTable
  have hpromote : ∀ y, Progress mtd x y → Progress mtd x (y.map .promoteBackup) := fun y hy =>
    hy.trans (.map ⟨rfl, rfl, rfl, rfl, rfl, rfl, id⟩ rfl le_rfl hy.inOrder.promoteBackup)
  split
  case h_1 => exact ⟨hpromote x (.refl hx), rfl⟩
  case h_2 writeBa hreserve =>
    have hreserve := (Instance.tryReserveBlocks_spec hreserve).1
    split
    case h_1 y heq =>
      obtain ⟨hwrite, -, -⟩ := Progress.writeDown hx hx.mgmt_le hreserve heq
      exact ⟨hpromote y hwrite, rfl⟩
    case h_2 tmpStart tmpEnd y heq =>
      obtain ⟨hwrite, hsame, hrange⟩ := Progress.writeDown hx hx.mgmt_le hreserve heq
      obtain ⟨hlow, hlt, hhigh⟩ := hrange tmpStart tmpEnd rfl
      rw [← hsame.base] at hlow
      rw [← hsame.top] at hhigh
      -- the temporary table lies above both others
      have hraise : Progress mtd y (y.map fun ni => ni.setBase tmpEnd) :=
        .map ⟨rfl, rfl, rfl, rfl, rfl, rfl, id⟩ rfl le_rfl
          (hwrite.inOrder.raise (hlow.trans hlt.le) hhigh)
      have hx₁ := hwrite.trans hraise
      generalize hy₁ : y.map (fun ni => ni.setBase tmpEnd) = y₁ at hx₁ hraise ⊢
      have hmgmt : y₁.ni.mgmtStartBa ≤ tmpStart := by
        rw [← hy₁]
        exact hwrite.inOrder.mgmt_le.trans hlow
      have hbase : y₁.ni.mappingBlocksBa = tmpEnd := by
        rw [← hy₁]
        rfl
      have htop : tmpEnd ≤ y₁.ni.mappingBlocksTopBa := by
        rw [← hy₁]
        exact hhigh
      dsimp only
      split
      case h_1 z heq =>
        obtain ⟨hwrite₁, hsame₁, -⟩ := Progress.write hx₁.inOrder le_rfl (hlt.le.trans htop) heq
        have hmain : InOrder ((z.ni.setBackup 0 0).setMain tmpStart tmpEnd) :=
          hwrite₁.inOrder.dropBackup.first (hsame₁.mgmt.symm ▸ hmgmt) hlt
            (hsame₁.base.symm ▸ hbase.ge) (.inl rfl)
        have hlast : Progress mtd z
            (z.map fun ni => ((ni.setMain tmpStart tmpEnd).setBackup 0 0).clean) :=
          .map ⟨rfl, rfl, rfl, rfl, rfl, rfl, fun _ => rfl⟩ rfl (Nat.zero_le _) hmain.clean
        exact ⟨(hx₁.trans hwrite₁).trans hlast, rfl⟩
      case h_2 mainStart mainEnd z heq =>
        obtain ⟨hwrite₁, hsame₁, hrange₁⟩ :=
          Progress.write hx₁.inOrder le_rfl (hlt.le.trans htop) heq
        obtain ⟨hlow₁, hlt₁, hhigh₁⟩ := hrange₁ mainStart mainEnd rfl
        -- the main table ends below the temporary one
        rw [if_pos hhigh₁]
        have hboth : InOrder ((z.ni.setMain mainStart mainEnd).setBackup tmpStart tmpEnd) :=
          hwrite₁.inOrder.both (hsame₁.mgmt.symm ▸ hlow₁) hlt₁ hhigh₁ hlt
            (hsame₁.base.symm ▸ hbase.ge)
        have hlast : Progress mtd z (z.map fun ni =>
          ((ni.setMain mainStart mainEnd).clean).setBackup tmpStart tmpEnd) :=
          .map ⟨rfl, rfl, rfl, rfl, rfl, rfl, fun _ => rfl⟩ rfl (Nat.zero_le _) hboth.clean
        exact ⟨(hx₁.trans hwrite₁).trans hlast, rfl⟩

theorem Attempt.of_progress {x y : Sys σ} {result : Bool × Sys σ} (hxy : Progress mtd x y)
    (h : Attempt mtd y result) : Attempt mtd x result := by
  refine ⟨hxy.updated.trans h.updated, h.inOrder, fun hok => ⟨(h.quiet hok).mapping, fun n hn => ?_⟩⟩
  have hcount := (h.quiet hok).state n (by rw [hxy.updated.keeps.mappingBlocksTopBa]; exact hn)
  exact hcount.trans (hxy.updated.good n)

/-- The second half of an update, where the first half has left a clean backup
table or none. -/
theorem updateMainTable_spec {limit : ℕ} (hx : InOrder x.ni)
    (hnone : x.ni.backupTableBa = 0 → limit = x.ni.mappingBlocksTopBa)
    (hsome : x.ni.backupTableBa ≠ 0 → limit = x.ni.backupTableBa ∧
      x.ni.blockStateChanged = 0 ∧ x.ni.blockMappingChanged = 0) :
    Attempt mtd x (updateMainTable g mtd limit x) := by
  have hlimit : limit ≤ x.ni.mappingBlocksTopBa := by
    by_cases hb : x.ni.backupTableBa = 0
    · exact (hnone hb).le
    · have := hx.backup.resolve_left hb
      have := hx.base_le
      have := (hsome hb).1
      omega
  have hrebuild : ∀ y, Progress mtd x y → Attempt mtd x (rebuildInfoTable g mtd y) := fun y hy =>
    .of_progress hy (rebuildInfoTable_spec hy.inOrder.mgmt_pos
      (hy.inOrder.mgmt_le.trans hy.inOrder.base_le) hy.inOrder.cached)
  unfold updateMainTable
  split
  case isTrue => exact hrebuild x (.refl hx)
  case isFalse hmain =>
    have hlow := (hx.main.resolve_left hmain).1
    split
    case h_1 y heq =>
      obtain ⟨hwrite, hsame, -⟩ := Progress.write hx hlow hlimit heq
      split
      case isTrue => exact hrebuild y hwrite
      case isFalse hb =>
        obtain ⟨-, hstate, hmapping⟩ := hsome (hsame.backup ▸ hb)
        obtain ⟨hrescue, hok⟩ := rescueMainInfoTable_spec (g := g) hwrite.inOrder
        have := (Progress.refl hx).attempt (hwrite.trans hrescue) hstate hmapping
        rwa [← hok] at this
    case h_2 start stop y heq =>
      obtain ⟨hwrite, hsame, hrange⟩ := Progress.write hx hlow hlimit heq
      obtain ⟨hlow₁, hlt, hhigh⟩ := hrange start stop rfl
      have hmgmt : y.ni.mgmtStartBa ≤ start := by
        have := hsame.mgmt
        omega
      have hlast : Progress mtd y (y.map fun ni =>
        (if ni.backupTableBa = 0 then (ni.setMain start stop).setBase stop
          else ni.setMain start stop).clean) := by
        by_cases hb : y.ni.backupTableBa = 0
        · have hinOrder : InOrder ((y.ni.setMain start stop).setBase stop) :=
            hwrite.inOrder.single hb hmgmt hlt (by have := hsame.top; omega)
          refine .map ?_ ?_ ?_ ?_ <;> simp only [hb, if_true]
          exacts [⟨rfl, rfl, rfl, rfl, rfl, rfl, fun _ => rfl⟩, rfl, Nat.zero_le _, hinOrder.clean]
        · have hbackup := hsome (hsame.backup ▸ hb)
          have hinOrder : InOrder (y.ni.setMain start stop) := by
            refine hwrite.inOrder.first hmgmt hlt ?_ (.inr ?_)
            · have := hwrite.inOrder.backup.resolve_left hb
              have := hsame.backup
              omega
            · have := hsame.backup
              omega
          refine .map ?_ ?_ ?_ ?_ <;> simp only [hb, if_false]
          exacts [⟨rfl, rfl, rfl, rfl, rfl, rfl, fun _ => rfl⟩, rfl, Nat.zero_le _, hinOrder.clean]
      refine (hwrite.trans hlast).attempt (.refl hlast.inOrder) ?_ ?_
      · change (Instance.clean _).blockStateChanged = 0
        rfl
      · change (Instance.clean _).blockMappingChanged = 0
        rfl

/-! ## The whole update -/

theorem Chip.infoTablePages_pos (g : Chip) : 0 < g.infoTablePages := by
  have hpos := g.pgWords_pos
  have hheader : g.pgWords ≤ g.stateTableOff := by
    unfold stateTableOff alignPages
    exact Nat.le_mul_of_pos_left _ (Nat.div_pos (by omega) hpos)
  unfold infoTablePages infoTableWords mappingTableOff
  exact Nat.div_pos (by omega) hpos

theorem toPages_ne_nil (g : Chip) (words : List Word) : toPages g words ≠ [] := by
  have hpos := g.infoTablePages_pos
  intro h
  have := congrArg List.length h
  simp [toPages] at this
  omega

variable (g mtd) in
theorem updateBothTables_spec (hx : InOrder x.ni) : Attempt mtd x (updateBothTables g mtd x) := by
  unfold updateBothTables
  split
  case isTrue hnone => exact updateMainTable_spec hx (fun _ => rfl) fun hne => absurd hnone hne
  case isFalse hb =>
    have hbackup := hx.backup.resolve_left hb
    split
    case h_1 y heq =>
      obtain ⟨hwrite, hsame, -⟩ := Progress.write hx hbackup.1 le_rfl heq
      have hlose : Progress mtd y (y.map fun ni => (ni.setBase ni.backupTableBa).setBackup 0 0) :=
        .map ⟨rfl, rfl, rfl, rfl, rfl, rfl, id⟩ rfl le_rfl
          (hwrite.inOrder.loseBackup (hsame.backup.symm ▸ hb))
      exact .of_progress (hwrite.trans hlose)
        (updateMainTable_spec hlose.inOrder (fun _ => rfl) fun hne => absurd rfl hne)
    case h_2 start stop y heq =>
      obtain ⟨hwrite, hsame, hrange⟩ := Progress.write hx hbackup.1 le_rfl heq
      obtain ⟨hlow, hlt, hhigh⟩ := hrange start stop rfl
      have hlast : Progress mtd y
          (y.map fun ni => ((ni.setBackup start stop).setBase stop).clean) := by
        refine .map ⟨rfl, rfl, rfl, rfl, rfl, rfl, fun _ => rfl⟩ rfl (Nat.zero_le _)
          (hwrite.inOrder.second ?_ ?_ hlt (hsame.top.symm ▸ hhigh)).clean
        · by_cases hmain : y.ni.mainTableBa = 0
          · exact .inl hmain
          · have := hwrite.inOrder.apart hmain (hsame.backup.symm ▸ hb)
            have := hsame.backup
            exact .inr (by omega)
        · have := hsame.mgmt
          omega
      exact .of_progress (hwrite.trans hlast)
        (updateMainTable_spec hlast.inOrder
          (fun hnone => absurd hnone (by change start ≠ 0; have := hx.mgmt_pos; omega))
          fun _ => ⟨rfl, rfl, rfl⟩)

variable (g crc) in
theorem Progress.generate (hx : InOrder x.ni) :
    Progress mtd x (x.map fun ni => (generateInfoTableCache g crc ni).2) :=
  .map ⟨rfl, rfl, rfl, rfl, rfl, rfl, id⟩ rfl le_rfl
    ⟨hx.mgmt_pos, hx.mgmt_le, hx.base_le, hx.main, hx.backup, hx.apart, toPages_ne_nil g _⟩

variable (g crc mtd) in
/-- One round writes what has changed, or finds nothing to write. -/
theorem updateInfoTableOnce_spec (force : Bool) (hx : InOrder x.ni) :
    Attempt mtd x (updateInfoTableOnce g crc mtd force x) := by
  have hgen : Progress mtd x (x.map fun ni => (generateInfoTableCache g crc ni).2) :=
    .generate g crc hx
  unfold updateInfoTableOnce
  dsimp only
  split
  case isTrue hstop =>
    have hclean : ¬ x.ni.Changed := by simpa [generateInfoTableCache] using hstop.1
    simp only [Instance.Changed, not_or, not_not] at hclean
    exact (Progress.refl hx).attempt hgen hclean.1 hclean.2
  case isFalse => exact .of_progress hgen (updateBothTables_spec g mtd hgen.inOrder)

variable (g crc mtd) in
theorem updateInfoTableFrom_spec (fuel : ℕ) (hx : InOrder x.ni) :
    Progress mtd x (updateInfoTableFrom g crc mtd fuel x).2 := by
  induction fuel generalizing x with
  | zero => exact .refl hx
  | succ fuel ih =>
    unfold updateInfoTableFrom
    split
    case isTrue =>
      have honce := updateInfoTableOnce_spec g crc mtd false hx
      split
      case h_1 y heq =>
        rw [heq] at honce
        exact ⟨honce.updated, honce.inOrder⟩
      case h_2 y heq =>
        rw [heq] at honce
        exact Progress.trans ⟨honce.updated, honce.inOrder⟩ (ih honce.inOrder)
    case isFalse => exact .refl hx

variable (g crc mtd) in
theorem updateInfoTable_spec (hx : InOrder x.ni) :
    Progress mtd x (updateInfoTable g crc mtd x).2 := by
  unfold updateInfoTable
  split
  case isTrue => exact .refl hx
  case isFalse => exact updateInfoTableFrom_spec g crc mtd _ hx

theorem Instance.goodCount_le (ni : Instance) (n : ℕ) : ni.goodCount n ≤ n := by
  unfold goodCount
  exact (List.length_filter_le _ _).trans (List.length_range).le

end Spec

end OpenWrt.MtkBmt.Nmbm
