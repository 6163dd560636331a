/-
# NMBM maps blocks apart

A data block is at home, below the management region, or at a spare above the
last unmapped one. The homes grow with the logical blocks, never closer than
these, and no spare is used twice. Updates of the tables stay between the start
of the management region and the last unmapped spare, so they touch neither.

Two steps can break this. Taking a spare moves `mapping_blocks_top_ba` down by
one, not below the spare: when the walk has passed over a bad block, the spare
stays among the unmapped ones and is taken again. And an unmap counts from the
lower neighbour's block, which leads out of the data area for a block that never
had a place there. The runs in which neither happens keep the invariant.
-/

import OpenWrt.Lib.Run
import OpenWrt.MtkBmt.Nmbm.Mapping
import OpenWrt.MtkBmt.Nmbm.TableSpec

namespace OpenWrt.MtkBmt.Nmbm

open OpenWrt.Lib

/-! ## Walks and searches -/

section Walk

variable {g : Geometry} {ni : Instance}

theorem Instance.walkDescFrom_spec {fuel ba count next : ℕ}
    (h : ni.walkDescFrom fuel ba count = some next) (hfuel : fuel ≤ ba) :
    next + count ≤ ba ∧ ba < next + fuel ∧ ni.IsGood next := by
  induction fuel generalizing ba count with
  | zero => cases h
  | succ fuel ih =>
    unfold walkDescFrom at h
    split at h
    case isTrue hgood =>
      cases count with
      | zero =>
        cases h
        exact ⟨le_rfl, by omega, hgood⟩
      | succ count =>
        have := ih h (by omega)
        exact ⟨by omega, by omega, this.2.2⟩
    case isFalse =>
      have := ih h (by omega)
      exact ⟨by omega, by omega, this.2.2⟩

theorem Instance.blockWalkDesc_spec {ba count limit next : ℕ}
    (h : ni.blockWalkDesc g ba count limit = some next) (hlimit : limit < g.blockCount) :
    next + count ≤ ba ∧ limit < next ∧ ni.IsGood next := by
  unfold blockWalkDesc at h
  have hspec := walkDescFrom_spec h (by omega)
  exact ⟨hspec.1, by omega, hspec.2.2⟩

def Instance.TopGood (g : Geometry) (ni : Instance) : Prop :=
  ni.IsGood ni.mappingBlocksTopBa ∨ ni.nextSpare g = none

instance (ni : Instance) : Decidable (ni.TopGood g) := inferInstanceAs (Decidable (_ ∨ _))

theorem Instance.walkDescFrom_congr {ni ni' : Instance} (h : ni'.blockState = ni.blockState)
    (fuel ba count : ℕ) : ni'.walkDescFrom fuel ba count = ni.walkDescFrom fuel ba count := by
  induction fuel generalizing ba count with
  | zero => rfl
  | succ fuel ih =>
    have hgood : ni'.IsGood ba ↔ ni.IsGood ba := by rw [IsGood, IsGood, getBlockState, h]; rfl
    unfold walkDescFrom
    by_cases hba : ni.IsGood ba
    · rw [if_pos hba, if_pos (hgood.mpr hba)]
      cases count with
      | zero => rfl
      | succ count => exact ih _ _
    · rw [if_neg hba, if_neg (mt hgood.mp hba)]
      exact ih _ _

theorem Instance.TopGood.congr {ni ni' : Instance} (hgood : ni.TopGood g)
    (hstate : ni'.blockState = ni.blockState) (hbase : ni'.mappingBlocksBa = ni.mappingBlocksBa)
    (htop : ni'.mappingBlocksTopBa = ni.mappingBlocksTopBa) : ni'.TopGood g := by
  unfold TopGood nextSpare blockWalkDesc at hgood ⊢
  rwa [walkDescFrom_congr hstate, IsGood, getBlockState, hstate, hbase, htop]

theorem Instance.TopGood.eq_top (h : ni.TopGood g) {pb : ℕ} (hpb : ni.nextSpare g = some pb) :
    pb = ni.mappingBlocksTopBa := by
  rcases h with hgood | hnone
  · unfold nextSpare blockWalkDesc at hpb
    generalize ni.mappingBlocksTopBa - min ni.mappingBlocksBa (g.blockCount - 1) = fuel at hpb
    cases fuel with
    | zero => cases hpb
    | succ fuel =>
      unfold walkDescFrom at hpb
      rw [if_pos hgood] at hpb
      cases hpb
      rfl
  · rw [hnone] at hpb
    cases hpb

theorem Instance.lowerHome_spec {block offset start stop : ℕ}
    (h : ni.lowerHome block offset = some (start, stop)) :
    start ≤ block ∧ stop = offset + (block - start) ∧ ¬ ni.Remapped start ∧
      ∀ i, start < i → i ≤ block → ni.Remapped i := by
  induction block generalizing offset with
  | zero =>
    unfold lowerHome at h
    split at h
    case isTrue => cases h
    case isFalse hhome =>
      cases h
      exact ⟨le_rfl, by omega, hhome, by omega⟩
  | succ block ih =>
    unfold lowerHome at h
    split at h
    case isTrue hremapped =>
      obtain ⟨hle, hstop, hhome, hbetween⟩ := ih h
      refine ⟨by omega, by omega, hhome, fun i hi hib => ?_⟩
      rcases Nat.lt_or_eq_of_le hib with hlt | rfl
      · exact hbetween i hi (by omega)
      · exact hremapped
    case isFalse hhome =>
      cases h
      exact ⟨le_rfl, by omega, hhome, by omega⟩

/-- The block before all spares in use is before each of them and before the
signature, and no further down than that asks for. -/
theorem Instance.belowSpares_spec (ni : Instance) :
    ni.belowSpares < ni.signatureBa ∧
      (∀ i < ni.dataBlockCount, ni.Remapped i → ni.belowSpares < ni.blockMapping i) ∧
      ∀ low : ℤ, low < ni.signatureBa →
        (∀ i < ni.dataBlockCount, ni.Remapped i → low < ni.blockMapping i) →
          low ≤ ni.belowSpares := by
  unfold belowSpares
  generalize ni.dataBlockCount = n
  induction n with
  | zero =>
    simp only [List.range_zero, List.foldl_nil]
    exact ⟨by omega, by omega, by omega⟩
  | succ n ih =>
    obtain ⟨hsig, hbelow, hleast⟩ := ih
    rw [List.range_succ, List.foldl_append, List.foldl_cons, List.foldl_nil]
    generalize (List.range n).foldl _ _ = top at *
    split
    case isTrue hmove =>
      refine ⟨by omega, fun i hi hremapped => ?_, fun low hlow hall => ?_⟩
      · rcases Nat.lt_succ_iff_lt_or_eq.mp hi with hlt | rfl
        · have := hbelow i hlt hremapped
          omega
        · omega
      · have := hall n (by omega) hmove.1
        omega
    case isFalse hstay =>
      refine ⟨hsig, fun i hi hremapped => ?_, fun low hlow hall => ?_⟩
      · rcases Nat.lt_succ_iff_lt_or_eq.mp hi with hlt | rfl
        · exact hbelow i hlt hremapped
        · by_contra hle
          exact hstay ⟨hremapped, by omega⟩
      · exact hleast low hlow fun i hi => hall i (by omega)

end Walk

/-! ## The mapping -/

/-- The first `n` logical blocks are at homes in growing order or at distinct
spares between the top and the signature. -/
structure MapSound (g : Geometry) (n : ℕ) (ni : Instance) : Prop where
  placed : ∀ i < n, (0 ≤ ni.blockMapping i ∧ ni.blockMapping i < ni.mgmtStartBa) ∨
    (ni.mappingBlocksTopBa < ni.blockMapping i ∧ ni.blockMapping i < ni.signatureBa)
  homes : ∀ i j, i < j → j < n → ni.blockMapping i < ni.mgmtStartBa →
    ni.blockMapping j < ni.mgmtStartBa → ni.blockMapping i + (j - i : ℤ) ≤ ni.blockMapping j
  spares : ∀ i < n, ∀ j < n, ni.mappingBlocksTopBa < ni.blockMapping i →
    ni.blockMapping i = ni.blockMapping j → i = j
  top_lt : ni.mappingBlocksTopBa < ni.signatureBa
  signature_lt : ni.signatureBa < g.blockCount

section Mapping

variable {g : Geometry} {ni ni' : Instance} {n : ℕ}

theorem MapSound.of_keeps (h : MapSound g n ni) (hkeeps : KeepsMap ni ni') : MapSound g n ni' := by
  obtain ⟨hmapping, -, hmgmt, htop, hsig, -, -⟩ := hkeeps
  constructor <;> simp only [hmapping, hmgmt, htop, hsig]
  exacts [h.placed, h.homes, h.spares, h.top_lt, h.signature_lt]

/-- Taking the spare on top, for one of the logical blocks or the next one. -/
theorem MapSound.takeSpare {n' lb : ℕ} (h : MapSound g n ni) (hx : InOrder ni)
    (hroom : ni.mappingBlocksBa < ni.mappingBlocksTopBa) (hn : ∀ i < n', i = lb ∨ i < n) :
    MapSound g n' (ni.takeSpare lb ni.mappingBlocksTopBa) := by
  have hmgmt := hx.mgmt_le
  have hself : (ni.takeSpare lb ni.mappingBlocksTopBa).blockMapping lb =
      ni.mappingBlocksTopBa := Function.update_self _ _ _
  have hother : ∀ i, i ≠ lb →
      (ni.takeSpare lb ni.mappingBlocksTopBa).blockMapping i = ni.blockMapping i :=
    fun i hi => Function.update_of_ne hi _ _
  have htop : (ni.takeSpare lb ni.mappingBlocksTopBa).mappingBlocksTopBa =
      ni.mappingBlocksTopBa - 1 := rfl
  have hsame : (ni.takeSpare lb ni.mappingBlocksTopBa).mgmtStartBa = ni.mgmtStartBa ∧
      (ni.takeSpare lb ni.mappingBlocksTopBa).signatureBa = ni.signatureBa := ⟨rfl, rfl⟩
  have hlt := h.top_lt
  constructor <;> simp only [htop, hsame]
  · intro i hi
    by_cases hlb : i = lb
    · subst hlb
      rw [hself]
      omega
    · rw [hother i hlb]
      have := h.placed i ((hn i hi).resolve_left hlb)
      omega
  · intro i j hij hj hmi hmj
    have hilb : i ≠ lb := by
      rintro rfl
      omega
    have hjlb : j ≠ lb := by
      rintro rfl
      omega
    rw [hother i hilb] at hmi ⊢
    rw [hother j hjlb] at hmj ⊢
    exact h.homes i j hij ((hn j hj).resolve_left hjlb) hmi hmj
  · intro i hi j hj hmi hmij
    by_cases hilb : i = lb
    · by_cases hjlb : j = lb
      · rw [hilb, hjlb]
      · subst hilb
        rw [hself, hother j hjlb] at hmij
        have := h.placed j ((hn j hj).resolve_left hjlb)
        omega
    · have hpi := h.placed i ((hn i hi).resolve_left hilb)
      rw [hother i hilb] at hmi hmij
      by_cases hjlb : j = lb
      · subst hjlb
        rw [hself] at hmij
        omega
      · rw [hother j hjlb] at hmij
        exact h.spares i ((hn i hi).resolve_left hilb) j ((hn j hj).resolve_left hjlb)
          (by omega) hmij
  · omega
  · exact h.signature_lt

theorem InOrder.takeSpare (hx : InOrder ni) (lb pb : ℕ)
    (hroom : ni.mappingBlocksBa < ni.mappingBlocksTopBa) : InOrder (ni.takeSpare lb pb) where
  mgmt_pos := hx.mgmt_pos
  mgmt_le := hx.mgmt_le
  base_le := Nat.le_sub_one_of_lt hroom
  main := hx.main
  backup := hx.backup
  apart := hx.apart
  cached := hx.cached

/-- When the spares have run out, none is left above the tables. -/
theorem MapSound.exhaust (h : MapSound g n ni) (hx : InOrder ni) :
    MapSound g n { ni with mappingBlocksTopBa := ni.mappingBlocksBa } where
  placed i hi := by
    have := h.placed i hi
    have := hx.base_le
    dsimp only
    omega
  homes := h.homes
  spares i hi j hj hmi hmij := by
    refine h.spares i hi j hj ?_ hmij
    have := h.placed i hi
    have := hx.mgmt_le
    dsimp only at hmi
    omega
  top_lt := Nat.lt_of_le_of_lt hx.base_le h.top_lt
  signature_lt := h.signature_lt

theorem InOrder.exhaust (hx : InOrder ni) :
    InOrder { ni with mappingBlocksTopBa := ni.mappingBlocksBa } :=
  ⟨hx.mgmt_pos, hx.mgmt_le, le_rfl, hx.main, hx.backup, hx.apart, hx.cached⟩

/-- Putting a block back keeps the mapping sound when its place is in the data
area. -/
theorem MapSound.putBack {block start : ℕ} (h : MapSound g ni.dataBlockCount ni)
    (hx : InOrder ni) (hblock : block < ni.dataBlockCount) (hstart : start < block)
    (hhome : ¬ ni.Remapped start) (hbetween : ∀ i, start < i → i ≤ block → ni.Remapped i)
    (hfits : ni.blockMapping start + (block - start : ℕ) < ni.mgmtStartBa) :
    MapSound g ni.dataBlockCount (ni.putBack block start (block - start)) ∧
      InOrder (ni.putBack block start (block - start)) := by
  have hmgmt := hx.mgmt_le
  have hbase := hx.base_le
  have hsig := h.signature_lt
  have hcount := g.blockCount_lt
  have hremapped : ∀ i < ni.dataBlockCount, ni.Remapped i ↔
      (ni.mappingBlocksTopBa : ℤ) < ni.blockMapping i := by
    intro i hi
    have := h.placed i hi
    unfold Instance.Remapped
    omega
  have hlow : 0 ≤ ni.blockMapping start ∧ ni.blockMapping start < ni.mgmtStartBa := by
    have := h.placed start (by omega)
    unfold Instance.Remapped at hhome
    omega
  generalize hnew : ni.blockMapping start + (block - start : ℕ) = newBlock at hfits
  -- the instance before the top is moved
  generalize hmid : ({ ni.setBlockState newBlock.toNat blockStGood with
    blockMapping := Function.update ni.blockMapping block newBlock
    blockMappingChanged := ni.blockMappingChanged + 1 } : Instance) = mid
  have hself : mid.blockMapping block = newBlock := by
    rw [← hmid]
    exact Function.update_self _ _ _
  have hother : ∀ i, i ≠ block → mid.blockMapping i = ni.blockMapping i := by
    intro i hi
    rw [← hmid]
    exact Function.update_of_ne hi _ _
  have hmidBase : mid.mappingBlocksBa = ni.mappingBlocksBa := by rw [← hmid]; rfl
  have hmidSig : mid.signatureBa = ni.signatureBa := by rw [← hmid]; rfl
  have hmidCount : mid.dataBlockCount = ni.dataBlockCount := by rw [← hmid]; rfl
  obtain ⟨htopSig, htopSpare, htopLow⟩ := mid.belowSpares_spec
  rw [hmidSig] at htopSig htopLow
  rw [hmidCount] at htopSpare htopLow
  -- the top moves up, and stays below every spare in use
  have htopUp : (ni.mappingBlocksTopBa : ℤ) ≤ mid.belowSpares := by
    refine htopLow _ (by have := h.top_lt; omega) fun i hi hr => ?_
    by_cases hib : i = block
    · subst hib
      unfold Instance.Remapped at hr
      rw [hself, hmidBase] at hr
      omega
    · unfold Instance.Remapped at hr
      rw [hother i hib, hmidBase] at hr
      rw [hother i hib]
      exact (hremapped i hi).mp hr
  have htopBelow : ∀ i < ni.dataBlockCount, i ≠ block →
      (ni.mappingBlocksTopBa : ℤ) < ni.blockMapping i → mid.belowSpares < ni.blockMapping i := by
    intro i hi hib hmi
    have hr := htopSpare i hi
    rw [hother i hib] at hr
    refine hr ?_
    unfold Instance.Remapped
    rw [hother i hib, hmidBase]
    omega
  have hput : ni.putBack block start (block - start) =
      { mid with mappingBlocksTopBa := (mid.belowSpares % 0x100000000).toNat } := by
    rw [← hmid, ← hnew]
    rfl
  generalize htop : (mid.belowSpares % 0x100000000).toNat = top at hput
  have htopEq : (top : ℤ) = mid.belowSpares := by omega
  rw [hput]
  have hmidMgmt : mid.mgmtStartBa = ni.mgmtStartBa := by rw [← hmid]; rfl
  refine ⟨?_, ?_⟩
  · constructor <;> simp only [hmidMgmt, hmidSig]
    · intro i hi
      by_cases hib : i = block
      · subst hib
        rw [hself]
        omega
      · rw [hother i hib]
        have := h.placed i hi
        have := htopBelow i hi hib
        omega
    · intro i j hij hj hmi hmj
      by_cases hib : i = block
      · subst hib
        have hjb : j ≠ i := by omega
        rw [hother j hjb] at hmj ⊢
        rw [hself]
        have := h.homes start j (by omega) hj hlow.2 hmj
        omega
      · rw [hother i hib] at hmi ⊢
        by_cases hjb : j = block
        · subst hjb
          rw [hself]
          rcases Nat.lt_trichotomy i start with hlt | rfl | hgt
          · have := h.homes i start hlt (by omega) hmi hlow.2
            omega
          · omega
          · have := (hremapped i (by omega)).mp (hbetween i hgt (by omega))
            omega
        · rw [hother j hjb] at hmj ⊢
          exact h.homes i j hij hj hmi hmj
    · intro i hi j hj hmi hmij
      have hib : i ≠ block := by
        rintro rfl
        rw [hself] at hmi
        omega
      rw [hother i hib] at hmi hmij
      have hjb : j ≠ block := by
        rintro rfl
        rw [hself] at hmij
        omega
      rw [hother j hjb] at hmij
      exact h.spares i hi j hj (by omega) hmij
    · omega
    · exact hsig
  · have hrecords : mid.mainTableBa = ni.mainTableBa ∧ mid.mainTableEnd = ni.mainTableEnd ∧
        mid.backupTableBa = ni.backupTableBa ∧ mid.backupTableEnd = ni.backupTableEnd ∧
          mid.infoTableCache = ni.infoTableCache := by
      rw [← hmid]
      exact ⟨rfl, rfl, rfl, rfl, rfl⟩
    obtain ⟨hm, hme, hb, hbe, hc⟩ := hrecords
    constructor <;> simp only [hmidMgmt, hmidBase, hm, hme, hb, hbe, hc]
    exacts [hx.mgmt_pos, hx.mgmt_le, by omega, hx.main, hx.backup, hx.apart, hx.cached]

end Mapping

/-! ## Creation -/

section Create

variable {σ : Type} {g : Geometry} {crc : Crc} {mtd : Mtd σ}

/-- Blocks are mapped in order, each no nearer to the next block than their
numbers are. -/
theorem buildMappingFrom_spec {ni : Instance} {fuel pb lb : ℕ} {mapping : ℕ → ℤ}
    (hbelow : ∀ i < lb, 0 ≤ mapping i ∧ mapping i + (lb - i : ℤ) ≤ pb)
    (hgaps : ∀ i j, i < j → j < lb → mapping i + (j - i : ℤ) ≤ mapping j) :
    (∀ i < (buildMappingFrom ni fuel pb lb mapping).2,
      0 ≤ (buildMappingFrom ni fuel pb lb mapping).1 i ∧
        (buildMappingFrom ni fuel pb lb mapping).1 i < pb + fuel) ∧
      ∀ i j, i < j → j < (buildMappingFrom ni fuel pb lb mapping).2 →
        (buildMappingFrom ni fuel pb lb mapping).1 i + (j - i : ℤ) ≤
          (buildMappingFrom ni fuel pb lb mapping).1 j := by
  induction fuel generalizing pb lb mapping with
  | zero =>
    refine ⟨fun i hi => ?_, hgaps⟩
    have := hbelow i hi
    unfold buildMappingFrom at hi ⊢
    dsimp only at hi ⊢
    omega
  | succ fuel ih =>
    unfold buildMappingFrom
    split
    case isTrue =>
      have hrest := @ih (pb + 1) lb mapping
        (fun i hi => ⟨(hbelow i hi).1, by have := (hbelow i hi).2; omega⟩) hgaps
      exact ⟨fun i hi => by have := hrest.1 i hi; omega, hrest.2⟩
    case isFalse =>
      have hold : ∀ i < lb, Function.update mapping lb (pb : ℤ) i = mapping i :=
        fun i hi => Function.update_of_ne (by omega) _ _
      have hnew : Function.update mapping lb (pb : ℤ) lb = pb := Function.update_self _ _ _
      have hrest := @ih (pb + 1) (lb + 1) (Function.update mapping lb pb) ?_ ?_
      · exact ⟨fun i hi => by have := hrest.1 i hi; omega, hrest.2⟩
      · intro i hi
        rcases Nat.lt_succ_iff_lt_or_eq.mp hi with hlt | rfl
        · rw [hold i hlt]
          have := hbelow i hlt
          omega
        · rw [hnew]
          omega
      · intro i j hij hj
        rcases Nat.lt_succ_iff_lt_or_eq.mp hj with hlt | rfl
        · rw [hold i (by omega), hold j hlt]
          exact hgaps i j hij hlt
        · rw [hold i hij, hnew]
          exact (hbelow i hij).2

/-- The homes of an instance before any spare is taken. -/
structure Built (g : Geometry) (ni : Instance) : Prop where
  mgmt_pos : 0 < ni.mgmtStartBa
  mgmt_lt : ni.mgmtStartBa < ni.signatureBa
  signature_lt : ni.signatureBa < g.blockCount
  placed : ∀ i < ni.dataBlockCount, 0 ≤ ni.blockMapping i ∧ ni.blockMapping i < ni.mgmtStartBa
  homes : ∀ i j, i < j → j < ni.dataBlockCount →
    ni.blockMapping i + (j - i : ℤ) ≤ ni.blockMapping j

theorem buildMappingTable_spec (ni : Instance) :
    (∀ i < (buildMappingTable g ni).dataBlockCount, 0 ≤ (buildMappingTable g ni).blockMapping i ∧
      (buildMappingTable g ni).blockMapping i < ni.mgmtStartBa) ∧
      ∀ i j, i < j → j < (buildMappingTable g ni).dataBlockCount →
        (buildMappingTable g ni).blockMapping i + (j - i : ℤ) ≤
          (buildMappingTable g ni).blockMapping j := by
  obtain ⟨hplaced, hgaps⟩ :=
    @buildMappingFrom_spec ni ni.mgmtStartBa 0 0 ni.blockMapping (by omega) (by omega)
  unfold buildMappingTable
  generalize buildMappingFrom ni ni.mgmtStartBa 0 0 ni.blockMapping = built at *
  obtain ⟨mapping, lb⟩ := built
  dsimp only at *
  refine ⟨fun i hi => ?_, fun i j hij hj => ?_⟩
  · rw [if_neg (by omega)]
    have := hplaced i hi
    omega
  · rw [if_neg (by omega), if_neg (by omega)]
    exact hgaps i j hij hj

theorem scanBadblocksFrom_fields (fuel ba : ℕ) (x : Sys σ) :
    (scanBadblocksFrom mtd fuel ba x).ni =
      { x.ni with
        blockState := (scanBadblocksFrom mtd fuel ba x).ni.blockState
        blockStateChanged := (scanBadblocksFrom mtd fuel ba x).ni.blockStateChanged } := by
  induction fuel generalizing ba x with
  | zero => rfl
  | succ fuel ih =>
    unfold scanBadblocksFrom
    rw [ih]
    split <;> rfl

variable (g mtd) in
theorem scanAndMap_spec (x : Sys σ) :
    (scanAndMap g mtd x).ni.mgmtStartBa = x.ni.mgmtStartBa ∧
      (scanAndMap g mtd x).ni.signatureBa = x.ni.signatureBa ∧
      (∀ i < (scanAndMap g mtd x).ni.dataBlockCount,
        0 ≤ (scanAndMap g mtd x).ni.blockMapping i ∧
          (scanAndMap g mtd x).ni.blockMapping i < x.ni.mgmtStartBa) ∧
      ∀ i j, i < j → j < (scanAndMap g mtd x).ni.dataBlockCount →
        (scanAndMap g mtd x).ni.blockMapping i + (j - i : ℤ) ≤
          (scanAndMap g mtd x).ni.blockMapping j := by
  have hfields : (scanBadblocks g mtd x).ni.mgmtStartBa = x.ni.mgmtStartBa ∧
      (scanBadblocks g mtd x).ni.signatureBa = x.ni.signatureBa := by
    unfold scanBadblocks
    rw [scanBadblocksFrom_fields]
    exact ⟨rfl, rfl⟩
  obtain ⟨hplaced, hgaps⟩ := buildMappingTable_spec (g := g) (scanBadblocks g mtd x).ni
  rw [hfields.1] at hplaced
  exact ⟨hfields.1, hfields.2, hplaced, hgaps⟩

theorem Marked.of_signature {low high ba : ℕ} (hlow : low ≤ ba) (hhigh : ba < high) {x : Sys σ}
    {data : List Word} {ok : Bool} {s : σ}
    (h : writeRepeatedData g mtd ba data x.dev = (ok, s)) :
    Marked mtd low high x { x with dev := s } :=
  .of_dev hlow hhigh fun hlocal other hne => by
    unfold writeRepeatedData at h
    split at h
    case isTrue =>
      cases h
      exact .refl _ _
    case isFalse =>
      have hsame := hlocal.writeVerifyFrom g hne data.length
        (List.replicate g.pagesPerBlk (data ++ List.replicate (g.pgWords - data.length) (-1)))
        0 x.dev
      dsimp only at h
      rwa [h] at hsame

variable (g mtd) in
/-- The signature goes into a block of the range it may use. -/
theorem writeSignatureFrom_spec (data : List Word) {low high : ℕ} (fuel ba : ℕ) (x : Sys σ)
    (hlow : low + fuel ≤ ba + 1) (hhigh : ba < high) :
    Marked mtd low high x (writeSignatureFrom g mtd data fuel ba x).2 ∧
      ∀ found, (writeSignatureFrom g mtd data fuel ba x).1 = some found →
        low ≤ found ∧ found < high := by
  induction fuel generalizing ba x with
  | zero => exact ⟨.refl _ _ x, fun found h => by cases h⟩
  | succ fuel ih =>
    have hskip : ∀ y, Marked mtd low high x y →
        Marked mtd low high x (writeSignatureFrom g mtd data fuel (ba - 1) y).2 ∧
          ∀ found, (writeSignatureFrom g mtd data fuel (ba - 1) y).1 = some found →
            low ≤ found ∧ found < high := by
      intro y hy
      by_cases hfuel : fuel = 0
      · subst hfuel
        exact ⟨hy, fun found h => by cases h⟩
      · obtain ⟨hmarked, hfound⟩ := ih (ba - 1) y (by omega) (by omega)
        exact ⟨hy.trans hmarked, hfound⟩
    unfold writeSignatureFrom
    split
    case isTrue => exact hskip x (.refl _ _ x)
    case isFalse hgood =>
      have hgood : x.ni.IsGood ba := not_not.mp hgood
      split
      case isTrue => exact hskip _ (.noteBad (by omega) hhigh hgood)
      case isFalse =>
        split
        case h_1 s heq =>
          exact hskip _ ((Marked.of_erase (by omega) hhigh heq).trans
            (.markBad (by omega) hhigh hgood))
        case h_2 s heq =>
          have herased : Marked mtd low high x { x with dev := s } :=
            .of_erase (by omega) hhigh heq
          split
          case h_1 t hwrite =>
            refine ⟨herased.trans (.of_signature (by omega) hhigh hwrite), fun found h => ?_⟩
            cases h
            exact ⟨by omega, hhigh⟩
          case h_2 t hwrite =>
            exact hskip _ ((herased.trans (.of_signature (by omega) hhigh hwrite)).trans
              (.markBad (by omega) hhigh hgood))

theorem mgmtStart_pos (g : Geometry) : 0 < mgmtStart g := by
  have hcount := g.sixteen_le
  have hratio := g.maxRatio_lt
  have hpart : g.blockCount * 1 ≤ g.blockCount * (16 - g.maxRatio) :=
    Nat.mul_le_mul_left _ (by omega)
  unfold mgmtStart
  dsimp only
  split <;> omega

theorem signNew_spec {s : σ} {x : Sys σ} (h : signNew g crc mtd s = (true, x)) :
    Built g x.ni := by
  unfold signNew at h
  obtain ⟨hmgmt, -, hplaced, hgaps⟩ := scanAndMap_spec g mtd
    { ni := { initStructure g with mgmtStartBa := mgmtStart g }, dev := s }
  generalize scanAndMap g mtd
    { ni := { initStructure g with mgmtStartBa := mgmtStart g }, dev := s } = mapped at *
  dsimp only at h
  have hlimit : mapped.ni.mgmtStartBa + 1 + (g.blockCount - 1 - mapped.ni.mgmtStartBa) ≤
      g.blockCount - 1 + 1 ∨ g.blockCount - 1 - mapped.ni.mgmtStartBa = 0 := by omega
  generalize hsign : (newSignature g crc mapped.ni.mgmtStartBa).words = data at h
  cases hwrite : writeSignature g mtd mapped.ni.mgmtStartBa data mapped with
  | mk found y =>
    rw [hwrite] at h
    cases found with
    | none => cases h
    | some ba =>
      cases h
      unfold writeSignature at hwrite
      rcases hlimit with hroom | hnone
      · have hlast : g.blockCount - 1 < g.blockCount := by
          have := g.sixteen_le
          omega
        obtain ⟨hmarked, hfound⟩ := writeSignatureFrom_spec g mtd data _ _ mapped hroom hlast
        rw [hwrite] at hmarked hfound
        have hba := hfound ba rfl
        have hfields := hmarked.ni
        dsimp only at hfields
        refine ⟨?_, ?_, hba.2, ?_, ?_⟩ <;> simp only [Sys.map] <;> rw [hfields]
        · rw [hmgmt]
          exact mgmtStart_pos g
        · exact hba.1
        · intro i hi
          rw [hmgmt]
          exact hplaced i hi
        · exact hgaps
      · rw [hnone] at hwrite
        cases hwrite

/-- What a run keeps: the records of the tables are in order, and every data block
is at home or at a spare of its own. -/
structure Inv (g : Geometry) (ni : Instance) : Prop where
  inOrder : InOrder ni
  map : MapSound g ni.dataBlockCount ni

theorem Progress.inv {x y : Sys σ} (h : Progress mtd x y) (hx : Inv g x.ni) : Inv g y.ni := by
  refine ⟨h.inOrder, ?_⟩
  rw [h.updated.keeps.dataBlockCount]
  exact hx.map.of_keeps h.updated.keeps

/-- The first tables of a chip whose data blocks are mapped. -/
theorem prepareTables_spec {x y : Sys σ} (hbuilt : Built g x.ni)
    (h : prepareTables g crc mtd x = (true, y)) : Inv g y.ni := by
  unfold prepareTables at h
  have hlimit : x.ni.mgmtStartBa < g.blockCount := hbuilt.mgmt_lt.trans hbuilt.signature_lt
  split at h
  case h_1 => cases h
  case h_2 top htop =>
    obtain ⟨hbelow, habove, -⟩ := Instance.blockWalkDesc_spec htop hlimit
    dsimp only at h
    generalize hz : x.map (fun ni =>
      (generateInfoTableCache g crc { ni with mappingBlocksTopBa := top }).2) = z at h
    have hmap : MapSound g z.ni.dataBlockCount z.ni := by
      rw [← hz]
      refine ⟨fun i hi => .inl (hbuilt.placed i hi), fun i j hij hj _ _ => hbuilt.homes i j hij hj,
        fun i hi j _ hmi _ => ?_, hbelow, hbuilt.signature_lt⟩
      have := hbuilt.placed i hi
      change (top : ℤ) < x.ni.blockMapping i at hmi
      omega
    have hrebuild : Attempt mtd z (rebuildInfoTable g mtd z) := by
      refine rebuildInfoTable_spec ?_ ?_ ?_ <;> rw [← hz]
      exacts [hbuilt.mgmt_pos, habove.le, toPages_ne_nil g _]
    rw [h] at hrebuild
    refine ⟨hrebuild.inOrder, ?_⟩
    rw [hrebuild.updated.keeps.dataBlockCount]
    exact hmap.of_keeps hrebuild.updated.keeps

/-- Mapping a block takes the spare on top, or leaves the mapping and closes the
unmapped spares. -/
theorem mapBlock_spec {lb : ℕ} {x y : Sys σ} {ok : Bool} (hx : Inv g x.ni)
    (htop : x.ni.TopGood g) (h : mapBlock g crc mtd lb x = (ok, y)) :
    (ok = true ∧ x.ni.mappingBlocksBa < x.ni.mappingBlocksTopBa ∧
      y = x.map fun ni => ni.takeSpare lb ni.mappingBlocksTopBa) ∨
      (ok = false ∧ Inv g y.ni ∧ y.ni.blockMapping = x.ni.blockMapping) := by
  unfold mapBlock at h
  split at h
  case isTrue =>
    cases h
    exact .inr ⟨rfl, hx, rfl⟩
  case isFalse hne =>
    split at h
    case h_1 =>
      have hupdate := updateInfoTable_spec g crc mtd hx.inOrder
      generalize updateInfoTable g crc mtd x = result at hupdate h
      cases h
      have hinv := hupdate.inv hx
      exact .inr ⟨rfl, ⟨hinv.inOrder.exhaust, hinv.map.exhaust hinv.inOrder⟩,
        hupdate.updated.keeps.blockMapping⟩
    case h_2 pb hpb =>
      cases h
      refine .inl ⟨rfl, ?_, ?_⟩
      · have := hx.inOrder.base_le
        omega
      · rw [htop.eq_top hpb]
        rfl

/-- Each of the next `n` spares that are taken is the one on top, or none. -/
def Instance.TailGood (g : Geometry) (n : ℕ) (ni : Instance) : Prop :=
  ∀ k < n, ({ ni with mappingBlocksTopBa := ni.mappingBlocksTopBa - k } : Instance).TopGood g

instance (n : ℕ) (ni : Instance) : Decidable (ni.TailGood g n) :=
  inferInstanceAs (Decidable (∀ k < n, _))

/-- The data area is closed by taking spares. -/
theorem mapTail_spec {fuel lb : ℕ} {x : Sys σ} (hx : Inv g x.ni) (hlb : x.ni.dataBlockCount = lb)
    (hgood : x.ni.TailGood g fuel) : Inv g (mapTail g crc mtd fuel lb x).ni := by
  induction fuel generalizing lb x with
  | zero => exact hx
  | succ fuel ih =>
    unfold mapTail
    have htop : x.ni.TopGood g := hgood 0 (by omega)
    cases hmap : mapBlock g crc mtd lb x with
    | mk ok y =>
      rcases mapBlock_spec hx htop hmap with ⟨rfl, hroom, rfl⟩ | ⟨rfl, hinv, -⟩
      · have horder := hx.inOrder.takeSpare lb x.ni.mappingBlocksTopBa hroom
        have htake : MapSound g (lb + 1) (x.ni.takeSpare lb x.ni.mappingBlocksTopBa) :=
          hx.map.takeSpare hx.inOrder hroom (by omega)
        refine ih ⟨?_, ?_⟩ (congrArg (· + 1) hlb) fun k hk => ?_
        · exact ⟨horder.mgmt_pos, horder.mgmt_le, horder.base_le, horder.main, horder.backup,
            horder.apart, horder.cached⟩
        · change MapSound g (x.ni.dataBlockCount + 1) _
          rw [hlb]
          exact ⟨htake.placed, htake.homes, htake.spares, htake.top_lt, htake.signature_lt⟩
        · refine (hgood (k + 1) (by omega)).congr rfl rfl ?_
          change x.ni.mappingBlocksTopBa - 1 - k = x.ni.mappingBlocksTopBa - (k + 1)
          omega
      · exact hinv

/-- The data blocks that have no home when the first tables are written. -/
def Instance.unhomed (ni : Instance) : ℕ := ni.mgmtStartBa - ni.dataBlockCount

end Create

/-! ## Calls -/

section Calls

variable {σ : Type} {g : Geometry} {crc : Crc} {mtd : Mtd σ}

theorem Inv.noteBad {x : Sys σ} (hx : Inv g x.ni) (ba : ℕ) : Inv g (x.noteBad ba).ni :=
  ⟨⟨hx.inOrder.mgmt_pos, hx.inOrder.mgmt_le, hx.inOrder.base_le, hx.inOrder.main,
    hx.inOrder.backup, hx.inOrder.apart, hx.inOrder.cached⟩, ⟨hx.map.placed, hx.map.homes,
      hx.map.spares, hx.map.top_lt, hx.map.signature_lt⟩⟩

/-- A remap takes the spare on top. -/
theorem remapBlockNmbm_inv {block mappedBlock copyLen : ℕ} {x : Sys σ} (hx : Inv g x.ni)
    (htop : block < x.ni.dataBlockCount → (x.noteBad mappedBlock).ni.TopGood g) :
    Inv g (remapBlockNmbm g crc mtd block mappedBlock copyLen x).2.ni := by
  unfold remapBlockNmbm
  split
  case isTrue => exact hx
  case isFalse hblock =>
    have hbad := hx.noteBad mappedBlock
    cases hmap : mapBlock g crc mtd block (x.noteBad mappedBlock) with
    | mk ok y =>
      rcases mapBlock_spec hbad (htop (by omega)) hmap with ⟨rfl, hroom, rfl⟩ | ⟨rfl, hinv, -⟩
      · dsimp only
        generalize hz : (x.noteBad mappedBlock).map
          (fun ni => ni.takeSpare block ni.mappingBlocksTopBa) = z
        have hinv : Inv g z.ni := by
          rw [← hz]
          exact ⟨hbad.inOrder.takeSpare block _ hroom,
            hbad.map.takeSpare hbad.inOrder hroom fun i hi => .inr hi⟩
        generalize (if 0 < copyLen then _ else _ : σ) = s
        have hdev : Inv g ({ z with dev := s } : Sys σ).ni := hinv
        exact (updateInfoTable_spec g crc mtd hdev.inOrder).inv hdev
      · exact hinv

/-- The place an unmap would give a block is in the data area. -/
def Instance.UnmapFits (ni : Instance) (block : ℕ) : Prop :=
  match ni.lowerHome block 0 with
  | none => True
  | some (start, offset) => offset = 0 ∨ ni.blockMapping start + offset < ni.mgmtStartBa

instance (ni : Instance) (block : ℕ) : Decidable (ni.UnmapFits block) := by
  unfold Instance.UnmapFits
  split <;> infer_instance

/-- An unmap that moves a block puts it into the data area and updates the tables. -/
theorem unmapBlockNmbm_cases {block : ℕ} {x : Sys σ} (hx : Inv g x.ni)
    (hfits : block < x.ni.dataBlockCount → x.ni.UnmapFits block) :
    unmapBlockNmbm g crc mtd block x = x ∨
      ∃ start, Inv g (x.ni.putBack block start (block - start)) ∧
        unmapBlockNmbm g crc mtd block x =
          (updateInfoTable g crc mtd (x.map (·.putBack block start (block - start)))).2 := by
  unfold unmapBlockNmbm
  split
  case isTrue => exact .inl rfl
  case isFalse hblock =>
    have hfits := hfits (by omega)
    unfold Instance.UnmapFits at hfits
    cases hlower : x.ni.lowerHome block 0 with
    | none => exact .inl rfl
    | some found =>
      obtain ⟨start, offset⟩ := found
      rw [hlower] at hfits
      dsimp only at hfits ⊢
      split
      case isTrue => exact .inl rfl
      case isFalse hoffset =>
        obtain ⟨hle, hstop, hhome, hbetween⟩ := Instance.lowerHome_spec hlower
        rw [Nat.zero_add] at hstop
        subst hstop
        obtain ⟨hmap, horder⟩ := hx.map.putBack hx.inOrder (by omega) (by omega) hhome hbetween
          (hfits.resolve_left hoffset)
        exact .inr ⟨start, ⟨horder, hmap⟩, rfl⟩

theorem unmapBlockNmbm_inv {block : ℕ} {x : Sys σ} (hx : Inv g x.ni)
    (hfits : block < x.ni.dataBlockCount → x.ni.UnmapFits block) :
    Inv g (unmapBlockNmbm g crc mtd block x).ni := by
  rcases unmapBlockNmbm_cases hx hfits with h | ⟨start, hput, h⟩
  · rwa [h]
  · rw [h]
    exact (updateInfoTable_spec g crc mtd hput.inOrder).inv hput

end Calls

/-! ## Runs -/

section Runs

variable {σ : Type} (g : Geometry) (crc : Crc) (mtd : Mtd σ)

/-- Everything of a creation before the data area is closed. -/
def prepareNew (s : σ) : Bool × Sys σ :=
  match signNew g crc mtd s with
  | (false, x) => (false, x)
  | (true, x) => prepareTables g crc mtd x

/-- Close the data area and write the tables. -/
def closeTail (x : Sys σ) : Bool × Sys σ :=
  updateInfoTable g crc mtd (mapTail g crc mtd x.ni.unhomed x.ni.dataBlockCount x)

theorem createNew_eq (s : σ) :
    createNew g crc mtd s =
      match prepareNew g crc mtd s with
      | (false, x) => (false, x)
      | (true, x) => closeTail g crc mtd x := by
  unfold createNew prepareNew createInfoTable
  rcases signNew g crc mtd s with ⟨_ | _, x⟩ <;> rfl

/-- What there is of an instance. -/
inductive Phase where
  | detached
  /-- A creation that has written the first tables. -/
  | prepared (ni : Instance)
  | attached (ni : Instance)

/-- The driver and the flash. -/
structure Machine (σ : Type) where
  phase : Phase
  dev : σ

/-- What happens to them. A boot finds no signature, or one whose tables cannot be
loaded; `device` is anything that the rest of the system does to the flash. -/
inductive Event (σ : Type) where
  | createNew
  | createKnown (ni : Instance)
  | mapTail
  | remap (block mappedBlock copyLen : ℕ)
  | unmap (block : ℕ)
  | update
  | device (s : σ)

/-- The outcome of a part of a creation. -/
def Machine.created (phase : Instance → Phase) : Bool × Sys σ → Machine σ
  | (false, x) => ⟨.detached, x.dev⟩
  | (true, x) => ⟨phase x.ni, x.dev⟩

def Machine.next (m : Machine σ) : Event σ → Option (Machine σ)
  | .createNew => some (.created .prepared (prepareNew g crc mtd m.dev))
  | .createKnown ni =>
    if 0 < ni.mgmtStartBa ∧ ni.mgmtStartBa < ni.signatureBa ∧ ni.signatureBa < g.blockCount then
      some (.created .prepared (prepareTables g crc mtd (scanAndMap g mtd ⟨ni, m.dev⟩)))
    else none
  | .mapTail =>
    match m.phase with
    | .prepared ni => some (.created .attached (closeTail g crc mtd ⟨ni, m.dev⟩))
    | _ => none
  | .remap block mappedBlock copyLen =>
    match m.phase with
    | .attached ni =>
      let x := (remapBlockNmbm g crc mtd block mappedBlock copyLen ⟨ni, m.dev⟩).2
      some ⟨.attached x.ni, x.dev⟩
    | _ => none
  | .unmap block =>
    match m.phase with
    | .attached ni =>
      let x := unmapBlockNmbm g crc mtd block ⟨ni, m.dev⟩
      some ⟨.attached x.ni, x.dev⟩
    | _ => none
  | .update =>
    match m.phase with
    | .attached ni =>
      let x := (updateInfoTable g crc mtd ⟨ni, m.dev⟩).2
      some ⟨.attached x.ni, x.dev⟩
    | _ => none
  | .device s => some ⟨m.phase, s⟩

/-- The runs from a chip in any state. -/
def system : System (Machine σ) (Event σ) :=
  .ofFn (fun m => m.phase = .detached) (Machine.next g crc mtd)

/-- What is asked of a step: the spares that it takes are on top, and an unmap
leads into the data area. -/
def Machine.Steady (m : Machine σ) : Event σ → Prop
  | .mapTail =>
    match m.phase with
    | .prepared ni => ni.TailGood g ni.unhomed
    | _ => True
  | .remap block mappedBlock _ =>
    match m.phase with
    | .attached ni =>
      block < ni.dataBlockCount → (ni.setBlockState mappedBlock blockStBad).TopGood g
    | _ => True
  | .unmap block =>
    match m.phase with
    | .attached ni => block < ni.dataBlockCount → ni.UnmapFits block
    | _ => True
  | _ => True

instance (m : Machine σ) : (event : Event σ) → Decidable (m.Steady g event)
  | .createNew | .createKnown _ | .update | .device _ => inferInstanceAs (Decidable True)
  | .mapTail =>
    match m with
    | ⟨.prepared ni, _⟩ => inferInstanceAs (Decidable (ni.TailGood g ni.unhomed))
    | ⟨.detached, _⟩ | ⟨.attached _, _⟩ => inferInstanceAs (Decidable True)
  | .remap block mappedBlock _ =>
    match m with
    | ⟨.attached ni, _⟩ =>
      inferInstanceAs (Decidable (block < ni.dataBlockCount →
        (ni.setBlockState mappedBlock blockStBad).TopGood g))
    | ⟨.detached, _⟩ | ⟨.prepared _, _⟩ => inferInstanceAs (Decidable True)
  | .unmap block =>
    match m with
    | ⟨.attached ni, _⟩ =>
      inferInstanceAs (Decidable (block < ni.dataBlockCount → ni.UnmapFits block))
    | ⟨.detached, _⟩ | ⟨.prepared _, _⟩ => inferInstanceAs (Decidable True)

/-- Distinct data blocks are at distinct blocks, those that have left the data area
are among the spares, and none is in a table or the signature. -/
structure Instance.Apart (ni : Instance) : Prop where
  injective : ∀ i < ni.dataBlockCount, ∀ j < ni.dataBlockCount, 0 ≤ ni.blockMapping i →
    ni.blockMapping i = ni.blockMapping j → i = j
  remapped : ∀ i < ni.dataBlockCount, ni.mgmtStartBa ≤ ni.blockMapping i →
    ni.mappingBlocksBa < ni.blockMapping i ∧ ni.blockMapping i < ni.signatureBa
  main : ∀ i < ni.dataBlockCount, ni.mainTableBa ≠ 0 →
    ni.blockMapping i < ni.mainTableBa ∨ ni.mainTableEnd ≤ ni.blockMapping i
  backup : ∀ i < ni.dataBlockCount, ni.backupTableBa ≠ 0 →
    ni.blockMapping i < ni.backupTableBa ∨ ni.backupTableEnd ≤ ni.blockMapping i
  signature : ∀ i < ni.dataBlockCount, ni.blockMapping i ≠ ni.signatureBa

variable {g crc mtd}

theorem Inv.apart {ni : Instance} (h : Inv g ni) : ni.Apart where
  injective i hi j hj _ hij := by
    have hpi := h.map.placed i hi
    have hpj := h.map.placed j hj
    have hmgmt := h.inOrder.mgmt_le
    have hbase := h.inOrder.base_le
    rcases hpi with hhome | hspare
    · by_contra hne
      rcases Nat.lt_or_gt_of_ne hne with hlt | hgt
      · have := h.map.homes i j hlt hj (by omega) (by omega)
        omega
      · have := h.map.homes j i hgt hi (by omega) (by omega)
        omega
    · exact h.map.spares i hi j hj hspare.1 hij
  remapped i hi hmgmt := by
    have := h.map.placed i hi
    have := h.inOrder.base_le
    omega
  main i hi hne := by
    have := h.map.placed i hi
    have := h.inOrder.main
    have := h.inOrder.base_le
    omega
  backup i hi hne := by
    have := h.map.placed i hi
    have := h.inOrder.backup
    have := h.inOrder.base_le
    omega
  signature i hi := by
    have := h.map.placed i hi
    have := h.inOrder.mgmt_le
    have := h.inOrder.base_le
    have := h.map.top_lt
    omega

def Phase.All (P : Instance → Prop) : Phase → Prop
  | .detached => True
  | .prepared ni => P ni
  | .attached ni => P ni

theorem Machine.next_inv {m m' : Machine σ} {event : Event σ} (hinv : m.phase.All (Inv g))
    (hsteady : m.Steady g event) (h : m.next g crc mtd event = some m') :
    m'.phase.All (Inv g) := by
  obtain ⟨phase, s⟩ := m
  cases event with
  | createNew =>
    cases h
    unfold prepareNew
    cases hsign : signNew g crc mtd s with
    | mk ok x =>
      cases ok with
      | false => trivial
      | true =>
        dsimp only
        cases hprepare : prepareTables g crc mtd x with
        | mk ok y =>
          cases ok with
          | false => trivial
          | true => exact prepareTables_spec (signNew_spec hsign) hprepare
  | createKnown ni =>
    simp only [Machine.next] at h
    split at h
    case isFalse => cases h
    case isTrue hknown =>
      cases h
      obtain ⟨hmgmt, hsig, hplaced, hgaps⟩ := scanAndMap_spec g mtd ⟨ni, s⟩
      have hbuilt : Built g (scanAndMap g mtd ⟨ni, s⟩).ni := by
        refine ⟨?_, ?_, ?_, fun i hi => ?_, hgaps⟩ <;> simp only [hmgmt, hsig]
        exacts [hknown.1, hknown.2.1, hknown.2.2, hplaced i hi]
      cases hprepare : prepareTables g crc mtd (scanAndMap g mtd ⟨ni, s⟩) with
      | mk ok y =>
        cases ok with
        | false => trivial
        | true => exact prepareTables_spec hbuilt hprepare
  | mapTail =>
    cases phase with
    | detached => cases h
    | attached ni => cases h
    | prepared ni =>
      cases h
      have hmapped : Inv g (mapTail g crc mtd ni.unhomed ni.dataBlockCount ⟨ni, s⟩).ni :=
        mapTail_spec hinv rfl hsteady
      have hclosed : Inv g (closeTail g crc mtd ⟨ni, s⟩).2.ni :=
        (updateInfoTable_spec g crc mtd hmapped.inOrder).inv hmapped
      cases hresult : closeTail g crc mtd ⟨ni, s⟩ with
      | mk ok y =>
        rw [hresult] at hclosed
        cases ok with
        | false => trivial
        | true => exact hclosed
  | remap block mappedBlock copyLen =>
    cases phase with
    | detached => cases h
    | prepared ni => cases h
    | attached ni =>
      cases h
      exact remapBlockNmbm_inv hinv hsteady
  | unmap block =>
    cases phase with
    | detached => cases h
    | prepared ni => cases h
    | attached ni =>
      cases h
      exact unmapBlockNmbm_inv hinv hsteady
  | update =>
    cases phase with
    | detached => cases h
    | prepared ni => cases h
    | attached ni =>
      cases h
      have hinv : Inv g (⟨ni, s⟩ : Sys σ).ni := hinv
      exact (updateInfoTable_spec g crc mtd hinv.inOrder).inv hinv
  | device t =>
    cases h
    exact hinv

theorem inv_of_reachable {m : Machine σ}
    (h : ((system g crc mtd).restrict (Machine.Steady g)).Reachable m) :
    m.phase.All (Inv g) := by
  refine h.invariant (I := fun m => m.phase.All (Inv g)) ?_ ?_
  · intro m hdetached
    rw [hdetached]
    trivial
  · rintro source event target hinv ⟨hsteady, hstep⟩
    exact Machine.next_inv hinv hsteady hstep

theorem Phase.All.imp {P Q : Instance → Prop} (h : ∀ ni, P ni → Q ni) {phase : Phase}
    (hall : phase.All P) : phase.All Q := by
  cases phase with
  | detached => trivial
  | prepared ni => exact h ni hall
  | attached ni => exact h ni hall

/-- Along every run whose spares are taken from the top and whose unmaps lead into
the data area, the data blocks are apart. -/
theorem mapping_apart_of_reachable {m : Machine σ}
    (h : ((system g crc mtd).restrict (Machine.Steady g)).Reachable m) :
    m.phase.All Instance.Apart :=
  (inv_of_reachable h).imp fun _ hinv => hinv.apart

end Runs

/-! ## A bad spare -/

section BadSpare

/-- Thirty-two blocks, half of them reserved. -/
def smallGeometry : Geometry where
  blockCount := 32
  pagesPerBlk := 4
  pgWords := 16
  oobSize := 64
  maxRatio := 8
  maxReservedBlocks := 256
  emptyPageEccOk := false
  bitflipThreshold := 3
  eccStrength := 4
  pagesPerBlk_pos := by decide
  pgWords_pos := by decide
  blockCount_lt := by decide
  sixteen_le := by decide
  maxRatio_lt := by decide

/-- A flash that stores its pages, on which nothing fails. Block 29 has a bad block
marker. -/
def smallMtd : Mtd (ℕ → ℕ → Page) where
  readOob s ba page _ := (0, s ba page)
  writeOob s ba page data := (true, Function.update s ba (Function.update (s ba) page data))
  erase s ba := (true, Function.update s ba fun _ => List.replicate 16 (-1))
  blockIsBad _ ba := ba == 29
  blockMarkbad s _ := s

/-- The chip without an instance, erased. -/
def smallChip : Machine (ℕ → ℕ → Page) := ⟨.detached, fun _ _ => List.replicate 16 (-1)⟩

def smallRun (events : List (Event (ℕ → ℕ → Page))) : Option (Machine (ℕ → ℕ → Page)) :=
  events.foldlM (Machine.next smallGeometry crc32Le smallMtd) smallChip

def smallSteadyRun (events : List (Event (ℕ → ℕ → Page))) : Option (Machine (ℕ → ℕ → Page)) :=
  events.foldlM
    (fun m event =>
      if m.Steady smallGeometry event then m.next smallGeometry crc32Le smallMtd event else none)
    smallChip

def Machine.mapped {σ : Type} (m : Machine σ) (lbs : List ℕ) : Option (List ℤ) :=
  match m.phase with
  | .attached ni => some (lbs.map (getMappingBlockIndexNmbm ni))
  | _ => none

theorem Machine.attached_of_mapped {σ : Type} {m : Machine σ} {lbs : List ℕ} {pbs : List ℤ}
    (h : m.mapped lbs = some pbs) :
    ∃ ni, m.phase = .attached ni ∧ lbs.map (getMappingBlockIndexNmbm ni) = pbs := by
  unfold Machine.mapped at h
  split at h
  case h_1 ni hphase => exact ⟨ni, hphase, Option.some.inj h⟩
  case h_2 => cases h

theorem apart_after_remap :
    ∃ m ni, smallSteadyRun [.createNew, .mapTail, .remap 1 1 0, .unmap 1, .remap 3 3 64, .update] =
        some m ∧ m.phase = .attached ni ∧
      [1, 3].map (getMappingBlockIndexNmbm ni) = [1, 30] ∧ ni.Apart := by
  have hrun : (smallSteadyRun [.createNew, .mapTail, .remap 1 1 0, .unmap 1, .remap 3 3 64,
      .update]).bind (Machine.mapped · [1, 3]) = some [1, 30] := by decide +kernel
  obtain ⟨m, hm, hmapped⟩ := Option.bind_eq_some_iff.mp hrun
  obtain ⟨ni, hphase, hblocks⟩ := Machine.attached_of_mapped hmapped
  have hapart := mapping_apart_of_reachable
    (System.reachable_restrict_of_foldlM (.start (rfl : smallChip.phase = .detached)) _ hm)
  rw [hphase] at hapart
  exact ⟨m, ni, hm, hphase, hblocks, hapart⟩

/-- The second remap passes over block 29 and takes block 28, which stays the last
unmapped one. The third takes it again. -/
theorem not_apart_of_bad_spare :
    ∃ m ni, (system smallGeometry crc32Le smallMtd).Reachable m ∧ m.phase = .attached ni ∧
      [2, 3].map (getMappingBlockIndexNmbm ni) = [28, 28] ∧ ¬ ni.Apart := by
  have hrun : (smallRun [.createNew, .mapTail, .remap 1 1 0, .remap 2 2 0, .remap 3 3 0]).bind
      (Machine.mapped · [2, 3]) = some [28, 28] := by decide +kernel
  obtain ⟨m, hm, hmapped⟩ := Option.bind_eq_some_iff.mp hrun
  obtain ⟨ni, hphase, hblocks⟩ := Machine.attached_of_mapped hmapped
  refine ⟨m, ni, System.reachable_of_foldlM (.start (rfl : smallChip.phase = .detached)) _ hm,
    hphase, hblocks, fun hapart => ?_⟩
  have htwo : getMappingBlockIndexNmbm ni 2 = 28 := (List.cons.inj hblocks).1
  have hthree : getMappingBlockIndexNmbm ni 3 = 28 :=
    (List.cons.inj (List.cons.inj hblocks).2).1
  unfold getMappingBlockIndexNmbm at htwo hthree
  split at htwo
  case isTrue => cases htwo
  case isFalse htwoLt =>
    split at hthree
    case isTrue => cases hthree
    case isFalse hthreeLt =>
      have := hapart.injective 2 (by omega) 3 (by omega) (by omega) (htwo.trans hthree.symm)
      omega

end BadSpare

end OpenWrt.MtkBmt.Nmbm
