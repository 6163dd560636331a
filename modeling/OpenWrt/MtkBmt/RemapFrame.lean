/-
# What a remap leaves in place

The three backends are called through one operation when a write or an erase has
failed. Two of them change the entry of the failed block only, and write no block
but spares that are not in use and those of the table. The third computes the
mapping from its bad blocks, so a new bad block moves the logical blocks after it.
-/

import OpenWrt.MtkBmt.Bbt
import OpenWrt.MtkBmt.V2Boot
import OpenWrt.MtkBmt.Nmbm.Invariant

namespace OpenWrt.MtkBmt

/-! ## Version 2 -/

namespace V2

def Desc.Unused (d : Desc) (p : ℕ) : Prop :=
  ∃ k ≤ d.bmtBlkIdx, d.poolUse k ≠ .normalMapped ∧ d.poolBlock k = p

section Frame

variable {σ Page : Type} {c : Config} {nand : Nand σ Bbbt Page}

/-- An upload writes blocks of the pool that are not in use. -/
theorem uploadFrom_sameBlock (hlocal : nand.Local) {n p : ℕ} {bbt : Bbbt} {s : σ}
    (h : ∀ k < n, (bbt.bmtTbl k).mapped ≠ .normalMapped → p ≠ (bbt.bmtTbl k).block) :
    nand.SameBlock s (uploadFrom nand n bbt s).2.2 p := by
  induction n generalizing bbt s with
  | zero => exact .refl s p
  | succ n ih =>
    have hdropped : ∀ b : Bbbt, b.bmtTbl = bbt.bmtTbl → ∀ k < n,
        ((b.drop n).bmtTbl k).mapped ≠ .normalMapped → p ≠ ((b.drop n).bmtTbl k).block := by
      intro b hb k hk
      have hsame : (b.drop n).bmtTbl k = bbt.bmtTbl k :=
        (Function.update_of_ne (Nat.ne_of_lt hk) _ _).trans (congrFun hb k)
      rw [hsame]
      exact h k (by omega)
    unfold uploadFrom
    split
    case isTrue => exact .refl s p
    case isFalse huse =>
      have hne := h n (by omega) huse
      have herase : nand.SameBlock s (nand.erase s (bbt.bmtTbl n).block).2 p := hlocal.erase hne
      split
      case h_1 t ht =>
        rw [ht] at herase
        exact herase.trans (ih (hdropped bbt rfl))
      case h_2 t ht =>
        rw [ht] at herase
        have hwrite : nand.SameBlock t
            (nand.writeTable t (bbt.bmtTbl n).block oobSignature bbt.sign).2 p :=
          hlocal.writeTable hne
        split
        case h_1 u hu =>
          rw [hu] at hwrite
          exact (herase.trans hwrite).trans (ih (hdropped bbt.sign rfl))
        case h_2 u hu =>
          rw [hu] at hwrite
          exact herase.trans hwrite

/-- Only the entry of the failed block changes, and only blocks that were not in
use are written. -/
theorem remapBlockV2_frame (r : RemapRange) {block mappedBlock copyLen other : ℕ} {d : Desc}
    {s : σ} (hne : other ≠ block) :
    getMappingBlockIndexV2 c r (remapBlockV2 c nand block mappedBlock copyLen d s).2.1 other =
        getMappingBlockIndexV2 c r d other ∧
      ∀ p, nand.Local → ¬ d.Unused p →
        nand.SameBlock s (remapBlockV2 c nand block mappedBlock copyLen d s).2.2 p := by
  unfold remapBlockV2
  cases hfind : findValidBlockInPool d with
  | none => exact ⟨rfl, fun p _ _ => .refl s p⟩
  | some k =>
    obtain ⟨hk, -, hfree⟩ := findValidBlockInPool_spec hfind
    dsimp only
    generalize hprepare : prepareSpare c nand (d.poolBlock k) mappedBlock copyLen s = t
    refine ⟨?_, fun p hlocal hunused => ?_⟩
    · have hbbTbl := (upload_spec nand (d.assign block k) t).bbTbl
      unfold getMappingBlockIndexV2
      rw [hbbTbl, d.assign_bbTbl_of_ne k hne]
    · have hspare : p ≠ d.poolBlock k := by
        rintro rfl
        exact hunused ⟨k, hk.le, by simp [hfree], rfl⟩
      have hready : nand.SameBlock s t p := by
        rw [← hprepare]
        exact sameBlock_prepareSpare hlocal hspare s
      have hstored : nand.SameBlock t
          (uploadFrom nand (d.bmtBlkIdx + 1) (d.assign block k).bbt t).2.2 p := by
        refine uploadFrom_sameBlock hlocal fun l hl huse hp => ?_
        have hlk : l ≠ k := by
          rintro rfl
          exact huse (d.assign_poolUse_self block l)
        refine hunused ⟨l, Nat.lt_succ_iff.mp hl, ?_, ?_⟩
        · rw [← d.assign_poolUse_of_ne block hlk]
          exact huse
        · rw [hp, ← d.assign_poolBlock block k l]
          rfl
      exact hready.trans hstored

end Frame

end V2

/-! ## NMBM -/

namespace Nmbm

section Frame

variable {σ : Type} {g : Geometry} {crc : Crc} {mtd : Mtd σ}

theorem Mtd.Local.remapBlock (hlocal : mtd.Local) {newBlock mappedBlock copyLen p : ℕ}
    (hne : p ≠ newBlock) (s : σ) :
    mtd.SameBlock s (if 0 < copyLen then
      (mtd.nand.bbtNandCopy (4 * g.pgWords) g.pagesPerBlk newBlock mappedBlock copyLen
        (mtd.erase s newBlock).2).2 else (mtd.erase s newBlock).2) p := by
  have herase : mtd.SameBlock s (mtd.erase s newBlock).2 p := hlocal.erase hne
  split
  case isTrue =>
    refine Nand.copyFrom_keeps (P := fun t => mtd.SameBlock s t p) (fun t page data ht => ?_) _ _
      herase
    exact ht.trans (hlocal.writeOob hne)
  case isFalse => exact herase

/-- A block that is in none of the tables and not an unmapped spare. -/
def Instance.OffSpares (ni : Instance) (p : ℕ) : Prop :=
  p < ni.mgmtStartBa ∨ ni.mappingBlocksTopBa < p

/-- Mapping a block takes an unmapped spare, or leaves the mapping. -/
theorem mapBlock_cases {lb : ℕ} {x y : Sys σ} {ok : Bool} (hx : InOrder x.ni)
    (hlast : x.ni.mappingBlocksBa < g.blockCount) (h : mapBlock g crc mtd lb x = (ok, y)) :
    (ok = true ∧ ∃ pb, x.ni.mappingBlocksBa < pb ∧ pb ≤ x.ni.mappingBlocksTopBa ∧
        y = x.map fun ni => ni.takeSpare lb pb) ∨
      (ok = false ∧ y.ni.blockMapping = x.ni.blockMapping ∧
        y.ni.dataBlockCount = x.ni.dataBlockCount ∧
          ∀ p, mtd.Local → x.ni.OffSpares p → mtd.SameBlock x.dev y.dev p) := by
  unfold mapBlock at h
  split at h
  case isTrue =>
    cases h
    exact .inr ⟨rfl, rfl, rfl, fun p _ _ => .refl _ p⟩
  case isFalse hne =>
    split at h
    case h_1 =>
      have hupdate := (updateInfoTable_spec g crc mtd hx).updated
      generalize updateInfoTable g crc mtd x = result at hupdate h
      cases h
      exact .inr ⟨rfl, hupdate.keeps.blockMapping, hupdate.keeps.dataBlockCount,
        fun p hlocal hoff => hupdate.dev hlocal p (hoff.imp id Nat.le_of_lt)⟩
    case h_2 pb hpb =>
      cases h
      obtain ⟨hle, hlt, -⟩ := Instance.blockWalkDesc_spec hpb hlast
      exact .inl ⟨rfl, pb, hlt, by omega, rfl⟩

/-- Only the entry of the failed block changes, and only the tables and the
unmapped spares are written. -/
theorem remapBlockNmbm_frame {block mappedBlock copyLen other : ℕ} {x : Sys σ}
    (hx : InOrder x.ni) (hlast : x.ni.mappingBlocksBa < g.blockCount) (hne : other ≠ block) :
    getMappingBlockIndexNmbm (remapBlockNmbm g crc mtd block mappedBlock copyLen x).2.ni other =
        getMappingBlockIndexNmbm x.ni other ∧
      ∀ p, mtd.Local → x.ni.OffSpares p →
        mtd.SameBlock x.dev (remapBlockNmbm g crc mtd block mappedBlock copyLen x).2.dev p := by
  unfold remapBlockNmbm
  split
  case isTrue => exact ⟨rfl, fun p _ _ => .refl _ p⟩
  case isFalse hblock =>
    have hbad : InOrder (x.noteBad mappedBlock).ni :=
      ⟨hx.mgmt_pos, hx.mgmt_le, hx.base_le, hx.main, hx.backup, hx.apart, hx.cached⟩
    cases hmap : mapBlock g crc mtd block (x.noteBad mappedBlock) with
    | mk ok y =>
      rcases mapBlock_cases hbad hlast hmap with
        ⟨rfl, pb, hlow, hhigh, rfl⟩ | ⟨rfl, hmapping, hcount, hdev⟩
      · dsimp only
        have hself : ((x.noteBad mappedBlock).map fun ni => ni.takeSpare block pb).ni.blockMapping
            block = pb := Function.update_self _ _ _
        rw [hself, Int.toNat_natCast]
        generalize hs : (if 0 < copyLen then _ else _ : σ) = s
        generalize hz : ({ (x.noteBad mappedBlock).map (fun ni => ni.takeSpare block pb) with
          dev := s } : Sys σ) = z
        have hroom : x.ni.mappingBlocksBa < x.ni.mappingBlocksTopBa := Nat.lt_of_lt_of_le hlow hhigh
        have hzOrder : InOrder z.ni := by
          rw [← hz]
          exact hbad.takeSpare block pb hroom
        have hupdate := (updateInfoTable_spec g crc mtd hzOrder).updated
        refine ⟨?_, fun p hlocal hoff => ?_⟩
        · unfold getMappingBlockIndexNmbm
          rw [hupdate.keeps.blockMapping, hupdate.keeps.dataBlockCount, ← hz]
          change (if x.ni.dataBlockCount ≤ other then (-1 : ℤ)
            else Function.update x.ni.blockMapping block pb other) = _
          rw [Function.update_of_ne hne]
        · have hspare : p ≠ pb := by
            unfold Instance.OffSpares at hoff
            have := hx.mgmt_le
            change x.ni.mappingBlocksBa < pb at hlow
            change pb ≤ x.ni.mappingBlocksTopBa at hhigh
            omega
          have hready : mtd.SameBlock x.dev z.dev p := by
            rw [← hz, ← hs]
            exact hlocal.remapBlock hspare x.dev
          refine hready.trans (hupdate.dev hlocal p ?_)
          rw [← hz]
          change p < x.ni.mgmtStartBa ∨ x.ni.mappingBlocksTopBa - 1 ≤ p
          unfold Instance.OffSpares at hoff
          omega
      · refine ⟨?_, fun p hlocal hoff => hdev p hlocal hoff⟩
        unfold getMappingBlockIndexNmbm
        dsimp only
        rw [hmapping, hcount]
        rfl

variable {lb p : ℕ}

theorem Inv.offSpares {ni : Instance} (h : Inv g ni)
    (hp : getMappingBlockIndexNmbm ni lb = p) : ni.OffSpares p := by
  unfold getMappingBlockIndexNmbm at hp
  split at hp
  case isTrue => omega
  case isFalse hlb =>
    have hplaced := h.map.placed lb (by omega)
    unfold Instance.OffSpares
    omega

theorem updateInfoTable_frame {x : Sys σ} (hx : Inv g x.ni) (hlocal : mtd.Local)
    (hp : getMappingBlockIndexNmbm x.ni lb = p) :
    getMappingBlockIndexNmbm (updateInfoTable g crc mtd x).2.ni lb = p ∧
      mtd.SameBlock x.dev (updateInfoTable g crc mtd x).2.dev p := by
  have hupdate := (updateInfoTable_spec g crc mtd hx.inOrder).updated
  refine ⟨?_, hupdate.dev hlocal p ((hx.offSpares hp).imp id Nat.le_of_lt)⟩
  rw [← hp]
  unfold getMappingBlockIndexNmbm
  rw [hupdate.keeps.blockMapping, hupdate.keeps.dataBlockCount]

theorem unmapBlockNmbm_frame {block : ℕ} {x : Sys σ} (hx : Inv g x.ni) (hlocal : mtd.Local)
    (hfits : block < x.ni.dataBlockCount → x.ni.UnmapFits block) (hne : block ≠ lb)
    (hp : getMappingBlockIndexNmbm x.ni lb = p) :
    getMappingBlockIndexNmbm (unmapBlockNmbm g crc mtd block x).ni lb = p ∧
      mtd.SameBlock x.dev (unmapBlockNmbm g crc mtd block x).dev p := by
  rcases unmapBlockNmbm_cases hx hfits with h | ⟨start, hput, h⟩
  · rw [h]
    exact ⟨hp, .refl _ p⟩
  · rw [h]
    refine updateInfoTable_frame hput hlocal ?_
    rw [← hp]
    change (if x.ni.dataBlockCount ≤ lb then (-1 : ℤ)
      else Function.update x.ni.blockMapping block _ lb) = _
    rw [Function.update_of_ne hne.symm]
    rfl

/-- The attached instance maps logical block `lb` to `p`. -/
def Machine.MapsTo (m : Machine σ) (lb p : ℕ) : Prop :=
  ∃ ni, m.phase = .attached ni ∧ getMappingBlockIndexNmbm ni lb = p

/-- What happens to other blocks: the calls about them, the updates of the tables, and
whatever keeps block `p` of the flash. -/
def Machine.Elsewhere (mtd : Mtd σ) (lb p : ℕ) (m : Machine σ) : Event σ → Prop
  | .remap block _ _ | .unmap block => block ≠ lb
  | .update => True
  | .device s => mtd.SameBlock m.dev s p
  | .createNew | .createKnown _ | .mapTail => False

theorem Machine.next_frame {m m' : Machine σ} {event : Event σ}
    (hinv : m.phase.All (Inv g)) (hlocal : mtd.Local) (hsteady : m.Steady g event)
    (helse : m.Elsewhere mtd lb p event) (h : m.next g crc mtd event = some m')
    (hmaps : m.MapsTo lb p) : m'.MapsTo lb p ∧ mtd.SameBlock m.dev m'.dev p := by
  obtain ⟨phase, s⟩ := m
  obtain ⟨ni, rfl, hp⟩ := hmaps
  have hinv : Inv g (⟨ni, s⟩ : Sys σ).ni := hinv
  cases event with
  | createNew | createKnown | mapTail => cases helse
  | remap block mappedBlock copyLen =>
    cases h
    have hlast := hinv.map.top_lt.trans hinv.map.signature_lt
    obtain ⟨hmap, hdev⟩ := @remapBlockNmbm_frame σ g crc mtd block mappedBlock copyLen lb ⟨ni, s⟩
      hinv.inOrder (hinv.inOrder.base_le.trans_lt hlast) helse.symm
    exact ⟨⟨_, rfl, hmap.trans hp⟩, hdev p hlocal (hinv.offSpares hp)⟩
  | unmap block =>
    cases h
    obtain ⟨hmap, hdev⟩ := @unmapBlockNmbm_frame σ g crc mtd _ _ _ _ hinv hlocal hsteady helse hp
    exact ⟨⟨_, rfl, hmap⟩, hdev⟩
  | update =>
    cases h
    obtain ⟨hmap, hdev⟩ := @updateInfoTable_frame σ g crc mtd _ _ _ hinv hlocal hp
    exact ⟨⟨_, rfl, hmap⟩, hdev⟩
  | device t =>
    cases h
    exact ⟨⟨ni, rfl, hp⟩, helse⟩

/-- Through remaps and unmaps of other blocks, updates of the tables and all their
failures, a logical block stays where it is and reads the same. -/
theorem sameBlock_of_run (hlocal : mtd.Local) {m m' : Machine σ}
    (hm : ((system g crc mtd).restrict (Machine.Steady g)).Reachable m) (hmaps : m.MapsTo lb p)
    (hrun : Relation.ReflTransGen (fun m m' => ∃ event, m.Steady g event ∧
      m.Elsewhere mtd lb p event ∧ m.next g crc mtd event = some m') m m') :
    m'.MapsTo lb p ∧ mtd.SameBlock m.dev m'.dev p := by
  have hinv := inv_of_reachable hm
  have hkept : m'.phase.All (Inv g) ∧ m'.MapsTo lb p ∧ mtd.SameBlock m.dev m'.dev p := by
    induction hrun with
    | refl => exact ⟨hinv, hmaps, .refl _ p⟩
    | tail _ hstep ih =>
      obtain ⟨hinv, hmaps, hsame⟩ := ih
      obtain ⟨event, hsteady, helse, hnext⟩ := hstep
      obtain ⟨hmaps, hdev⟩ := Machine.next_frame hinv hlocal hsteady helse hnext hmaps
      exact ⟨Machine.next_inv hinv hsteady hnext, hmaps, hsame.trans hdev⟩
  exact hkept.2

theorem smallMtd_local : smallMtd.Local where
  writeOob h _ _ := congrArg (0, ·) (congrFun (Function.update_of_ne h _ _) _)
  erase h _ _ := congrArg (0, ·) (congrFun (Function.update_of_ne h _ _) _)
  blockMarkbad _ := .refl _ _

/-- Block 1 of a new chip stays when block 3 moves. -/
theorem sameBlock_of_remap_three :
    ∃ m m', Machine.next smallGeometry crc32Le smallMtd m (.remap 3 3 64) = some m' ∧
      m'.MapsTo 1 1 ∧ smallMtd.SameBlock m.dev m'.dev 1 := by
  have hrun : ((smallSteadyRun [.createNew, .mapTail]).bind fun m =>
      if m.Steady smallGeometry (.remap 3 3 64) then m.mapped [1] else none) = some [1] := by
    decide +kernel
  obtain ⟨m, hm, hsome⟩ := Option.bind_eq_some_iff.mp hrun
  split at hsome
  case isFalse => cases hsome
  case isTrue hsteady =>
    obtain ⟨ni, hphase, hblocks⟩ := Machine.attached_of_mapped hsome
    obtain ⟨m', hnext⟩ :
        ∃ m', m.next smallGeometry crc32Le smallMtd (.remap 3 3 64) = some m' := by
      unfold Machine.next
      rw [hphase]
      exact ⟨_, rfl⟩
    exact ⟨m, m', hnext, sameBlock_of_run smallMtd_local
      (Lib.System.reachable_restrict_of_foldlM (.start (rfl : smallChip.phase = .detached)) _ hm)
      ⟨ni, hphase, (List.cons.inj hblocks).1⟩
      (.single ⟨_, hsteady, (by decide : 3 ≠ 1), hnext⟩)⟩

end Frame

end Nmbm

/-! ## The table of bad blocks -/

namespace Bbt

section Frame

variable {σ Page : Type} {c : RemapRange} {nand : Nand σ BbtBuf Page} {pgSize blkPages : ℕ}

theorem remapBlockBbt_desc {block mappedBlk copyLen : ℕ} {d : Desc} {s : σ} {r : ℕ × ℕ}
    (h : c.blockRange block = some r) :
    (remapBlockBbt c pgSize blkPages nand block mappedBlk copyLen d s).2.1 =
      { d with bbtBuf := setBlockBits d.bbtBuf mappedBlk true } := by
  obtain ⟨range, hrange, -⟩ := Option.map_eq_some_iff.mp h
  unfold remapBlockBbt
  rw [hrange]
  rfl

/-- The blocks before the failed one and those outside its range stay. -/
theorem remapBlockBbt_frame {block copyLen other : ℕ} {d : Desc} {s : σ}
    (hblock : block < c.totalBlks) (hother : other < c.totalBlks) (hne : other ≠ block)
    (hkept : other < block ∨ c.blockRange other ≠ c.blockRange block) :
    getMappingBlockIndexBbt c (remapBlockBbt c pgSize blkPages nand block
        (getMappingBlockIndexBbt c d block) copyLen d s).2.1 other =
          getMappingBlockIndexBbt c d other ∧
      (nand.Local → getMappingBlockIndexBbt c d other ≠ d.bmtBlkIdx →
        nand.SameBlock s (remapBlockBbt c pgSize blkPages nand block
          (getMappingBlockIndexBbt c d block) copyLen d s).2.2
            (getMappingBlockIndexBbt c d other)) := by
  have hmapping : getMappingBlockIndexBbt c (remapBlockBbt c pgSize blkPages nand block
      (getMappingBlockIndexBbt c d block) copyLen d s).2.1 other =
        getMappingBlockIndexBbt c d other := by
    cases hrange : c.blockRange block with
    | none =>
      unfold remapBlockBbt
      rw [Option.map_eq_none_iff.mp hrange]
    | some r =>
      rw [remapBlockBbt_desc hrange]
      unfold getMappingBlockIndexBbt
      rw [bbtBlockIsBad_setBlockBits]
      exact mappingBlockIndex_mark hblock hother hkept
  refine ⟨hmapping, fun hlocal htable => remapBlockBbt_sameBlock hlocal htable fun hnew => ?_⟩
  rw [← hmapping] at hnew
  exact hne (mappingBlockIndex_injective hother hblock hnew)

/-- The blocks after it move on by one, as long as that block is good. -/
theorem remapBlockBbt_moves {block copyLen other lo hi : ℕ} {d : Desc} {s : σ}
    (hblock : block < c.totalBlks) (hother : other + 1 < c.totalBlks)
    (hrange : c.blockRange block = some (lo, hi)) (hlt : block < other) (hhi : other + 1 < hi)
    (hgood : bbtBlockIsBad d.bbtBuf (getMappingBlockIndexBbt c d (other + 1)) = false) :
    getMappingBlockIndexBbt c (remapBlockBbt c pgSize blkPages nand block
        (getMappingBlockIndexBbt c d block) copyLen d s).2.1 other =
      getMappingBlockIndexBbt c d (other + 1) := by
  have hnil : c.ranges ≠ [] := by
    intro hnil
    rw [RemapRange.blockRange_of_nil hnil] at hrange
    cases hrange
    omega
  obtain ⟨hmem, hlo, -⟩ := RemapRange.mem_of_blockRange hnil hblock hrange
  rw [remapBlockBbt_desc hrange]
  unfold getMappingBlockIndexBbt
  rw [bbtBlockIsBad_setBlockBits]
  exact mappingBlockIndex_mark_after hrange hlo hlt hhi
    (RemapRange.blockRange_of_mem (by omega) hmem (by omega) (by omega))
    (RemapRange.blockRange_of_mem hother hmem (by omega) hhi) hgood

end Frame

end Bbt

/-! ## All three -/

namespace Bbt

section Later

/-- Eight blocks, all of them in one range. -/
def laterRange : RemapRange where
  totalBlks := 8
  blkShift := 4
  ranges := [(0, 128)]
  size_le := by decide
  total_lt := by decide
  aligned := by decide
  range_le := by decide
  apart := by decide

/-- A flash of one page in each block, on which nothing fails. -/
def laterNand : Nand (ℕ → ℕ) BbtBuf ℕ where
  read _ _ _ := none
  readPage s block _ := some (s block)
  erase s block := (true, Function.update s block 0xff)
  writeTable s _ _ _ := (true, s)
  writePage s block _ data := (true, Function.update s block data)

/-- The table without a bad block, kept in the last block. -/
def laterDesc : Desc := ⟨fun _ => 0, 7⟩

/-- What a failed erase of block 2 leads to, each block holding its number. -/
def laterRemap : Bool × Desc × (ℕ → ℕ) :=
  remapBlockBbt laterRange 512 1 laterNand 2 (getMappingBlockIndexBbt laterRange laterDesc 2) 0
    laterDesc id

end Later

end Bbt

end OpenWrt.MtkBmt
