/-
# What an update finds

A write into a range passes over the blocks that turn out bad, and marks them so. An
update that meets none of them is calm: every block it takes is not marked bad on the
flash, can be erased, and holds what is written to it. The conditions follow the
update from one write to the next, and each looks at the flash before the write.

A calm update leaves the block states as they are, and any other one leaves a block
below the last unmapped spare bad that was good.
-/

import OpenWrt.MtkBmt.Nmbm.TableSpec

namespace OpenWrt.MtkBmt.Nmbm

open OpenWrt.Lib

variable {σ : Type}

/-! ## Calm writes -/

section Calm

variable (g : Chip) (crc : Crc) (mtd : Mtd σ)

/-- The blocks erased in a range stay good. -/
def CalmEraseFrom (ni : Instance) : (fuel ba : ℕ) → σ → Prop
  | 0, _, _ => True
  | fuel + 1, ba, s =>
    if ¬ ni.IsGood ba then CalmEraseFrom ni fuel (ba + 1) s
    else
      ¬ mtd.blockIsBad s ba ∧ (eraseBlockAndCheck g mtd ba s).1 ∧
        CalmEraseFrom ni fuel (ba + 1) (eraseBlockAndCheck g mtd ba s).2

/-- The blocks from `ba` to below `limit` can be erased, as far as they are good. -/
def CalmErase (ba limit : ℕ) (x : Sys σ) : Prop := CalmEraseFrom g mtd x.ni (limit - ba) ba x.dev

/-- The blocks that pages are written to in a range stay good. -/
def CalmWriteFrom (ni : Instance) : (fuel ba : ℕ) → List Page → σ → Prop
  | _, _, [], _ => True
  | 0, _, _ :: _, _ => True
  | fuel + 1, ba, page :: rest, s =>
    let data := page :: rest
    if ¬ ni.IsGood ba then CalmWriteFrom ni fuel (ba + 1) data s
    else
      let erased := eraseBlockAndCheck g mtd ba s
      let written := writeVerifyData g mtd ba (data.take g.pagesPerBlk) erased.2
      ¬ mtd.blockIsBad s ba ∧ erased.1 ∧ written.1 ∧
        CalmWriteFrom ni fuel (ba + 1) (data.drop g.pagesPerBlk) written.2

/-- The good blocks from `ba` to below `limit` take the table. -/
def CalmWrite (ba limit : ℕ) (x : Sys σ) : Prop :=
  CalmWriteFrom g mtd x.ni (limit - ba) ba x.ni.infoTableCache x.dev

/-- No try of writing the table from `ba`, or from a block below, meets a bad block. -/
def CalmDownFrom : (fuel ba : ℕ) → Sys σ → Prop
  | 0, _, _ => True
  | fuel + 1, ba, x =>
    CalmWrite g mtd ba x.ni.mappingBlocksTopBa x ∧
      match writeInfoTable g mtd ba x.ni.mappingBlocksTopBa x with
      | (some _, _) => True
      | (none, x) => CalmDownFrom fuel (ba - 1) x

/-- The same for the blocks down to `low`. -/
def CalmDown (ba low : ℕ) (x : Sys σ) : Prop := CalmDownFrom g mtd (ba + 1 - low) ba x

/-- Building both tables from scratch meets no bad block. -/
def CalmRebuild (x : Sys σ) : Prop :=
  let x := x.map fun ni => ((ni.setMain 0 0).setBackup 0 0).setBase ni.mappingBlocksTopBa
  CalmWrite g mtd x.ni.mgmtStartBa x.ni.mappingBlocksTopBa x ∧
    match writeInfoTable g mtd x.ni.mgmtStartBa x.ni.mappingBlocksTopBa x with
    | (none, _) => True
    | (some (mainStart, mainEnd), x) =>
      let x := x.map fun ni => ((ni.setMain mainStart mainEnd).setBase mainEnd).clean
      match x.ni.tryReserveBlocks g mainEnd g.infoTableSpareBlocks (x.ni.reserveLimit g) with
      | none => True
      | some next =>
        CalmWrite g mtd next x.ni.mappingBlocksTopBa x ∧
          match writeInfoTable g mtd next x.ni.mappingBlocksTopBa x with
          | (none, _) => True
          | (some (start, stop), x) =>
            CalmErase g mtd mainEnd start
              (x.map fun ni => (ni.setBackup start stop).setBase stop)

/-- Rescuing the main table meets no bad block. -/
def CalmRescue (x : Sys σ) : Prop :=
  match x.ni.tryReserveBlocks g x.ni.mappingBlocksBa g.infoTableSpareBlocks
      (x.ni.reserveLimit g) with
  | none => True
  | some writeBa =>
    CalmDown g mtd writeBa x.ni.mappingBlocksBa x ∧
      match writeDown g mtd writeBa x.ni.mappingBlocksBa x with
      | (none, _) => True
      | (some (tmpStart, tmpEnd), x) =>
        let x := x.map fun ni => ni.setBase tmpEnd
        CalmWrite g mtd x.ni.mgmtStartBa tmpStart x ∧
          match writeInfoTable g mtd x.ni.mgmtStartBa tmpStart x with
          | (none, _) => True
          | (some (mainStart, mainEnd), x) =>
            let x := x.map fun ni => (ni.setMain mainStart mainEnd).clean
            if mainEnd ≤ tmpStart then True
            else
              let x := x.map fun ni => ni.setBase mainEnd
              match x.ni.tryReserveBlocks g mainEnd g.infoTableSpareBlocks
                  (x.ni.reserveLimit g) with
              | none => True
              | some writeBa =>
                CalmDown g mtd writeBa mainEnd x ∧
                  match writeDown g mtd writeBa mainEnd x with
                  | (none, _) => True
                  | (some (start, stop), x) =>
                    CalmErase g mtd mainEnd start
                      (x.map fun ni => (ni.setBackup start stop).setBase stop)

/-- Writing the main table below the limit meets no bad block, nor does what is done
when it has no room. -/
def CalmMain (limit : ℕ) (x : Sys σ) : Prop :=
  if x.ni.mainTableBa = 0 then CalmRebuild g mtd x
  else
    CalmWrite g mtd x.ni.mainTableBa limit x ∧
      match writeInfoTable g mtd x.ni.mainTableBa limit x with
      | (some _, _) => True
      | (none, x) => if x.ni.backupTableBa = 0 then CalmRebuild g mtd x else CalmRescue g mtd x

/-- Writing both tables meets no bad block. -/
def CalmBoth (x : Sys σ) : Prop :=
  if x.ni.backupTableBa = 0 then CalmMain g mtd x.ni.mappingBlocksTopBa x
  else
    CalmWrite g mtd x.ni.backupTableBa x.ni.mappingBlocksTopBa x ∧
      match writeInfoTable g mtd x.ni.backupTableBa x.ni.mappingBlocksTopBa x with
      | (none, x) =>
        CalmMain g mtd x.ni.mappingBlocksTopBa
          (x.map fun ni => (ni.setBase ni.backupTableBa).setBackup 0 0)
      | (some (start, stop), x) =>
        CalmMain g mtd start (x.map fun ni => ((ni.setBackup start stop).setBase stop).clean)

/-- A round of an update meets no bad block. -/
def CalmRound (x : Sys σ) : Prop :=
  CalmBoth g mtd (x.map fun ni => (generateInfoTableCache g crc ni).2)

/-- The last round of an update is calm. The rounds before it lost a block after the
table was written and start anew. -/
def SettlesFrom : (fuel : ℕ) → Sys σ → Prop
  | 0, _ => False
  | fuel + 1, x =>
    let next := (updateInfoTableOnce g crc mtd false x).2
    if next.ni.Changed then SettlesFrom fuel next else CalmRound g crc mtd x

/-- The last round of an update is calm. -/
def Settles (x : Sys σ) : Prop := SettlesFrom g crc mtd (g.blockCount + 2) x

end Calm

/-! ## Blocks that are found bad -/

/-- The memory after some writes: blocks below the top that were good may be bad, and
the table and the mapping are the same. -/
structure Worn (x y : Sys σ) : Prop where
  top : y.ni.mappingBlocksTopBa = x.ni.mappingBlocksTopBa
  mapping : y.ni.blockMapping = x.ni.blockMapping
  table : y.ni.infoTable = x.ni.infoTable
  cache : y.ni.infoTableCache = x.ni.infoTableCache
  state : ∀ ba, y.ni.getBlockState ba = x.ni.getBlockState ba ∨
    (ba < x.ni.mappingBlocksTopBa ∧ x.ni.IsGood ba ∧ y.ni.getBlockState ba = blockStBad)
  count : ∀ n, x.ni.mappingBlocksTopBa ≤ n → y.ni.blockStateChanged + y.ni.goodCount n ≤
    x.ni.blockStateChanged + x.ni.goodCount n
  good : ∀ n, y.ni.goodCount n ≤ x.ni.goodCount n
  mappingClean : x.ni.blockMappingChanged = 0 → y.ni.blockMappingChanged = 0

def Lost (x y : Sys σ) : Prop :=
  ∃ ba, ba < x.ni.mappingBlocksTopBa ∧ x.ni.IsGood ba ∧ y.ni.getBlockState ba = blockStBad

theorem Instance.not_isGood_of_bad {ni : Instance} {ba : ℕ}
    (h : ni.getBlockState ba = blockStBad) : ¬ ni.IsGood ba := by
  unfold IsGood
  rw [h]
  decide

theorem Worn.refl (x : Sys σ) : Worn x x :=
  ⟨rfl, rfl, rfl, rfl, fun _ => .inl rfl, fun _ _ => le_rfl, fun _ => le_rfl, id⟩

variable {x y z : Sys σ}

theorem Worn.trans (hxy : Worn x y) (hyz : Worn y z) : Worn x z where
  top := hyz.top.trans hxy.top
  mapping := hyz.mapping.trans hxy.mapping
  table := hyz.table.trans hxy.table
  cache := hyz.cache.trans hxy.cache
  state ba := by
    rcases hyz.state ba with hz | ⟨htop, hgood, hbad⟩
    · rw [hz]
      exact hxy.state ba
    · rcases hxy.state ba with hy | ⟨-, -, hbad'⟩
      · exact .inr ⟨hxy.top ▸ htop, hy.symm.trans hgood, hbad⟩
      · exact absurd hgood (Instance.not_isGood_of_bad hbad')
  count n hn := (hyz.count n (hxy.top ▸ hn)).trans (hxy.count n hn)
  good n := (hyz.good n).trans (hxy.good n)
  mappingClean := hyz.mappingClean ∘ hxy.mappingClean

theorem Lost.trans_worn (hxy : Lost x y) (hyz : Worn y z) : Lost x z := by
  obtain ⟨ba, htop, hgood, hbad⟩ := hxy
  refine ⟨ba, htop, hgood, ?_⟩
  rcases hyz.state ba with hz | ⟨-, -, hz⟩
  · exact hz.trans hbad
  · exact hz

theorem Worn.trans_lost (hxy : Worn x y) (hyz : Lost y z) : Lost x z := by
  obtain ⟨ba, htop, hgood, hbad⟩ := hyz
  rcases hxy.state ba with hy | ⟨-, -, hy⟩
  · exact ⟨ba, hxy.top ▸ htop, hy.symm.trans hgood, hbad⟩
  · exact absurd hgood (Instance.not_isGood_of_bad hy)

/-- What a part of an update comes to: it is calm and keeps the block states, or it
loses a block. -/
structure Found (calm : Prop) (x y : Sys σ) : Prop where
  worn : Worn x y
  kept : calm → y.ni.blockState = x.ni.blockState
  lost : ¬ calm → Lost x y

theorem Found.refl (x : Sys σ) : Found True x x :=
  ⟨.refl x, fun _ => rfl, fun h => absurd trivial h⟩

theorem Found.trans {c d : Prop} (hxy : Found c x y) (hyz : Found d y z) :
    Found (c ∧ d) x z where
  worn := hxy.worn.trans hyz.worn
  kept h := (hyz.kept h.2).trans (hxy.kept h.1)
  lost h := by
    by_cases hc : c
    · exact hxy.worn.trans_lost (hyz.lost fun hd => h ⟨hc, hd⟩)
    · exact (hxy.lost hc).trans_worn hyz.worn

theorem Found.congr {c d : Prop} {x y : Sys σ} (h : Found c x y) (hcd : c ↔ d) : Found d x y :=
  ⟨h.worn, h.kept ∘ hcd.mpr, fun hd => h.lost (hd ∘ hcd.mp)⟩

theorem Found.of_dev (x : Sys σ) (s : σ) : Found True x { x with dev := s } :=
  ⟨⟨rfl, rfl, rfl, rfl, fun _ => .inl rfl, fun _ _ => le_rfl, fun _ => le_rfl, id⟩,
    fun _ => rfl, fun h => absurd trivial h⟩

theorem Instance.getBlockState_congr {ni ni' : Instance} (h : ni'.blockState = ni.blockState)
    (ba : ℕ) : ni'.getBlockState ba = ni.getBlockState ba := by
  unfold getBlockState
  rw [h]

theorem Instance.goodCount_congr {ni ni' : Instance} (h : ni'.blockState = ni.blockState)
    (n : ℕ) : ni'.goodCount n = ni.goodCount n := by
  unfold goodCount
  congr 1
  apply List.filter_congr
  intro ba _
  apply decide_eq_decide.mpr
  unfold IsGood
  rw [getBlockState_congr h]

theorem Found.map {x : Sys σ} {f : Instance → Instance} (hkeeps : KeepsMap x.ni (f x.ni))
    (htable : (f x.ni).infoTable = x.ni.infoTable)
    (hcache : (f x.ni).infoTableCache = x.ni.infoTableCache)
    (hstate : (f x.ni).blockState = x.ni.blockState)
    (hchanged : (f x.ni).blockStateChanged ≤ x.ni.blockStateChanged) :
    Found True x (x.map f) := by
  refine ⟨⟨hkeeps.mappingBlocksTopBa, hkeeps.blockMapping, htable, hcache,
    fun ba => .inl (Instance.getBlockState_congr hstate ba), fun n _ => ?_,
    fun n => (Instance.goodCount_congr hstate n).le, hkeeps.mappingClean⟩,
    fun _ => hstate, fun h => absurd trivial h⟩
  change (f x.ni).blockStateChanged + (f x.ni).goodCount n ≤ _
  rw [Instance.goodCount_congr hstate]
  omega

theorem Marked.worn {mtd : Mtd σ} {low high : ℕ} {x y : Sys σ} (h : Marked mtd low high x y)
    (hhigh : high ≤ x.ni.mappingBlocksTopBa) : Worn x y where
  top := by rw [h.ni]
  mapping := by rw [h.ni]
  table := by rw [h.ni]
  cache := by rw [h.ni]
  state ba := (h.state ba).imp id fun ⟨_, hba, hrest⟩ => ⟨hba.trans_le hhigh, hrest⟩
  count n hn := h.count n (hhigh.trans hn)
  good := h.good
  mappingClean := by
    rw [h.ni]
    exact id

section Parts

variable {g : Chip} {mtd : Mtd σ}

variable {x : Sys σ}

theorem Found.noteBad (mtd : Mtd σ) {ba : ℕ} (hgood : x.ni.IsGood ba)
    (htop : ba < x.ni.mappingBlocksTopBa) : Found False x (x.noteBad ba) where
  worn :=
    have hmarked : Marked mtd ba x.ni.mappingBlocksTopBa x (x.noteBad ba) :=
      .noteBad le_rfl htop hgood
    hmarked.worn le_rfl
  kept := False.elim
  lost _ := ⟨ba, htop, hgood, x.ni.getBlockState_setBlockState_self ba blockStBad⟩

theorem Found.markBad {ba : ℕ} (hgood : x.ni.IsGood ba) (htop : ba < x.ni.mappingBlocksTopBa) :
    Found False x (Sys.markBad mtd x ba) where
  worn := (Marked.markBad le_rfl htop hgood).worn le_rfl
  kept := False.elim
  lost _ := ⟨ba, htop, hgood, x.ni.getBlockState_setBlockState_self ba blockStBad⟩

theorem eraseRangeFrom_found (fuel ba : ℕ) (x : Sys σ)
    (htop : ba + fuel ≤ x.ni.mappingBlocksTopBa) :
    Found (CalmEraseFrom g mtd x.ni fuel ba x.dev) x (eraseRangeFrom g mtd fuel ba x) := by
  induction fuel generalizing ba x with
  | zero => exact .refl x
  | succ fuel ih =>
    unfold eraseRangeFrom CalmEraseFrom
    split
    case isTrue => exact ih (ba + 1) x (by omega)
    case isFalse hgood =>
      have hgood : x.ni.IsGood ba := not_not.mp hgood
      split
      case isTrue hbad =>
        apply ((Found.noteBad mtd hgood (by omega)).trans (ih (ba + 1) (x.noteBad ba) _)).congr
        · simp [hbad]
        · change ba + 1 + fuel ≤ x.ni.mappingBlocksTopBa
          omega
      case isFalse hbad =>
        split
        case h_1 s heq =>
          apply ((Found.of_dev x s).trans (ih (ba + 1) { x with dev := s } _)).congr
          · simp [hbad, heq]
          · change ba + 1 + fuel ≤ x.ni.mappingBlocksTopBa
            omega
        case h_2 s heq =>
          have hmark : Found False { x with dev := s } (Sys.markBad mtd { x with dev := s } ba) :=
            .markBad hgood (by change ba < x.ni.mappingBlocksTopBa; omega)
          apply (((Found.of_dev x s).trans hmark).trans (ih (ba + 1) _ _)).congr
          · simp [heq]
          · change ba + 1 + fuel ≤ x.ni.mappingBlocksTopBa
            omega

theorem writeMgmtRangeFrom_found (fuel ba : ℕ) (start : Option ℕ) (data : List Page) (x : Sys σ)
    (htop : ba + fuel ≤ x.ni.mappingBlocksTopBa) :
    Found (CalmWriteFrom g mtd x.ni fuel ba data x.dev) x
      (writeMgmtRangeFrom g mtd fuel ba start data x).2 := by
  induction fuel generalizing ba start data x with
  | zero => cases data <;> exact .refl x
  | succ fuel ih =>
    cases data with
    | nil => exact .refl x
    | cons page rest =>
      have hroom : ba + 1 + fuel ≤ x.ni.mappingBlocksTopBa := by omega
      unfold writeMgmtRangeFrom CalmWriteFrom
      dsimp only
      split
      case isTrue => exact ih (ba + 1) start (page :: rest) x hroom
      case isFalse hgood =>
        have hgood : x.ni.IsGood ba := not_not.mp hgood
        split
        case isTrue hbad =>
          apply ((Found.noteBad mtd hgood (by omega)).trans
            (ih (ba + 1) start (page :: rest) (x.noteBad ba) hroom)).congr
          simp [hbad]
        case isFalse hbad =>
          have hmark : ∀ s, Found False x (Sys.markBad mtd { x with dev := s } ba) := by
            intro s
            have hfound : Found False { x with dev := s }
                (Sys.markBad mtd { x with dev := s } ba) :=
              .markBad hgood (by change ba < x.ni.mappingBlocksTopBa; omega)
            exact ((Found.of_dev x s).trans hfound).congr (by simp)
          split
          case h_1 s heq =>
            apply ((hmark s).trans (ih (ba + 1) start (page :: rest) _ hroom)).congr
            simp [heq]
          case h_2 s heq =>
            split
            case h_1 t hwrite =>
              apply ((hmark t).trans (ih (ba + 1) start (page :: rest) _ hroom)).congr
              simp [heq, hwrite]
            case h_2 t hwrite =>
              apply ((Found.of_dev x t).trans (ih (ba + 1) (some (start.getD ba))
                ((page :: rest).drop g.pagesPerBlk) { x with dev := t } hroom)).congr
              simp [hbad, heq, hwrite]

theorem eraseRange_found {ba limit : ℕ} {x : Sys σ} (hlimit : limit ≤ x.ni.mappingBlocksTopBa) :
    Found (CalmErase g mtd ba limit x) x (eraseRange g mtd ba limit x) := by
  unfold eraseRange CalmErase
  by_cases hle : ba ≤ limit
  · exact eraseRangeFrom_found (limit - ba) ba x (by omega)
  · rw [Nat.sub_eq_zero_of_le (by omega)]
    exact .refl x

theorem writeInfoTable_found {ba limit : ℕ} (hlimit : limit ≤ x.ni.mappingBlocksTopBa) :
    Found (CalmWrite g mtd ba limit x) x (writeInfoTable g mtd ba limit x).2 := by
  unfold writeInfoTable writeMgmtRange CalmWrite
  by_cases hle : ba ≤ limit
  · exact writeMgmtRangeFrom_found (limit - ba) ba none x.ni.infoTableCache x (by omega)
  · rw [Nat.sub_eq_zero_of_le (by omega)]
    cases hcache : x.ni.infoTableCache <;> exact .refl x

theorem writeDownFrom_found (fuel ba : ℕ) (x : Sys σ) :
    Found (CalmDownFrom g mtd fuel ba x) x (writeDownFrom g mtd fuel ba x).2 := by
  induction fuel generalizing ba x with
  | zero => exact .refl x
  | succ fuel ih =>
    have hwrite : Found (CalmWrite g mtd ba x.ni.mappingBlocksTopBa x) x
        (writeInfoTable g mtd ba x.ni.mappingBlocksTopBa x).2 :=
      writeInfoTable_found le_rfl
    unfold writeDownFrom CalmDownFrom
    rcases heq : writeInfoTable g mtd ba x.ni.mappingBlocksTopBa x with ⟨_ | range, y⟩
    · rw [heq] at hwrite
      exact hwrite.trans (ih (ba - 1) y)
    · rw [heq] at hwrite
      exact hwrite.trans (.refl y)

/-! ## Calm updates -/

/-- What an attempt to write the tables comes to: what it finds, and that nothing is
left to write when it succeeds. -/
structure Finished (calm : Prop) (x : Sys σ) (result : Bool × Sys σ) : Prop where
  found : Found calm x result.2
  quiet : result.1 = true → Quiet x result.2

theorem Worn.quiet {x z y : Sys σ} (hxz : Worn x z) (hzy : Worn z y)
    (hstate : z.ni.blockStateChanged = 0) (hmapping : z.ni.blockMappingChanged = 0) :
    Quiet x y := by
  refine ⟨hzy.mappingClean hmapping, fun n hn => ?_⟩
  have hcount := hzy.count n (hxz.top ▸ hn)
  have hgood := hxz.good n
  omega

theorem Found.finished {c d : Prop} {x z y : Sys σ} (hxz : Found c x z) (hzy : Found d z y)
    (hstate : z.ni.blockStateChanged = 0) (hmapping : z.ni.blockMappingChanged = 0) :
    Finished (c ∧ d) x (true, y) :=
  ⟨hxz.trans hzy, fun _ => hxz.worn.quiet hzy.worn hstate hmapping⟩

theorem Finished.congr {c d : Prop} {result : Bool × Sys σ} (h : Finished c x result) (hcd : c ↔ d) :
    Finished d x result :=
  ⟨h.found.congr hcd, h.quiet⟩

theorem Finished.after {c d : Prop} {x y : Sys σ} {result : Bool × Sys σ} (hxy : Found c x y)
    (h : Finished d y result) : Finished (c ∧ d) x result := by
  refine ⟨hxy.trans h.found, fun hok => ⟨(h.quiet hok).mapping, fun n hn => ?_⟩⟩
  exact ((h.quiet hok).state n (hxy.worn.top ▸ hn)).trans (hxy.worn.good n)

theorem Found.write {x y : Sys σ} {ba limit : ℕ} {range : Option (ℕ × ℕ)}
    (hlimit : limit ≤ x.ni.mappingBlocksTopBa) (hcache : x.ni.infoTableCache ≠ [])
    (h : writeInfoTable g mtd ba limit x = (range, y)) :
    Found (CalmWrite g mtd ba limit x) x y ∧
      ∀ start stop, range = some (start, stop) → ba ≤ start ∧ start < stop ∧ stop ≤ limit := by
  have hfound : Found (CalmWrite g mtd ba limit x) x (writeInfoTable g mtd ba limit x).2 :=
    writeInfoTable_found hlimit
  obtain ⟨-, hrange⟩ := writeInfoTable_spec g mtd ba limit x
  rw [h] at hfound hrange
  exact ⟨hfound, fun start stop heq => hrange start stop hcache heq⟩

theorem Found.writeDown {x y : Sys σ} {ba low : ℕ} {range : Option (ℕ × ℕ)} (hlow : low ≤ ba)
    (hcache : x.ni.infoTableCache ≠ []) (h : writeDown g mtd ba low x = (range, y)) :
    Found (CalmDown g mtd ba low x) x y ∧
      ∀ start stop, range = some (start, stop) → stop ≤ x.ni.mappingBlocksTopBa ∧ start < stop := by
  have hfound : Found (CalmDown g mtd ba low x) x (Nmbm.writeDown g mtd ba low x).2 :=
    writeDownFrom_found _ ba x
  obtain ⟨-, hrange⟩ := writeDown_spec g mtd ba low x hlow
  rw [h] at hfound hrange
  refine ⟨hfound, fun start stop heq => ?_⟩
  have := hrange start stop hcache heq
  omega

variable (g mtd) in
theorem rebuildInfoTable_finished (hcache : x.ni.infoTableCache ≠ []) :
    Finished (CalmRebuild g mtd x) x (rebuildInfoTable g mtd x) := by
  unfold rebuildInfoTable CalmRebuild
  dsimp only
  have hstart : Found True x (x.map fun ni =>
    ((ni.setMain 0 0).setBackup 0 0).setBase ni.mappingBlocksTopBa) :=
    .map ⟨rfl, rfl, rfl, rfl, rfl, rfl, id⟩ rfl rfl rfl le_rfl
  generalize x.map (fun ni => ((ni.setMain 0 0).setBackup 0 0).setBase ni.mappingBlocksTopBa) =
    x₀ at hstart ⊢
  have hcache₀ : x₀.ni.infoTableCache ≠ [] := hstart.worn.cache ▸ hcache
  rcases heq : writeInfoTable g mtd x₀.ni.mgmtStartBa x₀.ni.mappingBlocksTopBa x₀ with
    ⟨_ | ⟨mainStart, mainEnd⟩, y⟩
  case none =>
    obtain ⟨hwrite, -⟩ := Found.write le_rfl hcache₀ heq
    have hlast : Found True y (y.map .protect) :=
      .map ⟨rfl, rfl, rfl, rfl, rfl, rfl, id⟩ rfl rfl rfl le_rfl
    exact ⟨((hstart.trans hwrite).trans hlast).congr (by simp), fun h => nomatch h⟩
  case some =>
    obtain ⟨hwrite, -⟩ := Found.write le_rfl hcache₀ heq
    have hcache₁ : y.ni.infoTableCache ≠ [] := hwrite.worn.cache ▸ hcache₀
    dsimp only
    have hone : Found True y (y.map fun ni =>
      ((ni.setMain mainStart mainEnd).setBase mainEnd).clean) :=
      .map ⟨rfl, rfl, rfl, rfl, rfl, rfl, fun _ => rfl⟩ rfl rfl rfl (Nat.zero_le _)
    have hclean : (y.map fun ni =>
      ((ni.setMain mainStart mainEnd).setBase mainEnd).clean).ni.blockStateChanged = 0 ∧
      (y.map fun ni =>
        ((ni.setMain mainStart mainEnd).setBase mainEnd).clean).ni.blockMappingChanged = 0 :=
      ⟨rfl, rfl⟩
    generalize y.map (fun ni => ((ni.setMain mainStart mainEnd).setBase mainEnd).clean) = y₁
      at hone hclean ⊢
    have hy := (hstart.trans hwrite).trans hone
    cases hreserve : y₁.ni.tryReserveBlocks g mainEnd g.infoTableSpareBlocks
        (y₁.ni.reserveLimit g) with
    | none => exact (hy.finished (.refl y₁) hclean.1 hclean.2).congr (by simp)
    | some next =>
      dsimp only
      rcases heq₁ : writeInfoTable g mtd next y₁.ni.mappingBlocksTopBa y₁ with
        ⟨_ | ⟨start, stop⟩, z⟩
      case none =>
        obtain ⟨hwrite₁, -⟩ := Found.write le_rfl (hone.worn.cache ▸ hcache₁) heq₁
        exact (hy.finished hwrite₁ hclean.1 hclean.2).congr (by simp)
      case some =>
        obtain ⟨hwrite₁, hrange⟩ := Found.write le_rfl (hone.worn.cache ▸ hcache₁) heq₁
        have htop : start ≤ z.ni.mappingBlocksTopBa := by
          have := hrange start stop rfl
          rw [hwrite₁.worn.top]
          omega
        have htwo : Found True z (z.map fun ni => (ni.setBackup start stop).setBase stop) :=
          .map ⟨rfl, rfl, rfl, rfl, rfl, rfl, id⟩ rfl rfl rfl le_rfl
        have herase := @eraseRange_found _ g mtd mainEnd start
          (z.map fun ni => (ni.setBackup start stop).setBase stop) htop
        exact (hy.finished ((hwrite₁.trans htwo).trans herase) hclean.1 hclean.2).congr (by simp)

variable (g mtd) in
theorem rescueMainInfoTable_found (hcache : x.ni.infoTableCache ≠ []) :
    Found (CalmRescue g mtd x) x (rescueMainInfoTable g mtd x).2 ∧
      (rescueMainInfoTable g mtd x).1 = true := by
  unfold rescueMainInfoTable CalmRescue
  have hpromote : ∀ y : Sys σ, Found True y (y.map .promoteBackup) := fun _ =>
    .map ⟨rfl, rfl, rfl, rfl, rfl, rfl, id⟩ rfl rfl rfl le_rfl
  cases hreserve : x.ni.tryReserveBlocks g x.ni.mappingBlocksBa g.infoTableSpareBlocks
      (x.ni.reserveLimit g) with
  | none => exact ⟨hpromote x, rfl⟩
  | some writeBa =>
    have hlow := (Instance.tryReserveBlocks_spec hreserve).1
    dsimp only
    rcases heq : writeDown g mtd writeBa x.ni.mappingBlocksBa x with ⟨_ | ⟨tmpStart, tmpEnd⟩, y⟩
    case none =>
      obtain ⟨hdown, -⟩ := Found.writeDown hlow hcache heq
      exact ⟨hdown.trans (hpromote y), rfl⟩
    case some =>
      obtain ⟨hdown, hrange⟩ := Found.writeDown hlow hcache heq
      dsimp only
      have hraise : Found True y (y.map fun ni => ni.setBase tmpEnd) :=
        .map ⟨rfl, rfl, rfl, rfl, rfl, rfl, id⟩ rfl rfl rfl le_rfl
      have htmp : tmpStart ≤ (y.map fun ni => ni.setBase tmpEnd).ni.mappingBlocksTopBa := by
        have := hrange tmpStart tmpEnd rfl
        rw [hraise.worn.top, hdown.worn.top]
        omega
      generalize y.map (fun ni => ni.setBase tmpEnd) = y₁ at hraise htmp ⊢
      have hy := hdown.trans hraise
      have hcache₁ : y₁.ni.infoTableCache ≠ [] := hy.worn.cache ▸ hcache
      rcases heq₁ : writeInfoTable g mtd y₁.ni.mgmtStartBa tmpStart y₁ with
        ⟨_ | ⟨mainStart, mainEnd⟩, z⟩
      case none =>
        obtain ⟨hwrite, -⟩ := Found.write htmp hcache₁ heq₁
        have hlast : Found True z
            (z.map fun ni => ((ni.setMain tmpStart tmpEnd).setBackup 0 0).clean) :=
          .map ⟨rfl, rfl, rfl, rfl, rfl, rfl, fun _ => rfl⟩ rfl rfl rfl (Nat.zero_le _)
        exact ⟨((hy.trans hwrite).trans hlast).congr (by simp), rfl⟩
      case some =>
        obtain ⟨hwrite, hrange₁⟩ := Found.write htmp hcache₁ heq₁
        have hend : mainEnd ≤ tmpStart := (hrange₁ mainStart mainEnd rfl).2.2
        dsimp only
        -- the main table ends below the temporary one
        rw [if_pos hend, if_pos hend]
        have hlast : Found True z (z.map fun ni =>
          ((ni.setMain mainStart mainEnd).clean).setBackup tmpStart tmpEnd) :=
          .map ⟨rfl, rfl, rfl, rfl, rfl, rfl, fun _ => rfl⟩ rfl rfl rfl (Nat.zero_le _)
        exact ⟨((hy.trans hwrite).trans hlast).congr (by simp), rfl⟩

theorem updateMainTable_finished {limit : ℕ} (hlimit : limit ≤ x.ni.mappingBlocksTopBa)
    (hcache : x.ni.infoTableCache ≠ []) (hclean : x.ni.backupTableBa ≠ 0 →
      x.ni.blockStateChanged = 0 ∧ x.ni.blockMappingChanged = 0) :
    Finished (CalmMain g mtd limit x) x (updateMainTable g mtd limit x) := by
  unfold updateMainTable CalmMain
  split
  case isTrue => exact rebuildInfoTable_finished g mtd hcache
  case isFalse =>
    rcases heq : writeInfoTable g mtd x.ni.mainTableBa limit x with ⟨_ | ⟨start, stop⟩, y⟩
    case none =>
      obtain ⟨hwrite, -⟩ := Found.write hlimit hcache heq
      have hcache₁ : y.ni.infoTableCache ≠ [] := hwrite.worn.cache ▸ hcache
      dsimp only
      have hbackup : y.ni.backupTableBa = x.ni.backupTableBa := by
        have hmarked := (writeInfoTable_spec g mtd x.ni.mainTableBa limit x).1
        rw [heq] at hmarked
        exact hmarked.sameRecords.backup
      split
      case isTrue => exact .after hwrite (rebuildInfoTable_finished g mtd hcache₁)
      case isFalse hb =>
        obtain ⟨hstate, hmapping⟩ := hclean (hbackup ▸ hb)
        obtain ⟨hrescue, hok⟩ := rescueMainInfoTable_found g mtd hcache₁
        have hdone := (Found.refl x).finished (hwrite.trans hrescue) hstate hmapping
        rw [← hok] at hdone
        exact hdone.congr (by simp)
    case some =>
      obtain ⟨hwrite, -⟩ := Found.write hlimit hcache heq
      dsimp only
      have hlast : Found True y (y.map fun ni =>
        (if ni.backupTableBa = 0 then (ni.setMain start stop).setBase stop
          else ni.setMain start stop).clean) := by
        by_cases hb : y.ni.backupTableBa = 0
        · apply Found.map <;> simp only [hb, if_true]
          exacts [⟨rfl, rfl, rfl, rfl, rfl, rfl, fun _ => rfl⟩, rfl, rfl, rfl, Nat.zero_le _]
        · apply Found.map <;> simp only [hb, if_false]
          exacts [⟨rfl, rfl, rfl, rfl, rfl, rfl, fun _ => rfl⟩, rfl, rfl, rfl, Nat.zero_le _]
      exact ((hwrite.trans hlast).finished (.refl _) rfl rfl).congr (by simp)

variable (g mtd) in
theorem updateBothTables_finished (hcache : x.ni.infoTableCache ≠ []) :
    Finished (CalmBoth g mtd x) x (updateBothTables g mtd x) := by
  unfold updateBothTables CalmBoth
  split
  case isTrue hnone => exact updateMainTable_finished le_rfl hcache fun hne => absurd hnone hne
  case isFalse hb =>
    rcases heq : writeInfoTable g mtd x.ni.backupTableBa x.ni.mappingBlocksTopBa x with
      ⟨_ | ⟨start, stop⟩, y⟩
    case none =>
      obtain ⟨hwrite, -⟩ := Found.write le_rfl hcache heq
      have hlose : Found True y
          (y.map fun ni => (ni.setBase ni.backupTableBa).setBackup 0 0) :=
        .map ⟨rfl, rfl, rfl, rfl, rfl, rfl, id⟩ rfl rfl rfl le_rfl
      have hmain : Finished _ _ (updateMainTable g mtd y.ni.mappingBlocksTopBa
          (y.map fun ni => (ni.setBase ni.backupTableBa).setBackup 0 0)) :=
        updateMainTable_finished le_rfl (hwrite.worn.cache ▸ hcache) fun hne => absurd rfl hne
      exact (Finished.after (hwrite.trans hlose) hmain).congr (by
        simp [Sys.map, Instance.setBackup, Instance.setBase])
    case some =>
      obtain ⟨hwrite, hrange⟩ := Found.write le_rfl hcache heq
      have hlast : Found True y
          (y.map fun ni => ((ni.setBackup start stop).setBase stop).clean) :=
        .map ⟨rfl, rfl, rfl, rfl, rfl, rfl, fun _ => rfl⟩ rfl rfl rfl (Nat.zero_le _)
      have htop : start ≤ y.ni.mappingBlocksTopBa := by
        have := hrange start stop rfl
        rw [hwrite.worn.top]
        omega
      have hmain : Finished _ _ (updateMainTable g mtd start
          (y.map fun ni => ((ni.setBackup start stop).setBase stop).clean)) :=
        updateMainTable_finished htop (hwrite.worn.cache ▸ hcache) fun _ => ⟨rfl, rfl⟩
      exact (Finished.after (hwrite.trans hlast) hmain).congr (by simp)

end Parts

end OpenWrt.MtkBmt.Nmbm
