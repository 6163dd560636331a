/-
# The version 2 table survives a reboot

A boot reads the pool from the last block down for a table. It gets back what
was stored as long as nothing above the table's block reads as a table, and the
table names its own block: then the first table found is the stored one, and the
index the boot looks for is the one it was stored under.

An upload that succeeds in the block the table was in keeps all this, and so
does the spare a remap prepares below it. An upload that has to move down does
not: the entry it leaves still carries the mark, with block 0, which is where the
next boot stops looking for the index.
-/

import OpenWrt.MtkBmt.V2Injective

namespace OpenWrt.MtkBmt.V2

open OpenWrt.Lib

section Boot

variable {σ Page : Type} (c : Config) (nand : Nand σ Bbbt Page)

/-- A table that was written after an erase, both with success, is read back with
its signature in the spare area. -/
def Keeps : Prop :=
  ∀ {s t u : σ} {block : ℕ} {sig : List UInt8} {table : Bbbt},
    nand.erase s block = (true, t) → nand.writeTable t block sig table = (true, u) →
      ∃ marker, nand.read u block c.bmtPgs = some ⟨table, marker :: sig⟩

def NoTable (s : σ) (block : ℕ) : Prop :=
  ∀ readout, nand.read s block c.bmtPgs = some readout → isValidBmt readout = false

/-- The pool of a table as the scan lists it: the table's entry carries the mark
and no entry before it does, and its block is a block of the pool above theirs. -/
structure Listed (d : Desc) : Prop where
  index_pos : 0 < d.bmtBlkIdx
  index_lt : d.bmtBlkIdx < 0x10000
  index_use : d.poolUse d.bmtBlkIdx = .bmtMapped
  before_block : ∀ k < d.bmtBlkIdx, d.poolBlock k ≠ 0 ∧ d.poolBlock k < d.tableBlock
  before_use : ∀ k < d.bmtBlkIdx, d.poolUse k ≠ .bmtMapped
  low : c.poolLba ≤ d.tableBlock
  high : d.tableBlock < c.totalBlks

def ClearAbove (block : ℕ) (s : σ) : Prop :=
  ∀ other, block < other → other < c.totalBlks → NoTable c nand s other

/-- The flash holds the table of the memory where a boot finds it: in the block
its index names, below nothing that reads as a table. -/
structure Settled (d : Desc) (s : σ) : Prop where
  listed : Listed c d
  above : ClearAbove c nand d.tableBlock s
  stored : ∃ fdm, nand.read s d.tableBlock c.bmtPgs = some ⟨d.bbt, fdm⟩ ∧
    isValidBmt ⟨d.bbt, fdm⟩ = true

variable {c nand}

/-! ## Finding the table -/

theorem getBmtIndexFrom_eq {bmtTbl : ℕ → Bbmt} {index : ℕ}
    (hindex : (bmtTbl index).mapped = .bmtMapped)
    (hblock : ∀ k ≤ index, (bmtTbl k).block ≠ 0)
    (hbefore : ∀ k < index, (bmtTbl k).mapped ≠ .bmtMapped) {fuel i : ℕ} (hi : i ≤ index)
    (hfuel : index < i + fuel) : getBmtIndexFrom bmtTbl fuel i = index := by
  induction fuel generalizing i with
  | zero => omega
  | succ fuel ih =>
    unfold getBmtIndexFrom
    rw [if_neg (hblock i hi)]
    rcases Nat.lt_or_eq_of_le hi with hlt | rfl
    · rw [if_neg (hbefore i hlt)]
      exact ih hlt (by omega)
    · rw [if_pos hindex]

variable {d : Desc}

theorem Listed.tableBlock_ne_zero (h : Listed c d) : d.tableBlock ≠ 0 := by
  have := h.low
  have := c.poolLba_pos
  omega

theorem Listed.getBmtIndex_eq (h : Listed c d) : getBmtIndex d.bbt.bmtTbl = d.bmtBlkIdx := by
  refine getBmtIndexFrom_eq h.index_use (fun k hk => ?_) h.before_use (Nat.zero_le _) ?_
  · rcases Nat.lt_or_eq_of_le hk with hlt | rfl
    · exact (h.before_block k hlt).1
    · exact h.tableBlock_ne_zero
  · have := h.index_lt
    omega

/-- Searching from above passes the blocks that hold no table and stops at the
table's. -/
theorem Settled.findTable_eq {s : σ} (h : Settled c nand d s) {count : ℕ}
    (hlow : d.tableBlock < c.poolLba + count) (hhigh : c.poolLba + count ≤ c.totalBlks) :
    findTable c nand s count = some (d.bbt, d.bmtBlkIdx) := by
  induction count with
  | zero =>
    have := h.listed.low
    omega
  | succ count ih =>
    unfold findTable
    by_cases hlt : d.tableBlock < c.poolLba + count
    · have hskip := ih hlt (by omega)
      cases hread : nand.read s (c.poolLba + count) c.bmtPgs with
      | none => exact hskip
      | some readout =>
        dsimp only
        rw [h.above _ hlt (by omega) readout hread]
        exact hskip
    · have heq : c.poolLba + count = d.tableBlock := by omega
      obtain ⟨fdm, hread, hvalid⟩ := h.stored
      rw [heq, hread]
      dsimp only
      rw [if_pos hvalid, h.listed.getBmtIndex_eq, if_neg (Nat.ne_of_gt h.listed.index_pos)]

theorem Settled.mtkBmtInitV2_eq {s : σ} (h : Settled c nand d s) (old : Bbbt) :
    mtkBmtInitV2 c nand old s =
      some ({ bbt := d.bbt, poolPba := 0, bmtBlkIdx := d.bmtBlkIdx }, s) := by
  have hpool := c.pool_le
  have hhigh := h.listed.high
  have hall : c.poolLba + c.bmtPoolSize = c.totalBlks := by
    unfold Config.poolLba
    omega
  unfold mtkBmtInitV2
  rw [h.findTable_eq (by rw [hall]; exact hhigh) hall.le]

/-! ## Keeping it -/

def FirstTry (nand : Nand σ Bbbt Page) (d : Desc) (s : σ) : Prop :=
  (nand.erase s d.tableBlock).1 = true ∧
    (nand.writeTable (nand.erase s d.tableBlock).2 d.tableBlock oobSignature d.bbt.sign).1 = true

theorem upload_eq_of_firstTry {s : σ} (huse : d.poolUse d.bmtBlkIdx ≠ .normalMapped)
    (hfirst : FirstTry nand d s) :
    upload nand d s = ({ d with bbt := d.bbt.sign },
      (nand.writeTable (nand.erase s d.tableBlock).2 d.tableBlock oobSignature d.bbt.sign).2) := by
  have hnormal : (d.bbt.bmtTbl d.bmtBlkIdx).mapped ≠ .normalMapped := huse
  have herase : nand.erase s (d.bbt.bmtTbl d.bmtBlkIdx).block =
      (true, (nand.erase s d.tableBlock).2) := Prod.ext hfirst.1 rfl
  have hwrite : nand.writeTable (nand.erase s d.tableBlock).2 (d.bbt.bmtTbl d.bmtBlkIdx).block
      oobSignature d.bbt.sign = (true, (nand.writeTable (nand.erase s d.tableBlock).2
        d.tableBlock oobSignature d.bbt.sign).2) := Prod.ext hfirst.2 rfl
  unfold upload uploadBmt uploadFrom
  rw [if_neg hnormal, herase]
  dsimp only
  rw [hwrite]

theorem ClearAbove.of_sameBlock {block : ℕ} {s t : σ} (h : ClearAbove c nand block s)
    (hsame : ∀ other, block < other → nand.SameBlock s t other) : ClearAbove c nand block t := by
  intro other habove hother readout hread
  rw [(hsame other habove).1] at hread
  exact h other habove hother readout hread

/-- An upload that succeeds at the first try leaves the flash settled. -/
theorem settled_upload (hlocal : nand.Local) (hkeeps : Keeps c nand) {s : σ} (hlisted : Listed c d)
    (habove : ClearAbove c nand d.tableBlock s) (hfirst : FirstTry nand d s) :
    Settled c nand (upload nand d s).1 (upload nand d s).2 := by
  rw [upload_eq_of_firstTry (by simp [hlisted.index_use]) hfirst]
  refine ⟨⟨hlisted.index_pos, hlisted.index_lt, hlisted.index_use, hlisted.before_block,
    hlisted.before_use, hlisted.low, hlisted.high⟩, ?_, ?_⟩
  · refine habove.of_sameBlock fun other hother => ?_
    exact (hlocal.erase (Nat.ne_of_gt hother)).trans (hlocal.writeTable (Nat.ne_of_gt hother))
  · obtain ⟨marker, hread⟩ := hkeeps (Prod.ext hfirst.1 rfl) (Prod.ext hfirst.2 rfl)
    exact ⟨marker :: oobSignature, hread, by simp [isValidBmt, Bbbt.sign, oobSignature]⟩

/-- The scan lists the pool as a boot expects it. -/
theorem ScanResult.listed {isBad : ℕ → Bool} (h : ScanResult c isBad d) (hpos : 0 < d.bmtBlkIdx) :
    Listed c d where
  index_pos := hpos
  index_lt := by
    have := h.index_lt
    have := c.total_lt
    omega
  index_use := h.table
  before_block k hk := by
    refine ⟨?_, h.mono k _ hk le_rfl⟩
    have := h.low k hk.le
    have := h.poolPba
    omega
  before_use k hk := by simp [h.free k hk]
  low := h.poolLba_le_poolPba.trans (h.low _ le_rfl)
  high := h.high _ le_rfl

theorem Listed.assign (h : Listed c d) (block : ℕ) {k : ℕ} (hk : k < d.bmtBlkIdx) :
    Listed c (d.assign block k) := by
  have htable : (d.assign block k).tableBlock = d.tableBlock := d.assign_poolBlock block k _
  refine ⟨h.index_pos, h.index_lt, ?_, fun l hl => ?_, fun l hl => ?_, ?_, ?_⟩
  · change (d.assign block k).poolUse d.bmtBlkIdx = _
    rw [d.assign_poolUse_of_ne block (Nat.ne_of_gt hk)]
    exact h.index_use
  · rw [d.assign_poolBlock, htable]
    exact h.before_block l hl
  · by_cases hlk : l = k
    · simp [hlk, d.assign_poolUse_self block k]
    · rw [d.assign_poolUse_of_ne block hlk]
      exact h.before_use l hl
  · rw [htable]
    exact h.low
  · rw [htable]
    exact h.high

theorem Listed.restore (h : Listed c d) (block : ℕ) : Listed c (d.restore block) :=
  ⟨h.index_pos, h.index_lt, h.index_use, h.before_block, h.before_use, h.low, h.high⟩

theorem sameBlock_prepareSpare (hlocal : nand.Local) {newBlock mappedBlock copyLen other : ℕ}
    (hne : other ≠ newBlock) (s : σ) :
    nand.SameBlock s (prepareSpare c nand newBlock mappedBlock copyLen s) other := by
  unfold prepareSpare
  dsimp only
  split
  case isTrue => exact (hlocal.erase hne).trans (hlocal.bbtNandCopy hne _)
  case isFalse => exact hlocal.erase hne

end Boot

/-! ## Runs -/

/-- The flash, and the driver's memory while it runs. -/
structure Machine (σ : Type) where
  desc : Option Desc
  dev : σ

/-- What happens to a machine. -/
inductive Event
  | /-- Power goes and comes back; the driver gets a new buffer. -/
    boot (buffer : Bbbt)
  | /-- A call to the running driver. -/
    call (call : Call)

section Run

variable {σ Page : Type} (c : Config) (nand : Nand σ Bbbt Page)

/-- One call to the driver, for a logical block. -/
def Desc.next (d : Desc) (s : σ) : Call → Option (Desc × σ)
  | .remap block copyLen =>
    if block < c.poolLba then
      some (remapBlockV2 c nand block (d.bbt.bbTbl block) copyLen d s).2
    else none
  | .unmap block => if block < c.poolLba then some (unmapBlockV2 nand block d s) else none

/-- One event; a boot that fails ends the run. -/
def Machine.next (m : Machine σ) : Event → Option (Machine σ)
  | .boot buffer => (mtkBmtInitV2 c nand buffer m.dev).map fun (d, s) => ⟨some d, s⟩
  | .call call => do
      let (d, s) ← (← m.desc).next c nand m.dev call
      some ⟨some d, s⟩

/-- Every sequence of boots and calls, from any flash. -/
def bootSystem : System (Machine σ) Event :=
  .ofFn (fun m => m.desc = none) (Machine.next c nand)

/-- The first boot finds a settled table, or builds one with a free entry below
it, no table above it, and the block taking it at the first try. -/
def SoundBoot (buffer : Bbbt) (s : σ) : Prop :=
  match findTable c nand s c.bmtPoolSize with
  | some (bbt, index) => Settled c nand ⟨bbt, 0, index⟩ s
  | none => ∀ scanned, scanBadBlocks c (blockBad nand s) (emptyBbt buffer) = some scanned →
      0 < scanned.bmtBlkIdx ∧ ClearAbove c nand scanned.tableBlock s ∧ FirstTry nand scanned s

/-- The block of the table takes the table of each call at the first try. -/
def SteadyCall (d : Desc) (s : σ) : Call → Prop
  | .remap block copyLen => ∀ k, findValidBlockInPool d = some k →
      FirstTry nand (d.assign block k)
        (prepareSpare c nand (d.poolBlock k) (d.bbt.bbTbl block) copyLen s)
  | .unmap block => FirstTry nand (d.restore block) s

/-- The first boot is sound and the calls are steady; later boots may come at any
time. -/
def Machine.Steady (m : Machine σ) : Event → Prop
  | .boot buffer => m.desc = none → SoundBoot c nand buffer m.dev
  | .call call => ∀ d, m.desc = some d → SteadyCall c nand d m.dev call

/-- A boot from this flash, whatever its buffer holds, gets back the tables and
the index of the memory. -/
def Recovers (d : Desc) (s : σ) : Prop :=
  ∀ buffer, ∃ d', mtkBmtInitV2 c nand buffer s = some (d', s) ∧
    d'.bbt.bbTbl = d.bbt.bbTbl ∧ d'.bbt.bmtTbl = d.bbt.bmtTbl ∧ d'.bmtBlkIdx = d.bmtBlkIdx

variable {c nand}

theorem Settled.recovers {d : Desc} {s : σ} (h : Settled c nand d s) : Recovers c nand d s :=
  fun buffer => ⟨_, h.mtkBmtInitV2_eq buffer, rfl, rfl, rfl⟩

/-- A sound boot leaves the flash settled. -/
theorem settled_of_soundBoot (hlocal : nand.Local) (hkeeps : Keeps c nand) {buffer : Bbbt}
    {s t : σ} {d : Desc} (hsound : SoundBoot c nand buffer s)
    (h : mtkBmtInitV2 c nand buffer s = some (d, t)) : Settled c nand d t := by
  unfold SoundBoot at hsound
  unfold mtkBmtInitV2 at h
  cases hfind : findTable c nand s c.bmtPoolSize with
  | some found =>
    rw [hfind] at hsound h
    cases h
    exact hsound
  | none =>
    rw [hfind] at hsound h
    dsimp only at hsound h
    unfold initFresh at h
    split at h
    case isTrue => cases h
    case isFalse =>
      cases hscan : scanBadBlocks c (blockBad nand s) (emptyBbt buffer) with
      | none =>
        rw [hscan] at h
        cases h
      | some scanned =>
        rw [hscan] at h
        dsimp only at h
        split at h
        case isTrue => cases h
        case isFalse =>
          cases h
          obtain ⟨hpos, habove, hfirst⟩ := hsound scanned hscan
          exact settled_upload hlocal hkeeps
            ((scanBadBlocks_spec (fun _ => rfl) hscan).listed hpos) habove hfirst

theorem Settled.next (hlocal : nand.Local) (hkeeps : Keeps c nand) {d d' : Desc} {s s' : σ}
    {call : Call} (h : Settled c nand d s) (hsteady : SteadyCall c nand d s call)
    (hnext : d.next c nand s call = some (d', s')) : Settled c nand d' s' := by
  cases call with
  | remap block copyLen =>
    simp only [Desc.next] at hnext
    split at hnext
    case isFalse => cases hnext
    case isTrue =>
      unfold remapBlockV2 at hnext
      cases hfind : findValidBlockInPool d with
      | none =>
        rw [hfind] at hnext
        cases hnext
        exact h
      | some k =>
        rw [hfind] at hnext
        cases hnext
        obtain ⟨hk, -, -⟩ := findValidBlockInPool_spec hfind
        refine settled_upload hlocal hkeeps (h.listed.assign block hk) ?_ (hsteady k hfind)
        -- the spare is below the table
        have hbelow := (h.listed.before_block k hk).2
        have htable : (d.assign block k).tableBlock = d.tableBlock :=
          d.assign_poolBlock block k _
        rw [htable]
        exact h.above.of_sameBlock fun other hother =>
          sameBlock_prepareSpare hlocal (by omega) s
  | unmap block =>
    simp only [Desc.next] at hnext
    split at hnext
    case isFalse => cases hnext
    case isTrue =>
      cases hnext
      exact settled_upload hlocal hkeeps (h.listed.restore block) h.above hsteady

end Run

/-! ## A table that has to move -/

section Moved

/-- A small flash whose pool has three blocks. -/
def movedConfig : Config where
  totalBlks := 8
  blkPages := 4
  pgSize := 512
  bmtPoolSize := 4
  tableSize := 8
  pool_le := by decide
  total_lt := by decide

/-- The tables of the blocks, and the number of table writes so far. -/
structure Cells where
  table : ℕ → Option (List UInt8 × Bbbt)
  writes : ℕ

/-- A flash on which the table writes with the given numbers fail. -/
def cellsNand (fails : ℕ → Bool) : Nand Cells Bbbt Unit where
  read s block _ :=
    match s.table block with
    | none => some ⟨⟨[], 0xff, fun _ => 0xffff, fun _ => ⟨0xffff, .other 0xffff⟩⟩,
        [0xff, 0xff, 0xff, 0xff]⟩
    | some (sig, table) => some ⟨table, 0xff :: sig⟩
  readPage _ _ _ := some ()
  erase s block := (true, { s with table := Function.update s.table block none })
  writeTable s block sig table :=
    if fails s.writes then (false, { s with writes := s.writes + 1 })
    else (true, ⟨Function.update s.table block (some (sig, table)), s.writes + 1⟩)
  writePage s _ _ _ := (true, s)

theorem cellsNand_local (fails : ℕ → Bool) : (cellsNand fails).Local where
  erase h := by
    constructor <;> intros <;> simp [cellsNand, Function.update_of_ne h]
  writeTable {s block other sig table} h := by
    constructor
    · intro pages
      by_cases hfails : fails s.writes = true
      · simp [cellsNand, hfails]
      · simp [cellsNand, hfails, Function.update_of_ne h]
    · intros
      rfl
  writePage _ := ⟨fun _ => rfl, fun _ => rfl⟩

theorem cellsNand_keeps (fails : ℕ → Bool) : Keeps movedConfig (cellsNand fails) := by
  intro s t u block sig table _ hwrite
  simp only [cellsNand] at hwrite
  split at hwrite
  case isTrue => simp at hwrite
  case isFalse =>
    cases hwrite
    exact ⟨0xff, by simp [cellsNand]⟩

def erasedMachine : Machine Cells := ⟨none, ⟨fun _ => none, 0⟩⟩

/-- The run of these events from an erased flash. -/
def cellsRun (fails : ℕ → Bool) (events : List Event) : Option (Machine Cells) :=
  events.foldlM (Machine.next movedConfig (cellsNand fails)) erasedMachine

end Moved

end OpenWrt.MtkBmt.V2
