/-
# The setup and the end of its buffer

The setup of the version 2 table clears `table_size` entries of four bytes behind the
`table_size` numbers of two bytes, in an allocation for the entries alone. It stays inside
the allocation when the rounding to pages makes up for the numbers, or when it does not
get that far. What else it accesses behind the numbers is decided by the flash: how many
good blocks the pool has, whether one of them takes the table, and where the list in a
table that is found ends.
-/

import Mathlib.Data.List.GetD
import Mathlib.Tactic.IntervalCases
import OpenWrt.MtkBmt.V2
import OpenWrt.MtkBmt.V2Buffer

namespace OpenWrt.MtkBmt.V2.Buffer

open OpenWrt.Lib

/-! ## Staying inside -/

universe u

/-- A computation does not leave the allocation. -/
def Inside {α : Type u} (x : Except Stop α) : Prop := Avoids (· = .outside) (fun _ => True) x

section Inside

variable {α β : Type}

theorem inside_ok (a : α) : Inside (.ok a) := trivial

theorem inside_error_iff {e : Stop} : Inside (.error e : Except Stop α) ↔ e ≠ .outside := Iff.rfl

theorem not_inside : ¬ Inside (.error .outside : Except Stop α) := fun h => h rfl

variable {c : Setup} {buf : Bytes} {off len value : ℕ}

theorem touch_of_le (h : off + len ≤ c.bufsz) : touch c off len = .ok () := if_pos (.inr h)

theorem load16_of_le (h : off + 2 ≤ c.bufsz) : load16 c buf off = .ok (get16 buf off) := by
  rw [load16, touch_of_le h]
  rfl

theorem store16_of_le (h : off + 2 ≤ c.bufsz) :
    store16 c buf off value = .ok (put16 buf off value) := by
  rw [store16, touch_of_le h]
  rfl

theorem touch_of_lt (hlen : len ≠ 0) (h : c.bufsz < off + len) :
    touch c off len = .error .outside := if_neg fun h' => by omega

theorem load16_of_lt (h : c.bufsz < off + 2) : load16 c buf off = .error .outside := by
  rw [load16, touch_of_lt (by decide) h]
  rfl

theorem store16_of_lt (h : c.bufsz < off + 2) : store16 c buf off value = .error .outside := by
  rw [store16, touch_of_lt (by decide) h]
  rfl

theorem ok_bind (a : α) (f : α → Except Stop β) : (Except.ok a >>= f) = f a := rfl

theorem error_bind (e : Stop) (f : α → Except Stop β) : (Except.error e >>= f) = .error e := rfl

end Inside

/-! ## Memory -/

section Memory

variable (buf : Bytes) {off off' value : ℕ}

theorem get16_put16 (h : value < 2 ^ 16) : get16 (put16 buf off value) off = value := by
  simp [get16, put16]
  omega

theorem get16_put16_of_apart (h : off' + 2 ≤ off ∨ off + 2 ≤ off') :
    get16 (put16 buf off value) off' = get16 buf off' := by
  unfold get16 put16
  rw [Function.update_of_ne (by omega), Function.update_of_ne (by omega),
    Function.update_of_ne (by omega), Function.update_of_ne (by omega)]

end Memory

/-! ## Good blocks -/

section Good

variable (c : Setup) (flash : Flash)

theorem findValidBlockFrom_zero (block : ℕ) : findValidBlockFrom c flash 0 block =
    if c.total ≤ block then 0 else if flash.isBad block then 0 else block := rfl

theorem findValidBlockFrom_succ (loops block : ℕ) : findValidBlockFrom c flash (loops + 1) block =
    if c.total ≤ block then 0
    else if flash.isBad block then findValidBlockFrom c flash loops (block + 1) else block := rfl

theorem findValidBlockFrom_bounds (loops block : ℕ)
    (h : findValidBlockFrom c flash loops block ≠ 0) :
    block ≤ findValidBlockFrom c flash loops block ∧
      findValidBlockFrom c flash loops block < c.total := by
  induction loops generalizing block with
  | zero =>
    rw [findValidBlockFrom_zero] at h ⊢
    split_ifs at h ⊢ <;> omega
  | succ loops ih =>
    rw [findValidBlockFrom_succ] at h ⊢
    split_ifs at h ⊢ with hend hbad
    · omega
    · have := ih (block + 1) h
      omega
    · omega

theorem findValidBlock_bounds {block : ℕ} (h : findValidBlock c flash block ≠ 0) :
    block ≤ findValidBlock c flash block ∧ findValidBlock c flash block < c.total :=
  findValidBlockFrom_bounds c flash _ _ h

/-- The good blocks from a block on, up to a gap of too many bad ones. -/
def goodFrom (block : ℕ) : List ℕ :=
  if h : findValidBlock c flash block = 0 then []
  else findValidBlock c flash block :: goodFrom (findValidBlock c flash block + 1)
termination_by c.total - block
decreasing_by
  have := findValidBlock_bounds c flash h
  omega

theorem goodFrom_of_eq_zero {block : ℕ} (h : findValidBlock c flash block = 0) :
    goodFrom c flash block = [] := by
  rw [goodFrom, dif_pos h]

theorem goodFrom_of_ne_zero {block : ℕ} (h : findValidBlock c flash block ≠ 0) :
    goodFrom c flash block =
      findValidBlock c flash block :: goodFrom c flash (findValidBlock c flash block + 1) := by
  rw [goodFrom, dif_neg h]

theorem goodFrom_bounds (block : ℕ) :
    ∀ good ∈ goodFrom c flash block, block ≤ good ∧ good < c.total := by
  induction block using goodFrom.induct c flash with
  | case1 block h => simp [goodFrom_of_eq_zero c flash h]
  | case2 block h ih =>
    have hbounds := findValidBlock_bounds c flash h
    rw [goodFrom_of_ne_zero c flash h]
    intro good hgood
    cases List.mem_cons.mp hgood with
    | inl heq => omega
    | inr hmem =>
      have := ih good hmem
      omega

theorem length_goodFrom_le (block : ℕ) : (goodFrom c flash block).length ≤ c.total - block := by
  induction block using goodFrom.induct c flash with
  | case1 block h => simp [goodFrom_of_eq_zero c flash h]
  | case2 block h ih =>
    have hbounds := findValidBlock_bounds c flash h
    rw [goodFrom_of_ne_zero c flash h, List.length_cons]
    omega

theorem goodFrom_drop (n block : ℕ) (hn : n ≤ (goodFrom c flash (block + 1)).length) :
    goodFrom c flash ((block :: goodFrom c flash (block + 1)).getD n 0 + 1) =
      (goodFrom c flash (block + 1)).drop n := by
  induction n generalizing block with
  | zero => rfl
  | succ n ih =>
    by_cases h : findValidBlock c flash (block + 1) = 0
    · simp [goodFrom_of_eq_zero c flash h] at hn
    · rw [goodFrom_of_ne_zero c flash h] at hn ⊢
      exact ih _ (Nat.le_of_succ_le_succ hn)

end Good

/-! ## When the setup stays inside -/

section Conditions

variable (c : Setup) (flash : Flash)

/-- The good blocks behind block 0. -/
def Setup.good : List ℕ := goodFrom c flash 1

/-- The last block that `bb_tbl` maps to. -/
def Setup.lastMapped : ℕ := (0 :: c.good flash).getD (c.poolLba - 1) 0

def Setup.pool : List ℕ := (c.good flash).drop (c.poolLba - 1)

def Flash.Takes (block : ℕ) : Prop := flash.erase block ∧ flash.write block

/-- An empty pool is given the entry before the first one, and that is also read when no block
takes the table. Index -1 is that of the last `u16`. -/
def Setup.PoolInside : Prop :=
  if c.pool flash = [] then c.bmtTbl (2 ^ 16) ≤ c.bufsz
  else c.bmtTbl (c.pool flash).length ≤ c.bufsz ∧
    ((∃ block ∈ c.pool flash, flash.Takes block) ∨
      c.bmtTbl (2 ^ 16 - 1) + 2 ≤ c.bufsz)

/-- A table is built inside the buffer: there are too many blocks to begin, or the entries fit
behind the numbers and the pool is in order, if the scan gets to it. Without a single entry
there are no blocks, and the scan tries one or two. -/
def Setup.FreshInside : Prop :=
  c.TooMany ∨
    (if c.tableSize = 0 then Setup.bbTbl (if c.poolLba ≤ 1 then 1 else 2) ≤ c.bufsz
      else c.bmtTbl c.tableSize ≤ c.bufsz) ∧
    ((c.good flash).length < c.poolLba - 1 ∨ c.total - 2 ≤ c.lastMapped flash + 1 ∨
      c.PoolInside flash)

/-- An entry that does not end the list. -/
def Skipped (buf : Bytes) (i : ℕ) : Prop :=
  c.bmtTbl i + 4 ≤ c.bufsz ∧ get16 buf (c.bmtTbl i) ≠ 0 ∧ get16 buf (c.bmtTbl i + 2) ≠ 2

/-- An entry that ends the list with an index. -/
def EndsWith (buf : Bytes) (i index : ℕ) : Prop :=
  c.bmtTbl i + 2 ≤ c.bufsz ∧ get16 buf (c.bmtTbl i) = 0 ∧ index = 0 ∨
    c.bmtTbl i + 4 ≤ c.bufsz ∧ get16 buf (c.bmtTbl i) ≠ 0 ∧ get16 buf (c.bmtTbl i + 2) = 2 ∧
      index = i % 2 ^ 16

/-- The list from an entry on ends inside the buffer, with an index. -/
def ListedFrom (buf : Bytes) (first index : ℕ) : Prop :=
  ∃ i, first ≤ i ∧ (∀ j, first ≤ j → j < i → Skipped c buf j) ∧ EndsWith c buf i index

def Flash.isRead (block : ℕ) : Bool := (flash.readTable block).1

def Flash.holdsTable (block : ℕ) : Bool :=
  flash.isRead block && validBmt (flash.readTable block).2.1 (flash.readTable block).2.2

/-- The setup stays inside the buffer: there is no memory for it, or there is room for the
header and the list of the first table found ends in it, or a table is built inside it. -/
def Setup.InsideBuffer : Prop :=
  c.kzalloc c.bufsz = false ∨
    (c.bufsz < 4 → ∀ block ∈ c.searched, flash.isRead block = false) ∧
    match c.searched.find? flash.holdsTable with
    | some block =>
      ∃ index, ListedFrom c (flash.readTable block).2.1 0 index ∧
        (index = 0 → c.FreshInside flash)
    | none => c.poolLba = 0 ∨ c.FreshInside flash

end Conditions

/-! ## Finding the table -/

section Find

variable {c : Setup} {flash : Flash} {buf : Bytes}

theorem listedFrom_iff {i index : ℕ} :
    ListedFrom c buf i index ↔
      EndsWith c buf i index ∨ Skipped c buf i ∧ ListedFrom c buf (i + 1) index := by
  constructor
  · rintro ⟨n, hle, hskip, hend⟩
    by_cases h : n = i
    · subst h
      exact .inl hend
    · exact .inr ⟨hskip i (Nat.le_refl i) (by omega), n, by omega,
        fun j hj hjn => hskip j (by omega) hjn, hend⟩
  · rintro (hend | ⟨hskip, n, hle, hrest, hend⟩)
    · exact ⟨i, Nat.le_refl i, fun j hj hji => by omega, hend⟩
    · refine ⟨n, by omega, fun j hj hjn => ?_, hend⟩
      by_cases h : j = i
      · exact h ▸ hskip
      · exact hrest j (by omega) hjn

theorem EndsWith.not_skipped {i index : ℕ} (hend : EndsWith c buf i index) : ¬ Skipped c buf i := by
  rintro ⟨_, hblock, hmark⟩
  obtain ⟨_, h, _⟩ | ⟨_, _, h, _⟩ := hend
  · exact hblock h
  · exact hmark h

theorem ListedFrom.unique {i index index' : ℕ} (h : ListedFrom c buf i index)
    (h' : ListedFrom c buf i index') : index = index' := by
  obtain ⟨n, hle, hskip, hend⟩ := h
  obtain ⟨n', hle', hskip', hend'⟩ := h'
  have hn : n = n' := by
    by_contra hne
    cases Nat.lt_or_gt_of_ne hne with
    | inl hlt => exact hend.not_skipped (hskip' n hle hlt)
    | inr hlt => exact hend'.not_skipped (hskip n' hle' hlt)
  subst hn
  obtain ⟨_, h₁, h₂⟩ | ⟨_, h₁, _, h₂⟩ := hend <;> obtain ⟨_, h₃, h₄⟩ | ⟨_, h₃, _, h₄⟩ := hend'
  · exact h₂.trans h₄.symm
  · exact absurd h₁ h₃
  · exact absurd h₃ h₁
  · exact h₂.trans h₄.symm

/-- `get_bmt_index` returns the index the list ends with, if it ends inside the buffer, and
leaves the buffer otherwise. -/
theorem getBmtIndexFrom_spec {fuel i : ℕ} (hfuel : c.bufsz < c.bmtTbl (i + fuel) + 2) :
    (∃ index, getBmtIndexFrom c buf fuel i = .ok index ∧ ListedFrom c buf i index) ∨
      (getBmtIndexFrom c buf fuel i = .error .outside ∧ ∀ index, ¬ ListedFrom c buf i index) := by
  induction fuel generalizing i with
  | zero =>
    right
    refine ⟨rfl, fun index ⟨n, hle, _, hend⟩ => ?_⟩
    unfold EndsWith at hend
    simp only [Setup.bmtTbl] at hfuel hend
    omega
  | succ fuel ih =>
    unfold getBmtIndexFrom
    by_cases hblock : c.bmtTbl i + 2 ≤ c.bufsz
    · rw [load16_of_le hblock, ok_bind]
      by_cases hzero : get16 buf (c.bmtTbl i) = 0
      · left
        rw [if_pos hzero]
        exact ⟨0, rfl, listedFrom_iff.mpr (.inl (.inl ⟨hblock, hzero, rfl⟩))⟩
      rw [if_neg hzero]
      by_cases hmapped : c.bmtTbl i + 4 ≤ c.bufsz
      · rw [load16_of_le hmapped, ok_bind]
        by_cases hmark : get16 buf (c.bmtTbl i + 2) = 2
        · left
          rw [if_pos hmark]
          exact ⟨_, rfl, listedFrom_iff.mpr (.inl (.inr ⟨hmapped, hzero, hmark, rfl⟩))⟩
        · rw [if_neg hmark]
          have hskip : Skipped c buf i := ⟨hmapped, hzero, hmark⟩
          have hnext : c.bufsz < c.bmtTbl (i + 1 + fuel) + 2 := by
            simp only [Setup.bmtTbl] at hfuel ⊢
            omega
          obtain ⟨index, hok, hlist⟩ | ⟨hout, hnone⟩ := ih hnext
          · exact .inl ⟨index, hok, listedFrom_iff.mpr (.inr ⟨hskip, hlist⟩)⟩
          · refine .inr ⟨hout, fun index hlist => ?_⟩
            obtain (⟨_, h, _⟩ | ⟨_, _, h, _⟩) | ⟨_, hrest⟩ := listedFrom_iff.mp hlist
            · exact hzero h
            · exact hmark h
            · exact hnone index hrest
      · right
        rw [load16_of_lt (by omega)]
        refine ⟨rfl, fun index hlist => ?_⟩
        obtain (⟨_, h, _⟩ | ⟨h, _⟩) | ⟨⟨h, _⟩, _⟩ := listedFrom_iff.mp hlist
        · exact hzero h
        · exact hmapped h
        · exact hmapped h
    · right
      rw [load16_of_lt (by omega)]
      refine ⟨rfl, fun index hlist => ?_⟩
      obtain (⟨h, _⟩ | ⟨h, _⟩) | ⟨⟨h, _⟩, _⟩ := listedFrom_iff.mp hlist <;> omega

theorem getBmtIndex_spec (c : Setup) (buf : Bytes) :
    (∃ index, getBmtIndex c buf = .ok index ∧ ListedFrom c buf 0 index) ∨
      (getBmtIndex c buf = .error .outside ∧ ∀ index, ¬ ListedFrom c buf 0 index) :=
  getBmtIndexFrom_spec (by simp only [Setup.bmtTbl]; omega)

theorem isValidBmt_eq (h : 4 ≤ c.bufsz) (buf : Bytes) (fdm : List UInt8) :
    isValidBmt c buf fdm = .ok (validBmt buf fdm) := by
  unfold isValidBmt validBmt
  rw [touch_of_le (by omega), ok_bind]
  split
  next hsig =>
    rw [touch_of_le (by omega), ok_bind]
    simp only [hsig, true_and]
    rfl
  next hsig =>
    have hnot : ¬ ((List.range 3).map buf = [0x42, 0x4d, 0x54] ∧
        (fdm.drop 1).take 3 = [0x62, 0x6d, 0x74] ∧ buf 3 = 2) := fun h => hsig ⟨h.1, h.2.1⟩
    rw [decide_eq_false hnot]
    rfl

theorem touch_bufsz : touch c 0 c.bufsz = .ok () := if_pos (.inr (by omega))

/-- The search ends at the first block with a table. -/
theorem findTable_of_some (hheader : 4 ≤ c.bufsz) {blocks : List ℕ} {block : ℕ}
    (hfind : blocks.find? flash.holdsTable = some block) (buf : Bytes) :
    findTable c flash blocks buf =
      (getBmtIndex c (flash.readTable block).2.1 >>= fun index =>
        .ok (if index = 0 then none else some index, (flash.readTable block).2.1)) := by
  induction blocks generalizing buf with
  | nil => cases hfind
  | cons head blocks ih =>
    rw [findTable, touch_bufsz, ok_bind]
    by_cases hholds : flash.holdsTable head = true
    · rw [List.find?_cons_of_pos hholds] at hfind
      cases hfind
      obtain ⟨hread, hvalid⟩ := Bool.and_eq_true_iff.mp hholds
      simp only [Flash.isRead] at hread
      simp only [hread, if_true, isValidBmt_eq hheader, hvalid, ok_bind]
      congr 1
      funext index
      split <;> rfl
    · rw [List.find?_cons_of_neg hholds] at hfind
      by_cases hread : (flash.readTable head).1 = true
      · have hvalid : validBmt (flash.readTable head).2.1 (flash.readTable head).2.2 = false := by
          simpa [Flash.holdsTable, Flash.isRead, hread] using hholds
        simp only [hread, if_true, isValidBmt_eq hheader, hvalid, ok_bind]
        exact ih hfind _
      · simp only [hread]
        exact ih hfind _

/-- Without a block with a table the search ends with the last block, or never. -/
theorem findTable_of_none {blocks : List ℕ}
    (hheader : c.bufsz < 4 → ∀ block ∈ blocks, flash.isRead block = false)
    (hfind : blocks.find? flash.holdsTable = none) (buf : Bytes) :
    ∃ buf', findTable c flash blocks buf =
      if c.poolLba = 0 then .error .hang else .ok (none, buf') := by
  induction blocks generalizing buf with
  | nil => exact ⟨buf, rfl⟩
  | cons head blocks ih =>
    have hholds : ¬ flash.holdsTable head = true :=
      List.find?_eq_none.mp hfind head List.mem_cons_self
    rw [List.find?_cons_of_neg hholds] at hfind
    have hrest := ih (fun h block hmem => hheader h block (List.mem_cons_of_mem _ hmem)) hfind
    rw [findTable, touch_bufsz, ok_bind]
    by_cases hread : (flash.readTable head).1 = true
    · have hroom : 4 ≤ c.bufsz := by
        by_contra h
        have hnot := hheader (by omega) head List.mem_cons_self
        exact absurd (hread.symm.trans hnot) (by decide)
      have hvalid : validBmt (flash.readTable head).2.1 (flash.readTable head).2.2 = false := by
        simpa [Flash.holdsTable, Flash.isRead, hread] using hholds
      simp only [hread, if_true, isValidBmt_eq hroom, hvalid, ok_bind]
      exact hrest _
    · simp only [hread]
      exact hrest _

theorem bufsz_mod_four (c : Setup) : c.bufsz % 4 = 0 := by
  have hlow : ((4 + c.tableSize * 4 - 1) ||| ((c.pgSize.toNat + 2 ^ 32 - 1) % 2 ^ 32)) % 2 ^ 2 = 3 := by
    rw [Nat.or_mod_two_pow]
    have h3 : (4 + c.tableSize * 4 - 1) % 2 ^ 2 = 3 := by omega
    rw [h3]
    have hlt : (c.pgSize.toNat + 2 ^ 32 - 1) % 2 ^ 32 % 2 ^ 2 < 4 := Nat.mod_lt _ (by decide)
    generalize (c.pgSize.toNat + 2 ^ 32 - 1) % 2 ^ 32 % 2 ^ 2 = low at hlt ⊢
    interval_cases low <;> rfl
  unfold Setup.bufsz
  omega

/-- Without room for the header the first block that can be read takes the search out of the
buffer. -/
theorem findTable_of_small (hsmall : c.bufsz < 4) {blocks : List ℕ}
    (hread : ∃ block ∈ blocks, flash.isRead block = true) (buf : Bytes) :
    findTable c flash blocks buf = .error .outside := by
  have hzero : c.bufsz = 0 := by
    have := bufsz_mod_four c
    omega
  induction blocks generalizing buf with
  | nil => obtain ⟨_, hmem, _⟩ := hread; cases hmem
  | cons head blocks ih =>
    rw [findTable, touch_bufsz, ok_bind]
    by_cases hhead : (flash.readTable head).1 = true
    · have hout : isValidBmt c (flash.readTable head).2.1 (flash.readTable head).2.2 =
          .error .outside := by
        rw [isValidBmt, touch_of_lt (by decide) (by omega)]
        rfl
      simp only [hhead, if_true, hout, error_bind]
    · simp only [hhead]
      apply ih
      obtain ⟨block, hmem, hblock⟩ := hread
      cases List.mem_cons.mp hmem with
      | inl heq => exact absurd (heq ▸ hblock) hhead
      | inr hmem => exact ⟨block, hmem, hblock⟩

end Find

/-! ## Building the table -/

section Scan

variable {c : Setup} (flash : Flash)

theorem total_lt (c : Setup) : c.total < 2 ^ 16 := c.totalBlks.toNat_lt

/-- The scan maps the logical blocks to the good blocks in order, and fails where they end. -/
theorem scanData_spec (hroom : Setup.bbTbl (c.total + 2) ≤ c.bufsz) (n : ℕ) {i block : ℕ}
    {buf : Bytes} (hi : i ≤ block) (hblock : block = 0 ∨ block < c.total)
    (hbuf : get16 buf (Setup.bbTbl i) = block) :
    (n ≤ (goodFrom c flash (block + 1)).length → ∃ buf',
      (List.range' (i + 1) n).foldlM (scanStep c flash) buf = .ok buf' ∧
        get16 buf' (Setup.bbTbl (i + n)) =
          (block :: goodFrom c flash (block + 1)).getD n 0) ∧
    ((goodFrom c flash (block + 1)).length < n →
      (List.range' (i + 1) n).foldlM (scanStep c flash) buf = .error .fail) := by
  induction n generalizing i block buf with
  | zero => exact ⟨fun _ => ⟨buf, rfl, hbuf⟩, fun h => absurd h (Nat.not_lt_zero _)⟩
  | succ n ih =>
    have htotal := total_lt c
    simp only [Setup.bbTbl] at hroom hbuf
    have hstep : scanStep c flash buf (i + 1) =
        if findValidBlock c flash (block + 1) = 0 then .error .fail
        else .ok (put16 buf (Setup.bbTbl (i + 1)) (findValidBlock c flash (block + 1))) := by
      have hlt : findValidBlock c flash (block + 1) < 2 ^ 16 := by
        by_cases h : findValidBlock c flash (block + 1) = 0
        · omega
        · have := findValidBlock_bounds c flash h
          omega
      have hmod : (block + 1) % 2 ^ 16 = block + 1 := Nat.mod_eq_of_lt (by omega)
      unfold scanStep
      rw [Nat.add_sub_cancel, load16_of_le (by simp only [Setup.bbTbl]; omega), ok_bind,
        store16_of_le (by simp only [Setup.bbTbl]; omega), ok_bind,
        load16_of_le (by simp only [Setup.bbTbl]; omega), ok_bind]
      simp only [Setup.bbTbl, hbuf, hmod, get16_put16 _ hlt]
      rfl
    rw [List.range'_succ, List.foldlM_cons, hstep]
    by_cases h : findValidBlock c flash (block + 1) = 0
    · rw [goodFrom_of_eq_zero c flash h, if_pos h]
      exact ⟨fun hn => absurd hn (Nat.not_succ_le_zero n), fun _ => rfl⟩
    · have hbounds := findValidBlock_bounds c flash h
      rw [goodFrom_of_ne_zero c flash h, if_neg h, ok_bind]
      have hnext := @ih (i + 1) (findValidBlock c flash (block + 1))
        (put16 buf (Setup.bbTbl (i + 1)) (findValidBlock c flash (block + 1)))
        (by omega) (.inr hbounds.2) (get16_put16 buf (by omega))
      rw [Nat.add_right_comm i 1 n] at hnext
      exact ⟨fun hn => hnext.1 (Nat.le_of_succ_le_succ hn),
        fun hn => hnext.2 (Nat.lt_of_succ_lt_succ hn)⟩

/-- The entries up to a count list the blocks, and none of them is a spare in use. -/
def Listed (c : Setup) (buf : Bytes) (blocks : List ℕ) (first count : ℕ) : Prop :=
  ∀ k < count, get16 buf (c.bmtTbl (first + k)) = blocks.getD k 0 ∧
    get16 buf (c.bmtTbl (first + k) + 2) ≠ 1

/-- The scan of the pool lists its good blocks, as long as there is room. -/
theorem scanPool_spec (fuel : ℕ) {block : ℕ} (i : ℕ) (buf : Bytes)
    (hfuel : (goodFrom c flash block).length < fuel) :
    (goodFrom c flash block = [] ∨ c.bmtTbl (i + (goodFrom c flash block).length) ≤ c.bufsz →
      ∃ buf', scanPool c flash fuel block i buf =
          .ok (buf', i + (goodFrom c flash block).length) ∧
        Listed c buf' (goodFrom c flash block) i (goodFrom c flash block).length ∧
        ∀ off, off + 2 ≤ c.bmtTbl i → get16 buf' off = get16 buf off) ∧
    (goodFrom c flash block ≠ [] → c.bufsz < c.bmtTbl (i + (goodFrom c flash block).length) →
      scanPool c flash fuel block i buf = .error .outside) := by
  induction fuel generalizing block i buf with
  | zero => exact absurd hfuel (Nat.not_lt_zero _)
  | succ fuel ih =>
    have htotal := total_lt c
    unfold scanPool
    by_cases h : findValidBlock c flash block = 0
    · rw [goodFrom_of_eq_zero c flash h]
      simp only [h, if_true]
      exact ⟨fun _ => ⟨buf, rfl, fun k hk => absurd hk (Nat.not_lt_zero k), fun _ _ => rfl⟩,
        fun hne => absurd rfl hne⟩
    have hbounds := findValidBlock_bounds c flash h
    rw [goodFrom_of_ne_zero c flash h] at hfuel ⊢
    simp only [h, if_false, List.length_cons] at hfuel ⊢
    obtain ⟨hroom, hout⟩ := @ih (findValidBlock c flash block + 1) (i + 1)
      (put16 (put16 buf (c.bmtTbl i) (findValidBlock c flash block)) (c.bmtTbl i + 2) 0)
      (Nat.lt_of_succ_lt_succ hfuel)
    generalize goodFrom c flash (findValidBlock c flash block + 1) = rest at hroom hout ⊢
    have hnext : c.bmtTbl (i + 1) = c.bmtTbl i + 4 := by
      simp only [Setup.bmtTbl]
      omega
    have hend : c.bmtTbl (i + (rest.length + 1)) = c.bmtTbl (i + 1) + 4 * rest.length := by
      simp only [Setup.bmtTbl]
      omega
    rw [Nat.add_comm rest.length 1, ← Nat.add_assoc] at hend ⊢
    constructor
    · rintro (hnil | hle)
      · cases hnil
      · rw [store16_of_le (by omega), ok_bind, store16_of_le (by omega), ok_bind]
        obtain ⟨buf', hok, hlist, hsame⟩ := hroom (.inr hle)
        refine ⟨buf', hok, fun k hk => ?_, fun off hoff => ?_⟩
        · cases k with
          | zero =>
            rw [Nat.add_zero, hsame _ (by omega), hsame _ (by omega),
              get16_put16_of_apart _ (by omega), get16_put16 _ (by omega),
              get16_put16 _ (by decide)]
            exact ⟨rfl, by decide⟩
          | succ k =>
            have := hlist k (by omega)
            rwa [Nat.add_right_comm] at this
        · rw [hsame off (by omega), get16_put16_of_apart _ (by omega),
            get16_put16_of_apart _ (by omega)]
    · intro _ hlt
      by_cases hfirst : c.bmtTbl i + 2 ≤ c.bufsz
      · rw [store16_of_le hfirst, ok_bind]
        by_cases hsecond : c.bmtTbl i + 4 ≤ c.bufsz
        · rw [store16_of_le hsecond, ok_bind]
          apply hout _ hlt
          rintro rfl
          rw [List.length_nil, Nat.add_zero] at hlt
          omega
        · rw [store16_of_lt (by omega)]
          rfl
      · rw [store16_of_lt (by omega)]
        rfl

theorem sign_eq (hroom : 4 ≤ c.bufsz) (buf : Bytes) :
    ∃ buf', sign c buf = .ok buf' ∧ ∀ off, 4 ≤ off → get16 buf' off = get16 buf off := by
  refine ⟨fun i => [0x42, 0x4d, 0x54, 2].getD i (buf i), ?_, ?_⟩
  · rw [sign, touch_of_le (by omega), ok_bind, touch_of_le (by omega), ok_bind]
    rfl
  · intro off hoff
    have hbyte : ∀ i, 4 ≤ i → [0x42, 0x4d, 0x54, (2 : UInt8)].getD i (buf i) = buf i :=
      fun i hi => List.getD_eq_default _ _ hi
    simp only [get16, hbyte off hoff, hbyte (off + 1) (Nat.le_succ_of_le hoff)]

theorem touch_written (c : Setup) : touch c 0 c.written = .ok () := by
  refine if_pos (.inr ?_)
  rw [Setup.written, Nat.zero_add, Nat.shiftLeft_eq, Nat.shiftRight_eq_div_pow]
  exact Nat.div_mul_le_self _ _

/-- The table goes to an entry below the count, if one of their blocks takes it, and gets index
-1 otherwise. -/
theorem uploadBmt_spec {blocks : List ℕ} (n : ℕ) {buf : Bytes} (hheader : 4 ≤ c.bufsz)
    (hroom : c.bmtTbl n ≤ c.bufsz) (hlist : Listed c buf blocks 0 n) (hn : n ≤ blocks.length) :
    ∃ index buf', uploadBmt c flash n buf = .ok (index, buf') ∧
      ((∃ block ∈ blocks.take n, flash.Takes block) → index < n) ∧
      ((∀ block ∈ blocks.take n, ¬ flash.Takes block) → index = 2 ^ 16 - 1) := by
  induction n generalizing buf with
  | zero =>
    refine ⟨2 ^ 16 - 1, buf, rfl, ?_, fun _ => rfl⟩
    rintro ⟨block, hmem, _⟩
    cases hmem
  | succ n ih =>
    have hnext : c.bmtTbl (n + 1) = c.bmtTbl n + 4 := by
      simp only [Setup.bmtTbl]
      omega
    have hentry : 4 ≤ c.bmtTbl n := by
      simp only [Setup.bmtTbl, Setup.bbTbl]
      omega
    have hmem : ∀ block, block ∈ blocks.take (n + 1) ↔
        block ∈ blocks.take n ∨ block = blocks.getD n 0 := by
      intro block
      rw [List.take_succ_eq_append_getElem (by omega), List.mem_append, List.mem_singleton,
        List.getD_eq_getElem _ _ (by omega)]
    obtain ⟨hblock, hmapped⟩ := hlist n (Nat.lt_succ_self n)
    rw [Nat.zero_add] at hblock hmapped
    -- the entry is lost, and the ones below it are tried
    have hlost : ∀ buf', (∀ off, 4 ≤ off → get16 buf' off = get16 buf off) →
        ¬ flash.Takes (blocks.getD n 0) →
        ∃ index buf'', (store16 c buf' (c.bmtTbl n) 0 >>= uploadBmt c flash n) =
            .ok (index, buf'') ∧
          ((∃ block ∈ blocks.take (n + 1), flash.Takes block) → index < n + 1) ∧
          ((∀ block ∈ blocks.take (n + 1), ¬ flash.Takes block) → index = 2 ^ 16 - 1) := by
      intro buf' hsame hnot
      have hbelow : Listed c (put16 buf' (c.bmtTbl n) 0) blocks 0 n := by
        intro k hk
        have hle : c.bmtTbl (0 + k) + 4 ≤ c.bmtTbl n := by
          simp only [Setup.bmtTbl]
          omega
        have hheaderEntry : 4 ≤ c.bmtTbl (0 + k) := by
          simp only [Setup.bmtTbl, Setup.bbTbl]
          omega
        rw [get16_put16_of_apart _ (by omega), get16_put16_of_apart _ (by omega),
          hsame _ hheaderEntry, hsame _ (by omega)]
        exact hlist k (by omega)
      obtain ⟨index, buf'', hok, htakes, hnone⟩ := ih (by omega) hbelow (by omega)
      refine ⟨index, buf'', ?_, fun ⟨block, hin, hblock⟩ => ?_, fun hall => ?_⟩
      · rw [store16_of_le (by omega), ok_bind, hok]
      · cases (hmem block).mp hin with
        | inl hin => exact Nat.lt_succ_of_lt (htakes ⟨block, hin, hblock⟩)
        | inr heq => exact absurd (heq ▸ hblock) hnot
      · exact hnone fun block hin => hall block ((hmem block).mpr (.inl hin))
    unfold uploadBmt
    rw [load16_of_le (by omega), ok_bind, if_neg hmapped, load16_of_le (by omega), ok_bind, hblock]
    by_cases herase : flash.erase (blocks.getD n 0) = true
    · obtain ⟨buf', hsign, hsame⟩ := sign_eq hheader buf
      rw [if_pos herase, hsign, ok_bind, touch_written, ok_bind]
      by_cases hwrite : flash.write (blocks.getD n 0) = true
      · rw [if_pos hwrite]
        refine ⟨n, buf', rfl, fun _ => Nat.lt_succ_self n, fun hall => ?_⟩
        exact absurd ⟨herase, hwrite⟩ (hall _ ((hmem _).mpr (.inr rfl)))
      · rw [if_neg hwrite]
        exact hlost buf' hsame fun h => hwrite h.2
    · rw [if_neg herase]
      exact hlost buf (fun _ _ => rfl) fun h => herase h.1

theorem lastMapped_lt (c : Setup) (flash : Flash) : c.lastMapped flash = 0 ∨ c.lastMapped flash < c.total := by
  unfold Setup.lastMapped
  by_cases h : c.poolLba - 1 < (0 :: c.good flash).length
  · rw [List.getD_eq_getElem _ _ h]
    cases List.mem_cons.mp (List.getElem_mem h) with
    | inl heq => exact .inl heq
    | inr hmem => exact .inr (goodFrom_bounds c flash 1 _ hmem).2
  · rw [List.getD_eq_default _ _ (by omega)]
    exact .inl rfl

/-- What is left of the scan when the logical blocks are mapped. -/
def scanRest (c : Setup) (flash : Flash) (poolPba : ℕ) (buf : Bytes) : Except Stop (ℕ × Bytes) :=
  if c.total - 2 ≤ poolPba then .error .fail
  else do
    let (buf, i) ← scanPool c flash (c.total + 1) poolPba 0 buf
    let bmtBlkIdx := (i + 2 ^ 16 - 1) % 2 ^ 16
    let buf ← store16 c buf (c.bmtTbl bmtBlkIdx + 2) 2
    if i < 1 then .error .fail else pure (bmtBlkIdx, buf)

/-- The scan fails where the good blocks end before the pool, and goes on to it otherwise. -/
theorem scanBadBlocks_eq (hroom : Setup.bbTbl (c.total + 2) ≤ c.bufsz) (buf : Bytes) :
    ((c.good flash).length < c.poolLba - 1 → scanBadBlocks c flash buf = .error .fail) ∧
    (c.poolLba - 1 ≤ (c.good flash).length →
      ∃ buf', scanBadBlocks c flash buf = scanRest c flash (c.lastMapped flash + 1) buf') := by
  have htotal := total_lt c
  have hfirst : Setup.bbTbl 0 + 2 ≤ c.bufsz := by
    simp only [Setup.bbTbl] at hroom ⊢
    omega
  obtain ⟨hok, hfail⟩ := scanData_spec flash hroom (c.poolLba - 1) (Nat.le_refl 0)
    (.inl rfl) (get16_put16 buf (by decide))
  rw [Nat.zero_add] at hok hfail
  constructor
  · intro hfew
    rw [scanBadBlocks, store16_of_le hfirst, ok_bind, hfail hfew, error_bind]
  · intro hgood
    obtain ⟨buf', hscan, hlast⟩ := hok hgood
    have hlen : (c.good flash).length ≤ c.total - 1 := length_goodFrom_le c flash 1
    have hload : Setup.bbTbl (c.poolLba - 1) + 2 ≤ c.bufsz := by
      simp only [Setup.bbTbl] at hroom ⊢
      omega
    have hmod : (c.lastMapped flash + 1) % 2 ^ 16 = c.lastMapped flash + 1 := by
      have := lastMapped_lt c flash
      exact Nat.mod_eq_of_lt (by omega)
    rw [Nat.zero_add] at hlast
    have hlast' : get16 buf' (Setup.bbTbl (c.poolLba - 1)) = c.lastMapped flash := hlast
    refine ⟨buf', ?_⟩
    rw [scanBadBlocks, store16_of_le hfirst, ok_bind, hscan, ok_bind, load16_of_le hload, ok_bind,
      hlast', hmod]
    rfl

theorem scanBadBlocks_of_few (hroom : Setup.bbTbl (c.total + 2) ≤ c.bufsz)
    (hfew : (c.good flash).length < c.poolLba - 1 ∨ c.total - 2 ≤ c.lastMapped flash + 1)
    (buf : Bytes) : scanBadBlocks c flash buf = .error .fail := by
  obtain ⟨hfail, hgo⟩ := scanBadBlocks_eq flash hroom buf
  by_cases hgood : (c.good flash).length < c.poolLba - 1
  · exact hfail hgood
  · obtain ⟨buf', hrest⟩ := hgo (by omega)
    rw [hrest, scanRest, if_pos (hfew.resolve_left hgood)]

/-- Where there is a pool the scan goes on to list it. -/
theorem scanBadBlocks_of_pool (hroom : Setup.bbTbl (c.total + 2) ≤ c.bufsz)
    (hgood : c.poolLba - 1 ≤ (c.good flash).length)
    (hlast : c.lastMapped flash + 1 < c.total - 2) (buf : Bytes) :
    (c.pool flash = [] → c.bmtTbl (2 ^ 16) ≤ c.bufsz →
      scanBadBlocks c flash buf = .error .fail) ∧
    (c.pool flash = [] → c.bufsz < c.bmtTbl (2 ^ 16) →
      scanBadBlocks c flash buf = .error .outside) ∧
    (c.pool flash ≠ [] → c.bmtTbl (c.pool flash).length ≤ c.bufsz → ∃ buf',
      scanBadBlocks c flash buf = .ok ((c.pool flash).length - 1, buf') ∧
        Listed c buf' (c.pool flash) 0 (c.pool flash).length) ∧
    (c.pool flash ≠ [] → c.bufsz < c.bmtTbl (c.pool flash).length →
      scanBadBlocks c flash buf = .error .outside) := by
  have htotal := total_lt c
  have hlen : (c.good flash).length ≤ c.total - 1 := length_goodFrom_le c flash 1
  have hpoolLen : (c.pool flash).length ≤ c.total - 1 := by
    rw [Setup.pool, List.length_drop]
    omega
  have hpool : goodFrom c flash (c.lastMapped flash + 1) = c.pool flash :=
    goodFrom_drop c flash (c.poolLba - 1) 0 hgood
  obtain ⟨buf', hrest⟩ := (scanBadBlocks_eq flash hroom buf).2 hgood
  rw [hrest, scanRest, if_neg (by omega)]
  obtain ⟨hlisted, hout⟩ := scanPool_spec flash (c.total + 1) 0 buf'
    (show (goodFrom c flash (c.lastMapped flash + 1)).length < c.total + 1 by
      rw [hpool]
      omega)
  rw [hpool, Nat.zero_add] at hlisted hout
  generalize c.pool flash = pool at hlisted hout hpoolLen ⊢
  have hend : c.bmtTbl (2 ^ 16) = c.bmtTbl (2 ^ 16 - 1) + 4 := by
    simp only [Setup.bmtTbl]
    omega
  refine ⟨?_, ?_, ?_, ?_⟩
  · rintro rfl hle
    obtain ⟨buf'', hscan, -⟩ := hlisted (.inl rfl)
    rw [hscan, ok_bind]
    change (store16 c buf'' (c.bmtTbl (2 ^ 16 - 1) + 2) 2 >>= _) = _
    rw [store16_of_le (by omega), ok_bind]
    rfl
  · rintro rfl hlt
    obtain ⟨buf'', hscan, -⟩ := hlisted (.inl rfl)
    rw [hscan, ok_bind]
    change (store16 c buf'' (c.bmtTbl (2 ^ 16 - 1) + 2) 2 >>= _) = _
    rw [store16_of_lt (by omega)]
    rfl
  · intro hne hle
    have hpos : 0 < pool.length := List.length_pos_of_ne_nil hne
    obtain ⟨buf'', hscan, hlist, -⟩ := hlisted (.inr hle)
    have hindex : (pool.length + 2 ^ 16 - 1) % 2 ^ 16 = pool.length - 1 := by omega
    have hentry : c.bmtTbl pool.length = c.bmtTbl (pool.length - 1) + 4 := by
      simp only [Setup.bmtTbl]
      omega
    refine ⟨put16 buf'' (c.bmtTbl (pool.length - 1) + 2) 2, ?_, fun k hk => ?_⟩
    · rw [hscan, ok_bind]
      change (store16 c buf'' (c.bmtTbl ((pool.length + 2 ^ 16 - 1) % 2 ^ 16) + 2) 2 >>= _) = _
      rw [hindex, store16_of_le (by omega), ok_bind]
      rw [if_neg (by omega)]
      rfl
    · obtain ⟨hblock, hmapped⟩ := hlist k hk
      have hk' : c.bmtTbl (0 + k) = c.bmtTbl (pool.length - 1) ∨
          c.bmtTbl (0 + k) + 4 ≤ c.bmtTbl (pool.length - 1) := by
        simp only [Setup.bmtTbl]
        omega
      refine ⟨by rw [get16_put16_of_apart _ (by omega)]; exact hblock, ?_⟩
      cases hk' with
      | inl heq =>
        rw [heq, get16_put16 _ (by decide)]
        decide
      | inr hlt =>
        rw [get16_put16_of_apart _ (by omega)]
        exact hmapped
  · intro hne hlt
    rw [hout hne hlt]
    rfl

end Scan

/-! ## The setup -/

section Init

variable {c : Setup} {flash : Flash}

/-- A table is built inside the buffer under the condition on the numbers, the blocks and the
pool. -/
theorem inside_initFresh_iff (buf : Bytes) :
    Inside (initFresh c flash buf) ↔ c.FreshInside flash := by
  unfold initFresh Setup.FreshInside
  by_cases hmany : c.TooMany
  · rw [if_pos hmany]
    exact iff_of_true (inside_error_iff.mpr (by decide)) (.inl hmany)
  rw [if_neg hmany, or_iff_right hmany]
  have htotal := total_lt c
  by_cases hts : c.tableSize = 0
  · -- no entries, so no blocks, and the scan fails after one number or two
    have hzero : c.total = 0 := by
      unfold Setup.TooMany at hmany
      rw [hts] at hmany
      omega
    have hlast : c.total - 2 ≤ c.lastMapped flash + 1 := by omega
    have hmemset : memset c buf (c.bmtTbl 0) (c.tableSize * 4) = .ok (fun i =>
      if c.bmtTbl 0 ≤ i ∧ i < c.bmtTbl 0 + c.tableSize * 4 then 0 else buf i) := by
      rw [memset, touch, if_pos (.inl (by omega))]
      rfl
    rw [hmemset, ok_bind, if_pos hts, and_iff_left (.inr (.inl hlast)), scanBadBlocks]
    by_cases hfirst : Setup.bbTbl 0 + 2 ≤ c.bufsz
    · rw [store16_of_le hfirst, ok_bind]
      by_cases hlba : c.poolLba ≤ 1
      · have hindex : c.poolLba - 1 = 0 := by omega
        rw [if_pos hlba, hindex, List.range'_zero, List.foldlM_nil, pure_bind, load16_of_le hfirst,
          ok_bind]
        dsimp only
        rw [if_pos (by omega)]
        exact iff_of_true (inside_error_iff.mpr (by decide)) hfirst
      · have hnext : (c.poolLba - 1) = (c.poolLba - 2) + 1 := by omega
        have hnone : findValidBlock c flash 1 = 0 := by
          by_contra h
          have := findValidBlock_bounds c flash h
          omega
        rw [if_neg hlba, hnext, List.range'_succ, List.foldlM_cons, scanStep, load16_of_le hfirst,
          ok_bind, get16_put16 _ (by decide)]
        change Inside ((((store16 c _ (Setup.bbTbl 1) (findValidBlock c flash 1) >>= _) >>= _) >>= _)
          >>= _) ↔ _
        by_cases hsecond : Setup.bbTbl 1 + 2 ≤ c.bufsz
        · rw [hnone, store16_of_le hsecond, ok_bind, load16_of_le hsecond, ok_bind,
            get16_put16 _ (by decide), if_pos rfl]
          exact iff_of_true (inside_error_iff.mpr (by decide)) hsecond
        · rw [store16_of_lt (by omega)]
          exact iff_of_false not_inside hsecond
    · rw [store16_of_lt (by omega)]
      refine iff_of_false not_inside fun h => hfirst (Nat.le_trans ?_ h)
      split <;> decide
  rw [if_neg hts]
  have hend : c.bmtTbl 0 + c.tableSize * 4 = c.bmtTbl c.tableSize := by
    simp only [Setup.bmtTbl]
    omega
  by_cases hroom : c.bmtTbl c.tableSize ≤ c.bufsz
  · rw [and_iff_right hroom]
    have hbb : Setup.bbTbl (c.total + 2) ≤ c.bufsz := by
      have hbufsz : c.bufsz < 2 ^ 32 := Nat.mod_lt _ (by decide)
      simp only [Setup.bmtTbl, Setup.bbTbl] at hroom ⊢
      unfold Setup.TooMany at hmany
      rw [Nat.mod_eq_of_lt (a := c.tableSize * 2) (by omega),
        Nat.mod_eq_of_lt (by omega)] at hmany
      omega
    have hheader : 4 ≤ c.bufsz := by
      simp only [Setup.bbTbl] at hbb
      omega
    rw [memset, touch_of_le (by omega), ok_bind, pure_bind]
    by_cases hfew : (c.good flash).length < c.poolLba - 1 ∨ c.total - 2 ≤ c.lastMapped flash + 1
    · rw [scanBadBlocks_of_few flash hbb hfew]
      refine iff_of_true (inside_error_iff.mpr (by decide)) ?_
      exact hfew.elim .inl fun h => .inr (.inl h)
    · rw [not_or] at hfew
      rw [or_iff_right hfew.1, or_iff_right hfew.2]
      obtain ⟨hnil, hnilOut, hlist, hout⟩ := scanBadBlocks_of_pool flash hbb
        (Nat.le_of_not_lt hfew.1) (Nat.lt_of_not_le hfew.2) (fun i =>
          if c.bmtTbl 0 ≤ i ∧ i < c.bmtTbl 0 + c.tableSize * 4 then 0 else buf i)
      unfold Setup.PoolInside
      by_cases hpool : c.pool flash = []
      · rw [if_pos hpool]
        by_cases hle : c.bmtTbl (2 ^ 16) ≤ c.bufsz
        · rw [hnil hpool hle]
          exact iff_of_true (inside_error_iff.mpr (by decide)) hle
        · rw [hnilOut hpool (Nat.lt_of_not_le hle)]
          exact iff_of_false not_inside hle
      · rw [if_neg hpool]
        by_cases hle : c.bmtTbl (c.pool flash).length ≤ c.bufsz
        · rw [and_iff_right hle]
          obtain ⟨buf', hscan, hentries⟩ := hlist hpool hle
          have hpos : 0 < (c.pool flash).length := List.length_pos_of_ne_nil hpool
          have hcount : (c.pool flash).length - 1 + 1 = (c.pool flash).length := by omega
          obtain ⟨index, buf'', hupload, htakes, hnone⟩ :=
            uploadBmt_spec flash (c.pool flash).length hheader hle hentries (Nat.le_refl _)
          rw [List.take_length] at htakes hnone
          rw [hscan, ok_bind]
          dsimp only
          rw [hcount, hupload, ok_bind]
          dsimp only
          by_cases hsome : ∃ block ∈ c.pool flash, flash.Takes block
          · have hindex := htakes hsome
            have hread : c.bmtTbl index + 2 ≤ c.bufsz := by
              simp only [Setup.bmtTbl] at hle ⊢
              omega
            rw [load16_of_le hread, ok_bind]
            refine iff_of_true ?_ (.inl hsome)
            split
            · exact inside_error_iff.mpr (by decide)
            · exact inside_ok _
          · have hindex : index = 2 ^ 16 - 1 :=
              hnone fun block hmem htake => hsome ⟨block, hmem, htake⟩
            rw [or_iff_right hsome, hindex]
            by_cases hread : c.bmtTbl (2 ^ 16 - 1) + 2 ≤ c.bufsz
            · rw [load16_of_le hread, ok_bind, if_pos rfl]
              exact iff_of_true (inside_error_iff.mpr (by decide)) hread
            · rw [load16_of_lt (Nat.lt_of_not_le hread)]
              exact iff_of_false not_inside hread
        · rw [hout hpool (Nat.lt_of_not_le hle)]
          exact iff_of_false not_inside fun h => hle h.1
  · rw [memset, touch_of_lt (by omega) (by omega)]
    exact iff_of_false not_inside fun h => hroom h.1

/-- The setup stays inside the buffer exactly when there is room for what it finds on the flash
and for what it puts behind the numbers. -/
theorem inside_mtkBmtInitV2_iff (c : Setup) (flash : Flash) :
    Inside (mtkBmtInitV2 c flash) ↔ c.InsideBuffer flash := by
  unfold mtkBmtInitV2 Setup.InsideBuffer
  by_cases hmem : c.kzalloc c.bufsz = true
  swap
  · rw [if_neg hmem]
    exact iff_of_true (inside_error_iff.mpr (by decide)) (.inl (Bool.eq_false_iff.mpr hmem))
  rw [if_pos hmem, or_iff_right (by simp [hmem]), touch_bufsz, ok_bind]
  by_cases hheader : c.bufsz < 4 → ∀ block ∈ c.searched, flash.isRead block = false
  swap
  · push Not at hheader
    obtain ⟨hsmall, block, hblock, hread⟩ := hheader
    rw [findTable_of_small hsmall ⟨block, hblock, by simpa using hread⟩]
    refine iff_of_false not_inside fun h => ?_
    rw [h.1 hsmall block hblock] at hread
    exact hread rfl
  rw [and_iff_right hheader]
  cases hfind : c.searched.find? flash.holdsTable with
  | none =>
    obtain ⟨buf, hsearch⟩ := findTable_of_none hheader hfind fun _ => 0xff
    rw [hsearch]
    by_cases hlba : c.poolLba = 0
    · rw [if_pos hlba]
      exact iff_of_true (inside_error_iff.mpr (by decide)) (.inl hlba)
    · rw [if_neg hlba, ok_bind, or_iff_right hlba]
      exact inside_initFresh_iff buf
  | some block =>
    have hholds : flash.holdsTable block = true := List.find?_some hfind
    have hroom : 4 ≤ c.bufsz := by
      by_contra h
      have hnot := hheader (by omega) block (List.mem_of_find?_eq_some hfind)
      rw [Flash.holdsTable, hnot] at hholds
      cases hholds
    rw [findTable_of_some hroom hfind]
    obtain ⟨index, hindex, hlisted⟩ | ⟨hout, hnone⟩ :=
      getBmtIndex_spec c (flash.readTable block).2.1
    · rw [hindex, ok_bind, ok_bind]
      by_cases hzero : index = 0
      · subst hzero
        simp only [if_true]
        rw [inside_initFresh_iff]
        refine ⟨fun hfresh => ⟨0, hlisted, fun _ => hfresh⟩, fun ⟨index, hother, hfresh⟩ => ?_⟩
        exact hfresh (hother.unique hlisted)
      · simp only [hzero, if_false]
        exact iff_of_true (inside_ok _) ⟨index, hlisted, fun h => absurd h hzero⟩
    · rw [hout]
      exact iff_of_false not_inside fun ⟨index, hlisted, _⟩ => hnone index hlisted

end Init

/-! ## The default sizes -/

/-- A flash of 1024 blocks with pages of 2048 bytes and the default sizes of the pool and the
table. -/
def defaultSetup : Setup where
  totalBlks := 1024
  pgSize := 2048
  pgShift := 11
  bmtPoolSize := none
  bmtTableSize := none
  kzalloc size := size < 2 ^ 22
  kzalloc_lt size h := by
    have := of_decide_eq_true h
    omega

/-- A flash that was never written, without bad blocks. -/
def blankFlash : Flash where
  readTable _ := (true, fun _ => 0xff, [0xff, 0xff, 0xff, 0xff])
  readFdm _ := some 0xff
  erase _ := true
  write _ := true

/-- The first boot clears more than was allocated. -/
theorem not_inside_of_default : ¬ Inside (mtkBmtInitV2 defaultSetup blankFlash) := by
  have hbufsz : defaultSetup.bufsz = 34816 := by decide
  have hblank : ∀ block, blankFlash.holdsTable block = false := fun _ => rfl
  obtain ⟨buf, hsearch⟩ := @findTable_of_none defaultSetup blankFlash defaultSetup.searched
    (fun hsmall => absurd hsmall (by rw [hbufsz]; decide))
    (List.find?_eq_none.mpr fun block _ => by rw [hblank]; decide) fun _ => 0xff
  have hinit : mtkBmtInitV2 defaultSetup blankFlash = initFresh defaultSetup blankFlash buf := by
    rw [mtkBmtInitV2, if_pos (by rw [hbufsz]; decide), touch_bufsz, ok_bind, hsearch,
      if_neg (by decide), ok_bind]
  rw [hinit, inside_initFresh_iff]
  rintro (hmany | ⟨hroom, _⟩)
  · exact absurd hmany (by decide)
  · rw [if_neg (by decide), hbufsz] at hroom
    exact absurd hroom (by decide)

end OpenWrt.MtkBmt.V2.Buffer
