/-
# The factory bad blocks of the device tree

`w_factory_badblocks` puts a list of blocks in place of the table of factory bad blocks, or
compares the two. What it asks of the flash is noted, with the answers: which blocks it
erases and which it marks bad. The flash answers as it likes.

The table is cleared by swap-removal, and an entry is looked at again after it is removed.
-/

import OpenWrt.MtkBmt.En75.Bounds

namespace OpenWrt.MtkBmt.En75.Checked

open OpenWrt.Lib

/-! ## A flash that notes what is asked of it -/

/-- What can be asked of a flash that changes it. -/
inductive Op where
  | write (block : ℕ) (data oob : List UInt8)
  | erase (block : ℕ)
  | copy (dest src len : ℕ)
  deriving DecidableEq

/-- A flash with what was asked of it and the answers. -/
structure Logged (σ : Type) where
  state : σ
  log : List (Op × Bool)

def Logged.note {σ : Type} (d : Logged σ) (op : Op) (answer : Bool × σ) : Bool × Logged σ :=
  (answer.1, ⟨answer.2, d.log ++ [(op, answer.1)]⟩)

/-- The flash, noting what is asked of it. -/
def Chip.logged {σ : Type} (chip : Chip σ) : Chip (Logged σ) where
  read block d := ((chip.read block d.state).1, ⟨(chip.read block d.state).2, d.log⟩)
  write block data oob d := d.note (.write block data oob) (chip.write block data oob d.state)
  erase block d := d.note (.erase block) (chip.erase block d.state)
  copy dest src len d := d.note (.copy dest src len) (chip.copy dest src len d.state)
  krealloc := chip.krealloc

def markOp (block : ℕ) : Op := .write block [] [BLOCK_WORN_MARK, 0xff, 0xff, 0xff]

/-- The block is marked bad, or the flash has refused the mark as often as it is tried. -/
def Marked (log : List (Op × Bool)) (block : ℕ) : Prop :=
  (markOp block, true) ∈ log ∨ WRITE_TRIES ≤ log.count (markOp block, false)

theorem Marked.append_right {log : List (Op × Bool)} {block : ℕ} (h : Marked log block)
    (more : List (Op × Bool)) : Marked (log ++ more) block := by
  rcases h with hmem | hcount
  · exact Or.inl (List.mem_append_left _ hmem)
  · exact Or.inr (by rw [List.count_append]; omega)

theorem Marked.append_left {log : List (Op × Bool)} {block : ℕ} (h : Marked log block)
    (more : List (Op × Bool)) : Marked (more ++ log) block := by
  rcases h with hmem | hcount
  · exact Or.inl (List.mem_append_right _ hmem)
  · exact Or.inr (by rw [List.count_append]; omega)

section Logs

variable {σ : Type} {node : Node} {chip : Chip σ} {m : Mem}

/-- An operation that is tried again is noted each time, up to the first success. -/
theorem retry_logged {op : Logged σ → Bool × Logged σ} {o : Op}
    (hop : ∀ d, (op d).2.log = d.log ++ [(o, (op d).1)]) (tries : ℕ) (d : Logged σ) :
    ∃ ops, (retry op tries d).2.log = d.log ++ ops ∧ (∀ e ∈ ops, e.1 = o) ∧
      (0 < tries → ops ≠ []) ∧ ((o, true) ∈ ops ∨ tries ≤ ops.count (o, false)) := by
  induction tries generalizing d with
  | zero => exact ⟨[], by rw [retry, List.append_nil], by simp, by simp, by simp⟩
  | succ tries ih =>
    have hnote := hop d
    unfold retry
    obtain ⟨⟨answer, d'⟩, hd'⟩ : ∃ r, op d = r := ⟨_, rfl⟩
    rw [hd'] at hnote ⊢
    cases answer with
    | true =>
      refine ⟨[(o, true)], hnote, ?_, by simp, Or.inl (List.mem_singleton.mpr rfl)⟩
      intro e he
      rw [List.mem_singleton.mp he]
    | false =>
      obtain ⟨ops, hlog, hall, -, htried⟩ := ih d'
      refine ⟨(o, false) :: ops, ?_, ?_, by simp, ?_⟩
      · dsimp only at hnote ⊢
        rw [hlog, hnote, List.append_assoc]
        rfl
      · intro e he
        rcases List.mem_cons.mp he with rfl | he
        · rfl
        · exact hall e he
      · rcases htried with hmem | hcount
        · exact Or.inl (List.mem_cons_of_mem _ hmem)
        · refine Or.inr ?_
          rw [List.count_cons_self]
          omega

/-- `w_erase_one` asks for nothing but the block to be erased, and only where it is in the
area. -/
theorem wEraseOne_logged (block : ℕ) (userArea : Bool) (d : Logged σ) :
    ∃ ops, (wEraseOne node chip.logged m block userArea d).2.log = d.log ++ ops ∧
      (∀ e ∈ ops, e.1 = .erase block) ∧
      (ops ≠ [] ↔ blockIndexIsSane node m block userArea = true) := by
  unfold wEraseOne
  cases hsane : blockIndexIsSane node m block userArea with
  | false => exact ⟨[], by simp⟩
  | true =>
    obtain ⟨ops, hlog, hall, hsome, -⟩ := @retry_logged σ (chip.logged.erase block) _
      (fun _ => rfl) ERASE_TRIES d
    refine ⟨ops, ?_, hall, iff_of_true (hsome (by decide)) rfl⟩
    rw [if_neg (by simp), ← hlog]
    split
    · rename_i heq
      rw [heq]
    · rename_i heq
      rw [heq]

/-- `w_mark_bad` for a block of the area. -/
theorem wMarkBad_logged {block : ℕ} {userArea : Bool}
    (hsane : blockIndexIsSane node m block userArea = true) (d : Logged σ) :
    ∃ ops, (wMarkBad node chip.logged m block userArea d).2.log = d.log ++ ops ∧
      (∀ e ∈ ops, e.1 = markOp block) ∧ Marked ops block := by
  unfold wMarkBad wWrite
  obtain ⟨ops, hlog, hall, -, htried⟩ := @retry_logged σ
    (chip.logged.write block [] [BLOCK_WORN_MARK, 0xff, 0xff, 0xff]) _
    (fun _ => rfl) WRITE_TRIES d
  refine ⟨ops, ?_, hall, htried⟩
  rw [if_neg (by simp [hsane]), ← hlog]
  split
  · rename_i heq
    rw [heq]
  · rename_i heq
    rw [heq]

end Logs

/-! ## Clearing the table -/

/-- The entries of the table of factory bad blocks. -/
def bbtList (m : Mem) : List ℕ :=
  (List.range m.bbt.size.toNat).map fun i => (m.bbt.table i).toNat

/-- The block is in the list of the device tree. -/
def IsListed (blocks : List UInt32) (b : ℕ) : Prop := ∃ block ∈ blocks, block.toNat = b

instance (blocks : List UInt32) (b : ℕ) : Decidable (IsListed blocks b) :=
  inferInstanceAs (Decidable (∃ block ∈ blocks, block.toNat = b))

section Clear

variable {σ : Type} {node : Node} {chip : Chip σ} {blocks : List UInt32}

/-- The last entry goes, and its place is zero. -/
theorem bbtList_concat {m : Mem} {n : ℕ} {size : UInt8} {table : ℕ → UInt16}
    (hsize : m.bbt.size.toNat = n + 1) (hnext : size.toNat = n)
    (htable : table = Function.update (Function.update m.bbt.table n (m.bbt.table size.toNat))
      size.toNat 0) :
    bbtList m = bbtList { m with bbt := { m.bbt with size, table } } ++ [(m.bbt.table n).toNat] ∧
      table n = 0 := by
  subst htable
  rw [hnext]
  refine ⟨?_, Function.update_self ..⟩
  unfold bbtList
  rw [hsize, hnext, List.range_succ, List.map_append]
  refine congrArg (· ++ _) (List.map_congr_left fun i hi => ?_)
  have hne : i ≠ n := Nat.ne_of_lt (List.mem_range.mp hi)
  dsimp only
  rw [Function.update_of_ne hne, Function.update_of_ne hne]

/-- Every entry that is not listed has block 0 erased, where block 0 is a user block. -/
theorem clearBbt_spec {n : ℕ} {m : Mem} {d : Logged σ} (hsize : m.bbt.size.toNat = n) :
    Completes (fun r => r.1 = { m with bbt := r.1.bbt } ∧ r.1.bbt.size.toNat = 0 ∧
      ∃ ops, r.2.log = d.log ++ ops ∧ (∀ e ∈ ops, e.1 = .erase 0) ∧
        (ops ≠ [] ↔ blockIndexIsSane node m 0 true = true ∧
          ∃ b ∈ bbtList m, ¬ IsListed blocks b))
      (clearBbt node chip.logged blocks n m d) := by
  have hle := size_le_bbt m.bbt.size
  induction n generalizing m d with
  | zero =>
    have hnil : bbtList m = [] := by rw [bbtList, hsize]; rfl
    refine completes_pure ⟨rfl, hsize, [], by rw [List.append_nil], by simp, ?_⟩
    rw [hnil]
    simp
  | succ i ih =>
    unfold clearBbt
    refine completes_bind (completes_check (by omega)) fun _ _ => ?_
    refine completes_bind (completes_decrease (by omega)) fun size hnext => ?_
    refine completes_bind (completes_check (by omega)) fun _ _ => ?_
    have hnext' : size.toNat = i := by omega
    obtain ⟨hlist, hzero⟩ := bbtList_concat hsize hnext' rfl
    have hkept : (blocks.any fun block => decide ((m.bbt.table i).toNat = block.toNat)) = true ↔
        IsListed blocks (m.bbt.table i).toNat := by
      rw [List.any_eq_true]
      exact exists_congr fun block => and_congr_right fun _ => by rw [decide_eq_true_eq, eq_comm]
    dsimp only
    generalize htable : Function.update (Function.update m.bbt.table i (m.bbt.table size.toNat))
      size.toNat 0 = table at *
    by_cases hlisted : IsListed blocks (m.bbt.table i).toNat
    · rw [if_pos (hkept.mpr hlisted)]
      refine (ih hnext' (size_le_bbt _)).mono ?_
      rintro r ⟨hmem, hdone, ops, hlog, hall, hsome⟩
      refine ⟨hmem, hdone, ops, hlog, hall, hsome.trans (and_congr_right fun _ => ?_)⟩
      rw [hlist]
      simp [hlisted]
    · rw [if_neg fun h => hlisted (hkept.mp h), hzero]
      obtain ⟨first, hfirst, hfirstAll, hfirstSome⟩ := @wEraseOne_logged σ node
        chip { m with bbt := { m.bbt with size, table } } (UInt16.toNat 0) true d
      refine (ih hnext' (size_le_bbt _)).mono ?_
      rintro r ⟨hmem, hdone, ops, hlog, hall, hsome⟩
      refine ⟨hmem, hdone, first ++ ops, ?_, ?_, ?_⟩
      · rw [hlog, hfirst, List.append_assoc]
      · intro e he
        rcases List.mem_append.mp he with he | he
        · exact hfirstAll e he
        · exact hall e he
      · have hmore : ∃ b ∈ bbtList m, ¬ IsListed blocks b := by
          rw [hlist]
          exact ⟨_, List.mem_append_right _ (List.mem_singleton.mpr rfl), hlisted⟩
        have hsane : blockIndexIsSane node { m with bbt := { m.bbt with size, table } }
            (UInt16.toNat 0) true = blockIndexIsSane node m 0 true := rfl
        rw [hsane] at hfirstSome
        constructor
        · intro hne
          refine ⟨?_, hmore⟩
          by_contra hinsane
          have hnone : first = [] := by
            by_contra hfirstNe
            exact hinsane (hfirstSome.mp hfirstNe)
          have hnone' : ops = [] := by
            by_contra hopsNe
            exact hinsane (hsome.mp hopsNe).1
          rw [hnone, hnone'] at hne
          exact hne rfl
        · rintro ⟨hsane, -⟩ hnil
          exact hfirstSome.mpr hsane (List.append_eq_nil_iff.mp hnil).1

end Clear

/-! ## Taking blocks out of the other table -/

/-- The entries of the table of mapped blocks. -/
def bmtList (bmt : Bmt) : List Entry :=
  (List.range bmt.size.toNat).map bmt.entry

def entriesOf (bmt : Bmt) (b : ℕ) : List Entry :=
  (bmtList bmt).filter fun e => e.fromBlock.toNat = b

/-- The block has one entry at most, and that is for a block of the reserve area that is
known. -/
def Removable (node : Node) (m : Mem) (b : ℕ) : Prop :=
  (entriesOf m.bmt b).length ≤ 1 ∧
    ∀ e ∈ entriesOf m.bmt b, m.reserveAreaBegin ≤ e.toBlock.toNat ∧
      ∃ j < reserveBlockCount node m, (m.rblocks j).index = e.toBlock.toNat

instance (node : Node) (m : Mem) (b : ℕ) : Decidable (Removable node m b) :=
  inferInstanceAs (Decidable (_ ∧ _))

section Unmap

variable {σ : Type} {node : Node} {chip : Chip σ} {m : Mem} {d : σ} {bmt : Bmt}

theorem mem_entriesOf {b : ℕ} {e : Entry} :
    e ∈ entriesOf bmt b ↔ e ∈ bmtList bmt ∧ e.fromBlock.toNat = b := by
  rw [entriesOf, List.mem_filter, decide_eq_true_eq]

/-- Changing one value of a function exchanges the two values in its list. -/
theorem perm_map_update {α : Type} (f : ℕ → α) (x : α) {i n : ℕ} (hi : i < n) :
    (f i :: (List.range n).map (Function.update f i x)).Perm (x :: (List.range n).map f) := by
  induction n with
  | zero => exact absurd hi (Nat.not_lt_zero i)
  | succ n ih =>
    rw [List.range_succ, List.map_append, List.map_append]
    by_cases hlast : i = n
    · subst hlast
      have hsame : (List.range i).map (Function.update f i x) = (List.range i).map f :=
        List.map_congr_left fun k hk => Function.update_of_ne (Nat.ne_of_lt (List.mem_range.mp hk)) ..
      rw [hsame, List.map_singleton, List.map_singleton, Function.update_self]
      have hfirst := (List.perm_append_singleton x ((List.range i).map f)).cons (f i)
      have hlast := (List.perm_append_singleton (f i) ((List.range i).map f)).cons x
      exact hfirst.trans ((List.Perm.swap ..).trans hlast.symm)
    · have hother : Function.update f i x n = f n := Function.update_of_ne (Ne.symm hlast) ..
      rw [List.map_singleton, List.map_singleton, hother]
      exact (ih (by omega)).append_right [f n]

theorem unmapEntry_spec {i : ℕ} (hi : i < bmt.size.toNat) :
    Completes (fun bmt' => (bmt.entry i :: bmtList bmt').Perm (bmtList bmt)) (unmapEntry bmt i) := by
  have hlt : bmt.size.toNat < MAX_BMT_SIZE := bmt.size.toNat_lt
  have hmax : MAX_BMT_SIZE = 256 := rfl
  refine completes_bind (completes_decrease (by omega)) fun size hsize => ?_
  refine completes_bind (completes_check (by omega)) fun _ _ => ?_
  refine completes_bind (completes_check (by omega)) fun _ _ => completes_pure ?_
  have hentry : ∀ k < size.toNat, ((bmt.setEntry i (bmt.entry size.toNat)).setEntry size.toNat
      ⟨0, 0⟩).entry k = Function.update bmt.entry i (bmt.entry size.toNat) k := by
    intro k hk
    rw [Bmt.entry_setEntry (by omega) (by omega), if_neg (by omega),
      Bmt.entry_setEntry (by omega) (by omega)]
    by_cases hki : k = i
    · rw [if_pos hki, hki, Function.update_self]
    · rw [if_neg hki, Function.update_of_ne hki]
  have hlist : bmtList { (bmt.setEntry i (bmt.entry size.toNat)).setEntry size.toNat ⟨0, 0⟩ with
      size } = (List.range size.toNat).map (Function.update bmt.entry i (bmt.entry size.toNat)) :=
    List.map_congr_left fun k hk => hentry k (List.mem_range.mp hk)
  have hall : bmtList bmt = (List.range size.toNat).map bmt.entry ++ [bmt.entry size.toNat] := by
    have hsucc : bmt.size.toNat = size.toNat + 1 := by omega
    rw [bmtList, hsucc, List.range_succ, List.map_append, List.map_singleton]
  rw [hlist, hall]
  by_cases hlast : i = size.toNat
  · have hsame : (List.range size.toNat).map (Function.update bmt.entry i (bmt.entry size.toNat)) =
        (List.range size.toNat).map bmt.entry :=
      List.map_congr_left fun k hk => Function.update_of_ne
        (fun h => Nat.ne_of_lt (List.mem_range.mp hk) (h.trans hlast)) ..
    rw [hsame, hlast]
    exact (List.perm_append_singleton _ _).symm
  · exact (perm_map_update bmt.entry (bmt.entry size.toNat) (by omega)).trans
      (List.perm_append_singleton _ _).symm

theorem setStatus_eq {m : Mem} {i : ℕ} (status : BlockStatus) (hi : i < m.allocated) :
    m.setStatus i status =
      .ok { m with rblocks := Function.update m.rblocks i { m.rblocks i with status } } := by
  rw [Mem.setStatus, check, if_pos hi]
  rfl

/-- `w_unmap_block` without an erase takes the first entry of the block out, where the block
that it is for is known. -/
theorem wUnmapBlock_spec (hfits : Fits node m) (block : ℕ) :
    Completes (fun r => r.2.2 = d ∧ Alike m r.2.1 ∧
        (∀ j, (r.2.1.rblocks j).index = (m.rblocks j).index) ∧
        match (bmtList m.bmt).find? fun e => e.fromBlock.toNat = block with
        | none => r.2.1.bmt = m.bmt
        | some e =>
          if ∃ j < reserveBlockCount node m, (m.rblocks j).index = e.toBlock.toNat then
            (e :: bmtList r.2.1.bmt).Perm (bmtList m.bmt)
          else r.2.1.bmt = m.bmt)
      (wUnmapBlock node chip block false m d) := by
  have hsize := size_le_bmt m.bmt.size
  have hreserve := hfits.reserve
  unfold wUnmapBlock
  have hfirst : ((bmtList m.bmt).find? fun e => decide (e.fromBlock.toNat = block)) =
      ((List.range m.bmt.size.toNat).find? fun i =>
        decide ((m.bmt.entry i).fromBlock.toNat = block)).map m.bmt.entry := List.find?_map ..
  rw [findUp_eq _ (by omega), ← List.range_eq_range', hfirst]
  refine completes_bind (completes_ok (Q := (· = _)) rfl) fun found hfound => ?_
  rw [← hfound]
  cases found with
  | none => exact completes_pure ⟨rfl, .refl m, fun _ => rfl, rfl⟩
  | some i =>
    have hi : i < m.bmt.size.toNat :=
      List.mem_range.mp (List.mem_of_find?_eq_some hfound.symm)
    dsimp only [Option.map_some]
    rw [findUp_eq _ (by omega), ← List.range_eq_range']
    refine completes_bind (completes_ok (Q := (· = _)) rfl) fun place hplace => ?_
    cases place with
    | none =>
      refine completes_pure ⟨rfl, .refl m, fun _ => rfl, ?_⟩
      rw [if_neg]
      rintro ⟨j, hj, hindex⟩
      have hno := List.find?_eq_none.mp hplace.symm j (List.mem_range.mpr hj)
      simp [hindex] at hno
    | some j =>
      have hj : j < reserveBlockCount node m :=
        List.mem_range.mp (List.mem_of_find?_eq_some hplace.symm)
      have hindex : (m.rblocks j).index = (m.bmt.entry i).toBlock.toNat := by
        simpa using List.find?_some hplace.symm
      have hknown : ∃ j < reserveBlockCount node m,
          (m.rblocks j).index = (m.bmt.entry i).toBlock.toNat := ⟨j, hj, hindex⟩
      simp only [if_pos hknown]
      refine completes_bind (unmapEntry_spec hi) fun bmt hperm => ?_
      rw [setStatus_eq]
      case hi => exact Nat.lt_of_lt_of_le hj hreserve
      refine completes_pure ⟨rfl, ⟨rfl, rfl, rfl, rfl⟩, fun k => ?_, hperm⟩
      dsimp only
      by_cases hk : k = j
      · rw [hk, Function.update_self]
      · rw [Function.update_of_ne hk]

/-- A search from the last entry down. -/
theorem findDown_eq {cap : ℕ} (p : ℕ → Bool) {n : ℕ} (h : n ≤ cap) :
    findDown cap p n = .ok ((List.range n).reverse.find? p) := by
  induction n with
  | zero => rfl
  | succ n ih =>
    rw [findDown, check, if_pos (by omega), List.range_succ, List.reverse_concat]
    change (if p n then _ else _) = _
    cases hp : p n with
    | true =>
      rw [List.find?_cons_of_pos hp]
      rfl
    | false =>
      rw [List.find?_cons_of_neg (by rw [hp]; decide)]
      exact ih (by omega)

/-- `get_mapping_block` for a user block while there are no factory bad blocks: the last entry
of the block. -/
theorem getMappingBlock_eq (hnone : m.bbt.size.toNat = 0) {block : ℕ}
    (hblock : block < m.reserveAreaBegin) :
    getMappingBlock m block = .ok (some
      (((bmtList m.bmt).reverse.find? fun e => e.fromBlock.toNat = block).elim block
        fun e => e.toBlock.toNat)) := by
  have hlast : ((bmtList m.bmt).reverse.find? fun e => decide (e.fromBlock.toNat = block)) =
      ((List.range m.bmt.size.toNat).reverse.find? fun i =>
        decide ((m.bmt.entry i).fromBlock.toNat = block)).map m.bmt.entry := by
    rw [bmtList, ← List.map_reverse]
    exact List.find?_map ..
  have hself : getMappingBlockBbt m block = .ok (some block) := by
    unfold getMappingBlockBbt
    rw [hnone]
    change Except.ok (if block ≥ m.reserveAreaBegin then none else some block) = _
    rw [if_neg (by omega)]
  unfold getMappingBlock
  rw [hself, hlast]
  change (findDown MAX_BMT_SIZE _ m.bmt.size.toNat >>= _) = _
  rw [findDown_eq _ (size_le_bmt m.bmt.size)]
  cases (List.range m.bmt.size.toNat).reverse.find? fun i =>
    decide ((m.bmt.entry i).fromBlock.toNat = block) with
  | none => rfl
  | some i => rfl

/-- What one block's turn leaves of the table. -/
structure Turned (node : Node) (m m' : Mem) (b : ℕ) : Prop where
  alike : Alike m m'
  index : ∀ j, (m'.rblocks j).index = (m.rblocks j).index
  others : ∀ other ≠ b, (entriesOf m'.bmt other).Perm (entriesOf m.bmt other)
  own : entriesOf m'.bmt b = [] ↔ Removable node m b

theorem removable_congr {m m' : Mem} {b : ℕ} (halike : Alike m m')
    (hindex : ∀ j, (m'.rblocks j).index = (m.rblocks j).index)
    (hperm : (entriesOf m'.bmt b).Perm (entriesOf m.bmt b)) :
    Removable node m' b ↔ Removable node m b := by
  unfold Removable
  rw [hperm.length_eq, halike.reserveAreaBegin, halike.count]
  simp only [hindex, hperm.mem_iff]

/-- A turn that changes nothing, of a block that has no entry or cannot be taken out. -/
theorem turned_of_same {m' : Mem} {b : ℕ} (halike : Alike m m')
    (hindex : ∀ j, (m'.rblocks j).index = (m.rblocks j).index) (hsame : m'.bmt = m.bmt)
    (hown : entriesOf m.bmt b = [] ∨ entriesOf m.bmt b ≠ [] ∧ ¬ Removable node m b) :
    Turned node m m' b where
  alike := halike
  index := hindex
  others other _ := by rw [hsame]
  own := by
    rw [hsame]
    rcases hown with hnil | ⟨hne, hnot⟩
    · refine iff_of_true hnil ⟨by rw [hnil]; decide, fun e he => ?_⟩
      rw [hnil] at he
      exact absurd he List.not_mem_nil
    · exact iff_of_false hne hnot

/-- A turn that takes the first entry of the block out. -/
theorem turned_of_removed {m' : Mem} {b : ℕ} {e last : Entry} (halike : Alike m m')
    (hindex : ∀ j, (m'.rblocks j).index = (m.rblocks j).index)
    (hperm : (e :: bmtList m'.bmt).Perm (bmtList m.bmt)) (hfrom : e.fromBlock.toNat = b)
    (hknown : ∃ j < reserveBlockCount node m, (m.rblocks j).index = e.toBlock.toNat)
    (hlast : last ∈ entriesOf m.bmt b) (hreserve : m.reserveAreaBegin ≤ last.toBlock.toNat) :
    Turned node m m' b where
  alike := halike
  index := hindex
  others other hne := by
    have hfilter := hperm.filter fun x => decide (x.fromBlock.toNat = other)
    rwa [List.filter_cons_of_neg (by simpa [hfrom] using hne.symm)] at hfilter
  own := by
    have hfilter : (e :: entriesOf m'.bmt b).Perm (entriesOf m.bmt b) := by
      have hfilter := hperm.filter fun x => decide (x.fromBlock.toNat = b)
      rwa [List.filter_cons_of_pos (by simpa using hfrom)] at hfilter
    have hlength := hfilter.length_eq
    rw [List.length_cons] at hlength
    constructor
    · intro hnil
      rw [hnil] at hfilter
      have hone : entriesOf m.bmt b = [e] := List.perm_singleton.mp hfilter.symm
      rw [hone, List.mem_singleton] at hlast
      refine ⟨by rw [hone, List.length_singleton], fun other hother => ?_⟩
      rw [hone, List.mem_singleton] at hother
      rw [hother]
      exact ⟨hlast ▸ hreserve, hknown⟩
    · rintro ⟨hone, -⟩
      exact List.eq_nil_of_length_eq_zero (by omega)

variable (node chip) in
/-- The turn of one block in `unmapAll`, with the block that it is mapped to. -/
def unmapTurn (block mapped : ℕ) (m : Mem) (d : σ) : Except Breach (Mem × σ) :=
  if mapped < m.reserveAreaBegin then pure (m, d)
  else do
    let (_, m, d) ← wUnmapBlock node chip block false m d
    pure (m, d)

theorem unmapAll_cons {block : UInt32} {mapped : ℕ}
    (h : getMappingBlock m block.toNat = .ok (some mapped)) (blocks : List UInt32) :
    unmapAll node chip (block :: blocks) m d =
      unmapTurn node chip (block.toNat % 2 ^ 16) mapped m d >>= fun r =>
        unmapAll node chip blocks r.1 r.2 := by
  unfold unmapTurn
  rw [unmapAll, h]
  change (if mapped < m.reserveAreaBegin then _ else _) = _
  split
  · rfl
  · rw [bind_assoc]
    rfl

theorem turned_unmapTurn (hfits : Fits node m) {block : ℕ} (hblock : block < m.reserveAreaBegin) :
    Completes (fun r => r.2 = d ∧ Turned node m r.1 block)
      (unmapTurn node chip block
        (((bmtList m.bmt).reverse.find? fun e => e.fromBlock.toNat = block).elim block
          fun e => e.toBlock.toNat) m d) := by
  cases hlast : (bmtList m.bmt).reverse.find? fun e => decide (e.fromBlock.toNat = block) with
  | none =>
    have hnil : entriesOf m.bmt block = [] := by
      refine List.filter_eq_nil_iff.mpr fun e he => ?_
      exact List.find?_eq_none.mp hlast e (List.mem_reverse.mpr he)
    rw [Option.elim_none, unmapTurn, if_pos hblock]
    exact completes_pure ⟨rfl, turned_of_same (.refl m) (fun _ => rfl) rfl (Or.inl hnil)⟩
  | some last =>
    have hmem : last ∈ entriesOf m.bmt block :=
      mem_entriesOf.mpr ⟨List.mem_reverse.mp (List.mem_of_find?_eq_some hlast),
        by simpa using List.find?_some hlast⟩
    have hne : entriesOf m.bmt block ≠ [] := List.ne_nil_of_mem hmem
    rw [Option.elim_some, unmapTurn]
    by_cases hlow : last.toBlock.toNat < m.reserveAreaBegin
    · rw [if_pos hlow]
      refine completes_pure ⟨rfl, turned_of_same (.refl m) (fun _ => rfl) rfl (Or.inr ⟨hne, ?_⟩)⟩
      rintro ⟨-, hall⟩
      exact absurd (hall last hmem).1 (by omega)
    · rw [if_neg hlow]
      refine completes_bind (wUnmapBlock_spec hfits block) fun r hr => completes_pure ?_
      obtain ⟨hd, halike, hindex, hentry⟩ := hr
      refine ⟨hd, ?_⟩
      cases hfirst : (bmtList m.bmt).find? fun e => decide (e.fromBlock.toNat = block) with
      | none =>
        have := List.find?_eq_none.mp hfirst last (mem_entriesOf.mp hmem).1
        simp [(mem_entriesOf.mp hmem).2] at this
      | some e =>
        have hfrom : e.fromBlock.toNat = block := by simpa using List.find?_some hfirst
        have he : e ∈ entriesOf m.bmt block :=
          mem_entriesOf.mpr ⟨List.mem_of_find?_eq_some hfirst, hfrom⟩
        rw [hfirst] at hentry
        dsimp only at hentry
        by_cases hknown : ∃ j < reserveBlockCount node m, (m.rblocks j).index = e.toBlock.toNat
        · rw [if_pos hknown] at hentry
          exact turned_of_removed halike hindex hentry hfrom hknown hmem (by omega)
        · rw [if_neg hknown] at hentry
          refine turned_of_same halike hindex hentry (Or.inr ⟨hne, ?_⟩)
          rintro ⟨-, hall⟩
          exact hknown (hall e he).2

/-- With no factory bad blocks the blocks of the list are taken out one after the other, as far
as they can be. -/
theorem unmapAll_spec {blocks : List UInt32} (hfits : Fits node m) (hnone : m.bbt.size.toNat = 0)
    (hblocks : ∀ block ∈ blocks, block.toNat < m.reserveAreaBegin)
    (hbegin : m.reserveAreaBegin ≤ 2 ^ 16) (hdistinct : blocks.Nodup) :
    Completes (fun r => r.2 = d ∧ Alike m r.1 ∧
        (∀ j, (r.1.rblocks j).index = (m.rblocks j).index) ∧
        (∀ b, ¬ IsListed blocks b → (entriesOf r.1.bmt b).Perm (entriesOf m.bmt b)) ∧
        ∀ b, IsListed blocks b → (entriesOf r.1.bmt b = [] ↔ Removable node m b))
      (unmapAll node chip blocks m d) := by
  induction blocks generalizing m d with
  | nil =>
    refine completes_pure ⟨rfl, .refl m, fun _ => rfl, fun _ _ => .refl _, ?_⟩
    rintro b ⟨block, hmem, -⟩
    exact absurd hmem List.not_mem_nil
  | cons block blocks ih =>
    have hblock := hblocks block List.mem_cons_self
    have hmod : block.toNat % 2 ^ 16 = block.toNat := Nat.mod_eq_of_lt (by omega)
    obtain ⟨hnotMem, hrest⟩ := List.nodup_cons.mp hdistinct
    rw [unmapAll_cons (getMappingBlock_eq hnone hblock), hmod]
    refine completes_bind (turned_unmapTurn hfits hblock) fun r hr => ?_
    obtain ⟨hd, hturned⟩ := hr
    have halike := hturned.alike
    have hnotListed : ¬ IsListed blocks block.toNat := by
      rintro ⟨other, hother, heq⟩
      exact hnotMem (UInt32.toNat.inj heq ▸ hother)
    refine (ih (hfits.of_alike halike) (by rw [halike.bbt]; exact hnone)
      (fun other hother => by
        rw [halike.reserveAreaBegin]
        exact hblocks other (List.mem_cons_of_mem _ hother))
      (by rw [halike.reserveAreaBegin]; exact hbegin) hrest).mono ?_
    rintro r' ⟨hd', halike', hindex', hothers', hown'⟩
    have hindex : ∀ j, (r'.1.rblocks j).index = (m.rblocks j).index := fun j =>
      (hindex' j).trans (hturned.index j)
    refine ⟨hd'.trans hd, halike.trans halike', hindex, ?_, ?_⟩
    · intro b hb
      have hne : b ≠ block.toNat := fun h => hb ⟨block, List.mem_cons_self, h.symm⟩
      have hlater : ¬ IsListed blocks b := fun ⟨other, hother, heq⟩ =>
        hb ⟨other, List.mem_cons_of_mem _ hother, heq⟩
      exact (hothers' b hlater).trans (hturned.others b hne)
    · rintro b ⟨other, hother, rfl⟩
      rcases List.mem_cons.mp hother with rfl | hother
      · have hperm := hothers' _ hnotListed
        rw [← hturned.own]
        constructor
        · intro hnil
          exact List.perm_nil.mp (hnil ▸ hperm.symm)
        · intro hnil
          exact List.perm_nil.mp (hnil ▸ hperm)
      · have hne : other.toNat ≠ block.toNat := by
          intro heq
          exact hnotMem (UInt32.toNat.inj heq ▸ hother)
        rw [hown' _ ⟨other, hother, rfl⟩]
        exact removable_congr halike hturned.index (hturned.others _ hne)

end Unmap

/-! ## Adding the blocks -/

section Add

variable {σ : Type} {node : Node} {chip : Chip σ}

theorem mem_bbtList {m : Mem} {b : ℕ} :
    b ∈ bbtList m ↔ ∃ i < m.bbt.size.toNat, (m.bbt.table i).toNat = b := by
  rw [bbtList, List.mem_map]
  exact exists_congr fun i => and_congr_left fun _ => List.mem_range

theorem findUp_bbt (m : Mem) (b : ℕ) :
    Completes (fun r => r.isSome ↔ b ∈ bbtList m)
      (findUp MAX_BBT_SIZE (fun j => (m.bbt.table j).toNat = b) m.bbt.size.toNat 0) := by
  have hsize := size_le_bbt m.bbt.size
  rw [findUp_eq _ (by omega), ← List.range_eq_range']
  refine completes_ok ?_
  rw [List.find?_isSome, mem_bbtList]
  refine exists_congr fun i => ?_
  rw [List.mem_range, decide_eq_true_eq]

theorem bbtList_push {m : Mem} {size : UInt8} {block : UInt16}
    (hsize : size.toNat = m.bbt.size.toNat + 1) :
    bbtList { m with bbt :=
      { m.bbt with size, table := Function.update m.bbt.table m.bbt.size.toNat block } } =
      bbtList m ++ [block.toNat] := by
  unfold bbtList
  dsimp only
  rw [hsize, List.range_succ, List.map_append, List.map_singleton, Function.update_self]
  refine congrArg (· ++ _) (List.map_congr_left fun i hi => ?_)
  rw [Function.update_of_ne (Nat.ne_of_lt (List.mem_range.mp hi))]

/-- Blocks of the user area that the table does not have are put behind its entries, and each
is marked. -/
theorem addAll_spec {blocks : List UInt32} {m : Mem} {d : Logged σ}
    (hroom : m.bbt.size.toNat + blocks.length ≤ 255)
    (hsane : ∀ block ∈ blocks, blockIndexIsSane node m block.toNat true = true)
    (hnew : ∀ block ∈ blocks, block.toNat ∉ bbtList m) (hdistinct : blocks.Nodup) :
    Completes (fun r => r.1 = { m with bbt := r.1.bbt } ∧
        bbtList r.1 = bbtList m ++ blocks.map UInt32.toNat ∧
        ∃ ops, r.2.log = d.log ++ ops ∧ (∀ e ∈ ops, ∃ b, e.1 = markOp b) ∧
          ∀ block ∈ blocks, Marked ops block.toNat)
      (addAll node chip.logged blocks m d) := by
  induction blocks generalizing m d with
  | nil =>
    refine completes_pure ⟨rfl, (List.append_nil _).symm, [], (List.append_nil _).symm, ?_, ?_⟩
    · simp
    · simp
  | cons block blocks ih =>
    obtain ⟨hnotMem, hrest⟩ := List.nodup_cons.mp hdistinct
    rw [List.length_cons] at hroom
    unfold addAll
    refine completes_bind (findUp_bbt m block.toNat) fun found hfound => ?_
    have hnone : found = none := by
      refine Option.not_isSome_iff_eq_none.mp fun hsome => ?_
      exact hnew block List.mem_cons_self (hfound.mp hsome)
    subst hnone
    have hbelow : m.bbt.size.toNat < MAX_BBT_SIZE :=
      Nat.lt_of_lt_of_le (m := 255) (by omega) (by decide)
    have hnotFull : m.bbt.size ≠ 0xff := by
      intro hfull
      rw [hfull] at hroom
      change 255 + _ ≤ 255 at hroom
      omega
    refine completes_bind (completes_check hbelow) fun _ _ => ?_
    refine completes_bind (completes_increase hnotFull) fun size hsize => ?_
    have hblock := hsane block List.mem_cons_self
    have hsmall : block.toNat < 2 ^ 16 := by
      have htotal : node.total < 2 ^ 16 := node.totalBlks.toNat_lt
      unfold blockIndexIsSane at hblock
      simp only [Bool.and_eq_true, decide_eq_true_eq] at hblock
      omega
    have hvalue : (UInt16.ofNat block.toNat).toNat = block.toNat :=
      UInt16.toNat_ofNat_of_lt' hsmall
    have hpush := @bbtList_push m size (UInt16.ofNat block.toNat) hsize
    rw [hvalue] at hpush
    dsimp only
    generalize hnext : ({ m with bbt := { m.bbt with
      size, table := Function.update m.bbt.table m.bbt.size.toNat (UInt16.ofNat block.toNat) } } :
      Mem) = next at *
    have hkeeps : next = { m with bbt := next.bbt } := by rw [← hnext]
    have hsame : ∀ b, blockIndexIsSane node next b true = blockIndexIsSane node m b true := by
      intro b
      rw [hkeeps]
      rfl
    have hsizeNext : next.bbt.size.toNat = m.bbt.size.toNat + 1 := by
      rw [← hnext]
      exact hsize
    obtain ⟨first, hfirst, hfirstAll, hmarked⟩ := @wMarkBad_logged σ node chip next block.toNat true
      ((hsame _).trans hblock) d
    refine (ih (by omega) ?_ ?_ hrest).mono ?_
    · intro other hother
      exact (hsame _).trans (hsane other (List.mem_cons_of_mem _ hother))
    · intro other hother hmem
      rw [hpush] at hmem
      rcases List.mem_append.mp hmem with hmem | hmem
      · exact hnew other (List.mem_cons_of_mem _ hother) hmem
      · have heq := UInt32.toNat.inj (List.mem_singleton.mp hmem)
        exact hnotMem (heq ▸ hother)
    · rintro r ⟨hmem, hlist, ops, hlog, hall, hmarks⟩
      refine ⟨?_, ?_, first ++ ops, ?_, ?_, ?_⟩
      · rw [hmem, hkeeps]
      · rw [hlist, hpush, List.append_assoc]
        rfl
      · rw [hlog, hfirst, List.append_assoc]
      · intro e he
        rcases List.mem_append.mp he with he | he
        · exact ⟨_, hfirstAll e he⟩
        · exact hall e he
      · intro other hother
        rcases List.mem_cons.mp hother with rfl | hother
        · exact hmarked.append_right ops
        · exact (hmarks other hother).append_left first

/-- The entries are put in order. -/
theorem sortBbt_spec (m : Mem) :
    Completes (fun table => (bbtList { m with bbt := { m.bbt with table } }).Perm (bbtList m) ∧
        (bbtList { m with bbt := { m.bbt with table } }).Pairwise (· ≤ ·))
      (sortBbt m.bbt.size m.bbt.table) := by
  refine completes_bind (completes_checkAll (size_le_bbt _)) fun _ _ => completes_pure ?_
  have hperm := List.perm_insertionSort (· ≤ ·) ((List.range m.bbt.size.toNat).map m.bbt.table)
  have hordered := List.pairwise_insertionSort (· ≤ ·)
    ((List.range m.bbt.size.toNat).map m.bbt.table)
  generalize ((List.range m.bbt.size.toNat).map m.bbt.table).insertionSort (· ≤ ·) = sorted at *
  have hlength : sorted.length = m.bbt.size.toNat := by
    rw [hperm.length_eq, List.length_map, List.length_range]
  have hlist : bbtList { m with bbt := { m.bbt with
      table := fun i => if i < m.bbt.size.toNat then sorted.getD i 0 else m.bbt.table i } } =
      sorted.map UInt16.toNat := by
    apply List.ext_getElem
    · rw [bbtList, List.length_map, List.length_map, List.length_range, hlength]
    · intro i hi hi'
      rw [List.length_map] at hi'
      simp only [bbtList, List.getElem_map, List.getElem_range]
      rw [if_pos (by omega), List.getD_eq_getElem sorted 0 hi']
  rw [hlist]
  refine ⟨?_, List.pairwise_map.mpr hordered⟩
  have htoNat := hperm.map UInt16.toNat
  rwa [List.map_map] at htoNat

end Add

/-! ## The update -/

/-- What the scan of the reserve area leaves. -/
structure Started (node : Node) (m : Mem) : Prop extends Fits node m where
  begin_pos : 0 < m.reserveAreaBegin
  begin_le : m.reserveAreaBegin ≤ node.total

/-- What is checked before anything is changed. -/
def Accepted (m : Mem) (blocks : List UInt32) : Prop :=
  m.bbt.version ≠ 0 ∧ m.bmt.version ≠ 0 ∧ (∀ block ∈ blocks, block.toNat < m.reserveAreaBegin) ∧
    blocks.length ≤ m.bbtTableSize

instance (m : Mem) (blocks : List UInt32) : Decidable (Accepted m blocks) :=
  inferInstanceAs (Decidable (_ ∧ _ ∧ _ ∧ _))

/-- The list is in place of the table, and of the flash only what it must change is changed. -/
structure Updated (blocks : List UInt32) (m m' : Mem) (log : List (Op × Bool)) : Prop where
  ascending : (bbtList m').Pairwise (· < ·)
  listed : ∀ b, b ∈ bbtList m' ↔ IsListed blocks b
  unmapped : ∀ b, IsListed blocks b → entriesOf m'.bmt b = []
  marked : ∀ b, IsListed blocks b → b ∉ bbtList m → Marked log b
  erased : ∀ b answer, (Op.erase b, answer) ∈ log → b < m.reserveAreaBegin →
    b ∈ bbtList m ∧ ¬ IsListed blocks b

/-- The list replaces the table where that may be written, and is compared with it where not. -/
def ReplacesOrCompares {σ : Type} (node : Node) (chip : Chip σ) (blocks : List UInt32) (m : Mem)
    (d : σ) : Prop :=
  Completes
    (fun r =>
      if m.canWriteFactoryBbt then r.1 = .ok → Updated blocks m r.2.1 r.2.2.log
      else r.2.1 = m ∧ r.2.2 = ⟨d, []⟩ ∧ (r.1 = .ok ↔ ∀ b, b ∈ bbtList m ↔ IsListed blocks b))
    (wFactoryBadblocks node chip.logged blocks m ⟨d, []⟩)

/-- Where the table may be written, the blocks can be taken out of the other table, and block 0
goes where any block goes. Where it may not, a table that has the blocks of the list has
none of them twice. -/
def Replaceable (node : Node) (blocks : List UInt32) (m : Mem) : Prop :=
  if m.canWriteFactoryBbt then
    Accepted m blocks → (∀ block ∈ blocks, Removable node m block.toNat) ∧
      ((∃ b ∈ bbtList m, ¬ IsListed blocks b) → 0 ∈ bbtList m ∧ ¬ IsListed blocks 0)
  else (∀ b, b ∈ bbtList m ↔ IsListed blocks b) → Accepted m blocks ∧ (bbtList m).Nodup

section Update

variable {σ : Type} {node : Node} {chip : Chip σ} {m : Mem} {d : σ} {blocks : List UInt32}

/-- Nothing that fails before the table is cleared is a success. -/
theorem wFactoryBadblocks_refused (h : ¬ Accepted m blocks) :
    ∃ ret ≠ .ok, wFactoryBadblocks node chip blocks m d = .ok (ret, m, d) := by
  unfold wFactoryBadblocks
  by_cases hversion : m.bbt.version = 0 ∨ m.bmt.version = 0
  · exact ⟨.einval, by decide, by rw [if_pos hversion]; rfl⟩
  by_cases hbegin : (blocks.any fun block => decide (block.toNat ≥ m.reserveAreaBegin)) = true
  · exact ⟨.einval, by decide, by rw [if_neg hversion, if_pos hbegin]; rfl⟩
  have hlength : blocks.length > m.bbtTableSize := by
    by_contra hle
    rw [not_or] at hversion
    refine h ⟨hversion.1, hversion.2, fun block hblock => ?_, by omega⟩
    by_contra hge
    exact hbegin (List.any_eq_true.mpr ⟨block, hblock, decide_eq_true (by omega)⟩)
  exact ⟨.enospc, by decide, by rw [if_neg hversion, if_neg hbegin, if_pos hlength]; rfl⟩

theorem wFactoryBadblocks_accepted (h : Accepted m blocks) :
    wFactoryBadblocks node chip blocks m d =
      if ¬ m.canWriteFactoryBbt then
        if m.bbt.size.toNat ≠ blocks.length then pure (.eio, m, d)
        else allListed m blocks >>= fun isListed => pure (if isListed then .ok else .eio, m, d)
      else
        clearBbt node chip blocks m.bbt.size.toNat m d >>= fun r =>
          unmapAll node chip blocks r.1 r.2 >>= fun r =>
            addAll node chip blocks r.1 r.2 >>= fun r =>
              sortBbt r.1.bbt.size r.1.bbt.table >>= fun table =>
                pure (.ok, { r.1 with
                  bbt := { r.1.bbt with table }, bbtDirty := r.1.bbtDirty + 1 }, r.2) := by
  obtain ⟨hbbt, hbmt, hbegin, hlength⟩ := h
  have hany : ¬ (blocks.any fun block => decide (block.toNat ≥ m.reserveAreaBegin)) = true := by
    rw [List.any_eq_true]
    rintro ⟨block, hblock, hge⟩
    have := hbegin block hblock
    have := of_decide_eq_true hge
    omega
  rw [wFactoryBadblocks, if_neg (not_or.mpr ⟨hbbt, hbmt⟩), if_neg hany, if_neg (by omega)]

/-- What `w_factory_badblocks` does where the table may be written. -/
theorem wFactoryBadblocks_update (hstarted : Started node m) (haccepted : Accepted m blocks)
    (hwrite : m.canWriteFactoryBbt = true) (hdistinct : blocks.Nodup)
    (hlength : blocks.length ≤ 255) (d : Logged σ) :
    Completes
      (fun r => (r.1 = .ok ∧ (bbtList r.2.1).Pairwise (· < ·) ∧
        (∀ b, b ∈ bbtList r.2.1 ↔ IsListed blocks b) ∧
        ∀ b, IsListed blocks b → (entriesOf r.2.1.bmt b = [] ↔ Removable node m b)) ∧
        ∃ erases marks, r.2.2.log = d.log ++ (erases ++ marks) ∧
          (∀ e ∈ erases, e.1 = .erase 0) ∧
          (erases ≠ [] ↔ ∃ b ∈ bbtList m, ¬ IsListed blocks b) ∧
          (∀ e ∈ marks, ∃ b, e.1 = markOp b) ∧ ∀ block ∈ blocks, Marked marks block.toNat)
      (wFactoryBadblocks node chip.logged blocks m d) := by
  have hbegin : m.reserveAreaBegin ≤ 2 ^ 16 :=
    Nat.le_trans hstarted.begin_le (Nat.le_of_lt node.totalBlks.toNat_lt)
  have huser : ∀ b < m.reserveAreaBegin, blockIndexIsSane node m b true = true := by
    intro b hb
    have hpos := hstarted.begin_le
    simp only [blockIndexIsSane, if_true, Bool.and_eq_true, decide_eq_true_eq]
    omega
  rw [wFactoryBadblocks_accepted haccepted, if_neg (not_not.mpr hwrite)]
  -- the table is cleared
  refine completes_bind (clearBbt_spec rfl) ?_
  rintro ⟨m₁, d₁⟩ ⟨hm₁, hnone₁, erases, hlog₁, herases, hsome⟩
  dsimp only at hm₁ hnone₁ hlog₁
  have hfits₁ : Fits node m₁ := by
    rw [hm₁]
    exact ⟨hstarted.reserve, hstarted.bbtTableSize⟩
  have hbegin₁ : m₁.reserveAreaBegin = m.reserveAreaBegin := by rw [hm₁]
  have hremovable₁ : ∀ b, Removable node m₁ b ↔ Removable node m b := by
    intro b
    rw [hm₁]
    rfl
  -- the blocks are taken out of the other table
  refine completes_bind (unmapAll_spec hfits₁ hnone₁ ?_ ?_ hdistinct) ?_
  · intro block hblock
    rw [hbegin₁]
    exact haccepted.2.2.1 block hblock
  · rw [hbegin₁]
    exact hbegin
  rintro ⟨m₂, d₂⟩ ⟨hd₂, halike, -, -, hown⟩
  have hnil₂ : bbtList m₂ = [] := by
    rw [bbtList, halike.bbt, hnone₁]
    rfl
  -- the blocks are added
  refine completes_bind (addAll_spec ?_ ?_ ?_ hdistinct) ?_
  · rw [halike.bbt, hnone₁]
    omega
  · intro block hblock
    have hsane := huser block.toNat (haccepted.2.2.1 block hblock)
    unfold blockIndexIsSane at hsane ⊢
    rwa [halike.reserveAreaBegin, hbegin₁]
  · intro block _
    rw [hnil₂]
    exact List.not_mem_nil
  rintro ⟨m₃, d₃⟩ ⟨hm₃, hlist₃, marks, hlog₃, hmarks, hmarked⟩
  refine completes_bind (sortBbt_spec m₃) fun table htable => completes_pure ?_
  obtain ⟨hperm, hordered⟩ := htable
  dsimp only at *
  rw [hnil₂, List.nil_append] at hlist₃
  rw [hlist₃] at hperm
  have hnodup : (blocks.map UInt32.toNat).Nodup :=
    hdistinct.map fun _ _ h => UInt32.toNat.inj h
  refine ⟨⟨rfl, ?_, ?_, ?_⟩, erases, marks, ?_, herases, ?_, hmarks, hmarked⟩
  · exact (hordered.and (hperm.nodup_iff.mpr hnodup)).imp fun h => Nat.lt_of_le_of_ne h.1 h.2
  · intro b
    refine hperm.mem_iff.trans ?_
    rw [List.mem_map]
    rfl
  · intro b hb
    have hbmt : m₃.bmt = m₂.bmt := by rw [hm₃]
    rw [hbmt, ← hremovable₁]
    exact hown b hb
  · rw [hlog₃, hd₂, hlog₁, List.append_assoc]
  · rw [hsome]
    exact and_iff_right (huser 0 hstarted.begin_pos)

theorem erase_mem_iff {erases marks : List (Op × Bool)} (herases : ∀ e ∈ erases, e.1 = .erase 0)
    (hmarks : ∀ e ∈ marks, ∃ b, e.1 = markOp b) (b : ℕ) :
    (∃ answer, (Op.erase b, answer) ∈ erases ++ marks) ↔ b = 0 ∧ erases ≠ [] := by
  constructor
  · rintro ⟨answer, hmem⟩
    rcases List.mem_append.mp hmem with hmem | hmem
    · have hzero : Op.erase b = .erase 0 := herases _ hmem
      exact ⟨Op.erase.inj hzero, List.ne_nil_of_mem hmem⟩
    · obtain ⟨other, hmark⟩ := hmarks _ hmem
      cases hmark
  · rintro ⟨rfl, hne⟩
    obtain ⟨⟨op, answer⟩, hmem⟩ := List.exists_mem_of_ne_nil erases hne
    have hop : op = .erase 0 := herases _ hmem
    exact ⟨answer, List.mem_append_left _ (hop ▸ hmem)⟩

theorem mem_isListed {block : UInt32} (h : block ∈ blocks) : IsListed blocks block.toNat :=
  ⟨block, h, rfl⟩

/-- Where the table may be written. -/
theorem replaces_iff (hstarted : Started node m) (haccepted : Accepted m blocks)
    (hwrite : m.canWriteFactoryBbt = true) (hdistinct : blocks.Nodup)
    (hlength : blocks.length ≤ 255) (d : σ) :
    ∃ r, wFactoryBadblocks node chip.logged blocks m ⟨d, []⟩ = .ok r ∧ r.1 = .ok ∧
      (Updated blocks m r.2.1 r.2.2.log ↔ (∀ block ∈ blocks, Removable node m block.toNat) ∧
        ((∃ b ∈ bbtList m, ¬ IsListed blocks b) → 0 ∈ bbtList m ∧ ¬ IsListed blocks 0)) := by
  obtain ⟨r, hrun, ⟨hok, hascending, hlisted, hown⟩, erases, marks, hlog, herases, hsome, hmarks,
    hmarked⟩ := (@wFactoryBadblocks_update σ node chip m blocks hstarted haccepted hwrite hdistinct
      hlength ⟨d, []⟩).exists_ok
  rw [List.nil_append] at hlog
  refine ⟨r, hrun, hok, ?_⟩
  constructor
  · intro hupdated
    refine ⟨fun block hblock => ?_, fun hgone => ?_⟩
    · exact (hown _ (mem_isListed hblock)).mp (hupdated.unmapped _ (mem_isListed hblock))
    · obtain ⟨answer, hmem⟩ := (erase_mem_iff herases hmarks 0).mpr ⟨rfl, hsome.mpr hgone⟩
      exact hupdated.erased 0 answer (hlog ▸ hmem) hstarted.begin_pos
  · rintro ⟨hremovable, hzero⟩
    refine ⟨hascending, hlisted, ?_, ?_, ?_⟩
    · rintro b ⟨block, hblock, rfl⟩
      exact (hown _ (mem_isListed hblock)).mpr (hremovable block hblock)
    · rintro b ⟨block, hblock, rfl⟩ -
      rw [hlog]
      exact (hmarked block hblock).append_left erases
    · intro b answer hmem _
      rw [hlog] at hmem
      obtain ⟨rfl, hne⟩ := (erase_mem_iff herases hmarks b).mp ⟨answer, hmem⟩
      exact hzero (hsome.mp hne)

/-- The comparison with a table that has as many entries as the list. -/
theorem allListed_spec {m : Mem} (h : m.bbt.size ≠ 0) (blocks : List UInt32) :
    Completes (fun r => r = true ↔ ∀ block ∈ blocks, block.toNat ∈ bbtList m)
      (allListed m blocks) := by
  induction blocks with
  | nil => exact completes_pure (iff_of_true rfl fun _ hmem => absurd hmem List.not_mem_nil)
  | cons block blocks ih =>
    refine completes_bind (findUp_bbt m block.toNat) fun found hfound => ?_
    rw [List.forall_mem_cons, ← hfound]
    cases found with
    | none =>
      dsimp only
      rw [if_neg h]
      exact completes_pure (by simp)
    | some j => exact ih.mono fun r hr => hr.trans (by simp)

/-- The entries are the blocks of the list in some order. -/
theorem perm_iff (hdistinct : blocks.Nodup) :
    (bbtList m).Perm (blocks.map UInt32.toNat) ↔
      (∀ b, b ∈ bbtList m ↔ IsListed blocks b) ∧ (bbtList m).Nodup := by
  have hnodup : (blocks.map UInt32.toNat).Nodup :=
    hdistinct.map fun _ _ h => UInt32.toNat.inj h
  have hmem : ∀ b, b ∈ blocks.map UInt32.toNat ↔ IsListed blocks b := fun b => List.mem_map
  constructor
  · intro hperm
    exact ⟨fun b => hperm.mem_iff.trans (hmem b), hperm.nodup_iff.mpr hnodup⟩
  · rintro ⟨hsame, hnodup'⟩
    apply (List.perm_ext_iff_of_nodup hnodup' hnodup).mpr
    exact fun b => (hsame b).trans (hmem b).symm

/-- Where the table may not be written nothing is changed. -/
theorem compares_iff (haccepted : Accepted m blocks) (hwrite : ¬ m.canWriteFactoryBbt = true)
    (hdistinct : blocks.Nodup) (d : σ) :
    ∃ ret, wFactoryBadblocks node chip blocks m d = .ok (ret, m, d) ∧
      (ret = .ok ↔ (bbtList m).Perm (blocks.map UInt32.toNat)) := by
  have hsize : (bbtList m).length = m.bbt.size.toNat := by
    rw [bbtList, List.length_map, List.length_range]
  rw [wFactoryBadblocks_accepted haccepted, if_pos hwrite]
  by_cases hcount : m.bbt.size.toNat = blocks.length
  case neg =>
    rw [if_pos hcount]
    refine ⟨.eio, rfl, iff_of_false (by decide) fun hperm => hcount ?_⟩
    have hlength := hperm.length_eq
    rwa [hsize, List.length_map] at hlength
  case pos =>
    rw [if_neg (not_not.mpr hcount)]
    have hlisted : Completes (fun r => r = true ↔ ∀ block ∈ blocks, block.toNat ∈ bbtList m)
        (allListed m blocks) := by
      by_cases hempty : m.bbt.size = 0
      · have hnil : blocks = [] := List.eq_nil_of_length_eq_zero (by rw [← hcount, hempty]; rfl)
        subst hnil
        exact completes_pure (by simp)
      · exact allListed_spec hempty blocks
    obtain ⟨isListed, hrun, hall⟩ := hlisted.exists_ok
    rw [hrun]
    refine ⟨if isListed then .ok else .eio, rfl, ?_⟩
    have hret : (if isListed then Ret.ok else .eio) = .ok ↔ isListed = true := by
      cases isListed
      · exact iff_of_false (by decide) (by decide)
      · exact iff_of_true rfl rfl
    rw [hret, hall]
    constructor
    · intro hsubset
      have hnodup : (blocks.map UInt32.toNat).Nodup :=
        hdistinct.map fun _ _ h => UInt32.toNat.inj h
      have hsub : (blocks.map UInt32.toNat).Subperm (bbtList m) := by
        apply hnodup.subperm
        intro b hb
        obtain ⟨block, hblock, rfl⟩ := List.mem_map.mp hb
        exact hsubset block hblock
      exact (hsub.perm_of_length_le (by rw [hsize, List.length_map, hcount])).symm
    · intro hperm block hblock
      exact hperm.mem_iff.mpr (List.mem_map.mpr ⟨block, hblock, rfl⟩)

/-- A list of distinct blocks replaces the table exactly when its blocks can be taken out of the
other table and nothing but block 0 goes, and is compared with a table that has no block
twice. -/
theorem replacesOrCompares_iff (hstarted : Started node m) (hdistinct : blocks.Nodup)
    (hlength : blocks.length ≤ 255) :
    ReplacesOrCompares node chip blocks m d ↔ Replaceable node blocks m := by
  unfold ReplacesOrCompares Replaceable
  by_cases haccepted : Accepted m blocks
  case neg =>
    obtain ⟨ret, hret, hrun⟩ := @wFactoryBadblocks_refused (Logged σ) node
      chip.logged m ⟨d, []⟩ blocks haccepted
    rw [hrun]
    by_cases hwrite : m.canWriteFactoryBbt = true
    · simp only [if_pos hwrite]
      exact iff_of_true (fun hok => absurd hok hret) fun h => absurd h haccepted
    · simp only [if_neg hwrite]
      constructor
      · rintro ⟨-, -, hiff⟩ hsame
        exact absurd (hiff.mpr hsame) hret
      · intro h
        exact ⟨rfl, rfl, iff_of_false hret fun hsame => haccepted (h hsame).1⟩
  case pos =>
    by_cases hwrite : m.canWriteFactoryBbt = true
    · obtain ⟨r, hrun, hok, hiff⟩ := @replaces_iff σ node chip m blocks hstarted haccepted hwrite
        hdistinct hlength d
      rw [hrun]
      simp only [if_pos hwrite]
      refine Iff.trans ?_ (hiff.trans ?_)
      · exact ⟨fun h => h hok, fun h _ => h⟩
      · exact ⟨fun h _ => h, fun h => h haccepted⟩
    · obtain ⟨ret, hrun, hiff⟩ := @compares_iff (Logged σ) node chip.logged m blocks haccepted
        hwrite hdistinct ⟨d, []⟩
      rw [hrun]
      simp only [if_neg hwrite]
      rw [perm_iff hdistinct] at hiff
      constructor
      · rintro ⟨-, -, hcompares⟩ hsame
        exact ⟨haccepted, (hiff.mp (hcompares.mpr hsame)).2⟩
      · intro h
        refine ⟨rfl, rfl, hiff.trans ⟨And.left, fun hsame => ⟨hsame, (h hsame).2⟩⟩⟩

end Update

/-! ## Block 5 goes -/

/-- A flash of 100 blocks, the last 20 of them kept, whose table of bad blocks may be written. -/
def smallNode : Node where
  totalBlks := 100
  bbtTableSize := none
  assertReserveSize := none
  canWriteFactoryBbt := true
  factoryBadblocks := some []
  factoryBadblocks_le blocks h := by
    cases h
    decide
  enableRemap := true
  remapPartitions := []

/-- A table of factory bad blocks with one entry. -/
def oneBad (b : UInt16) : Mem :=
  { Mem.initial 1000 with
    bbt := ⟨1, 1, fun i => if i = 0 then b else 0⟩
    bmt := { Bmt.zero with version := 1 }
    allocated := 100
    reserveAreaBegin := 80
    canWriteFactoryBbt := true }

theorem started_oneBad (b : UInt16) : Started smallNode (oneBad b) :=
  { reserve := by
      change 100 - 80 ≤ 100
      decide
    bbtTableSize := Nat.le_refl 1000
    begin_pos := by
      change 0 < 80
      decide
    begin_le := by
      change 80 ≤ 100
      decide }

/-- Where block 0 is the entry that goes, it is erased. -/
theorem replacesOrCompares_zero : ReplacesOrCompares smallNode blankChip [] (oneBad 0) () := by
  apply (replacesOrCompares_iff (started_oneBad 0) List.nodup_nil (by decide)).mpr
  have hwrite : (oneBad 0).canWriteFactoryBbt = true := rfl
  rw [Replaceable, if_pos hwrite]
  refine fun _ => ⟨fun block hblock => absurd hblock List.not_mem_nil, fun _ => ⟨by decide, ?_⟩⟩
  decide

/-- Where block 5 is the entry that goes, block 0 is erased. -/
theorem not_replacesOrCompares_five :
    Started smallNode (oneBad 5) ∧ ¬ ReplacesOrCompares smallNode blankChip [] (oneBad 5) () := by
  refine ⟨started_oneBad 5, fun h => ?_⟩
  obtain ⟨m', hrun⟩ : ∃ m', wFactoryBadblocks smallNode blankChip.logged [] (oneBad 5) ⟨(), []⟩ =
      .ok (.ok, m', ⟨(), [(.erase 0, true)]⟩) := ⟨_, rfl⟩
  unfold ReplacesOrCompares at h
  rw [hrun] at h
  have hupdated : Updated [] (oneBad 5) m' [(.erase 0, true)] := h rfl
  have hold := (hupdated.erased 0 true List.mem_cons_self (started_oneBad 5).begin_pos).1
  exact absurd hold (by decide)

end OpenWrt.MtkBmt.En75.Checked
