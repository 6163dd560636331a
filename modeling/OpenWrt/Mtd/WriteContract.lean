/-
# What a written image looks like

A successful write puts the image, padded to the block, into the good blocks from the
requested start on, in order, and erases each of them right before. This holds where the
block that is tested is the one that is erased and written, where no partition is left after
a bad block was skipped in it, and where the image is read and erased for as a matter of
course. Otherwise the offsets of the loop no longer belong together.
-/

import Mathlib.Logic.Function.Iterate
import OpenWrt.Mtd.Write

namespace OpenWrt.Mtd

/-! ## What is asked for -/

/-- A block of a partition. -/
structure Block where
  part : ℕ
  start : ℕ
  size : ℕ

namespace Partition

variable (p : Partition) (partOffset : ℕ)

/-- The start of a block, counted from the requested one. -/
def start (k : ℕ) : ℕ :=
  partOffset + k * p.erasesize

/-- What the test of the erase loop says of the block. -/
def tested (k : ℕ) : Option Bool :=
  p.blockIsBad (toInt (k * p.erasesize))

end Partition

namespace Args

variable (args : Args)

/-- The blocks to write, in order, and the place after them: bad blocks are left out, and a
block that cannot be erased ends its partition. -/
inductive Taken : List Block → ℕ → Partition → List Partition → ℕ → Prop
  | start : Taken [] 0 args.first args.rest 0
  | bad {blocks part p ps k} (prior : Taken blocks part p ps k)
      (isBad : p.blockIsBad (p.start args.partOffset k) = some true) :
      Taken blocks part p ps (k + 1)
  | good {blocks part p ps k} (prior : Taken blocks part p ps k)
      (isGood : p.blockIsBad (p.start args.partOffset k) = some false)
      (erases : p.memErase (p.start args.partOffset k) = true) :
      Taken (blocks ++ [⟨part, p.start args.partOffset k, p.erasesize⟩]) part p ps (k + 1)
  | next {blocks part p q ps k} (prior : Taken blocks part p (q :: ps) k)
      (isGood : p.blockIsBad (p.start args.partOffset k) ≠ some true)
      (ends : p.memErase (p.start args.partOffset k) = false) : Taken blocks (part + 1) q ps 0

def bytesOf (reads : List Read) : List UInt8 :=
  reads.flatMap fun read =>
    match read with
    | .data first more => first :: more
    | .again | .failed => []

def image : List UInt8 :=
  args.checked ++ bytesOf args.reads

end Args

def written (blocks : List Block) (chunks : List (List UInt8)) : List Op :=
  (blocks.zip chunks).flatMap fun pair =>
    [.erase pair.1.part pair.1.start, .write pair.1.part pair.1.start pair.2]

/-- What is done to the partitions is to erase and write the right blocks, and these hold the
image, padded to the last of them. -/
def Args.Contract (args : Args) (log : List Op) : Prop :=
  ∃ blocks chunks part p ps k pad, args.Taken blocks part p ps k ∧
    chunks.map List.length = blocks.map Block.size ∧
    chunks.flatten = args.image ++ List.replicate pad 0xff ∧
    (pad ≠ 0 → ∃ block ∈ blocks.getLast?, pad < block.size) ∧
    log = written blocks chunks

/-! ## When the offsets belong together -/

namespace Partition

variable (p : Partition) (partOffset : ℕ)

def goodBefore (k : ℕ) : ℕ :=
  (List.range k).countP fun j => p.tested j = some false

/-- The loop gets to the block, with data left to write. -/
structure Reaches (n k : ℕ) : Prop where
  passed : ∀ j < k, p.tested j = some true ∨
    p.tested j = some false ∧ p.eraseBlock (p.start partOffset j) = true
  left : p.goodBefore k < n

/-- The test speaks of the block that is erased. -/
def TestFits (k : ℕ) : Prop :=
  ∀ isBad, p.tested k = some isBad →
    (isBad = true ↔ p.blockIsBad (p.start partOffset k) = some true)

end Partition

/-- For the blocks that are still to be written, the tests speak of the blocks that are
erased, and a partition that is left has no bad block before the end; the next one has the
same erase size. -/
def CleanFrom (partOffset : ℕ) : ℕ → Partition → List Partition → Prop
  | n, p, [] => ∀ k, p.Reaches partOffset n k → p.TestFits partOffset k
  | n, p, q :: ps => ∀ k, p.Reaches partOffset n k → p.TestFits partOffset k ∧
      (p.tested k = some false → p.eraseBlock (p.start partOffset k) = false →
        (∀ j < k, p.tested j = some false) ∧ q.erasesize = p.erasesize ∧
          CleanFrom partOffset (n - k) q ps)

namespace Args

variable (args : Args)

/-- The number of blocks that the image takes. -/
def blockCount : ℕ :=
  (args.image.length + args.first.erasesize - 1) / args.first.erasesize

/-- The offsets of the loop belong together. -/
structure Clean : Prop where
  erases : args.noErase = false
  reads : ∀ read ∈ args.reads, read ≠ .failed
  offset : args.partOffset < 2 ^ 32
  blocks : CleanFrom args.partOffset args.blockCount args.first args.rest

end Args

/-! ## Blocks -/

namespace Partition

variable {p : Partition} {partOffset k : ℕ}

theorem goodBefore_succ :
    p.goodBefore (k + 1) = p.goodBefore k + if p.tested k = some false then 1 else 0 := by
  unfold goodBefore
  rw [List.range_succ, List.countP_append, List.countP_singleton]
  simp only [decide_eq_true_eq]

theorem goodBefore_eq (h : ∀ j < k, p.tested j = some false) : p.goodBefore k = k := by
  unfold goodBefore
  rw [List.countP_eq_length.mpr fun j hj => decide_eq_true (h j (List.mem_range.mp hj)),
    List.length_range]

theorem start_succ : p.start partOffset (k + 1) = p.start partOffset k + p.erasesize := by
  unfold start
  rw [Nat.succ_mul, Nat.add_assoc]

theorem eraseStart_of_lt {offset : ℕ} (h : offset < 2 ^ 32) : eraseStart offset = offset :=
  Nat.mod_eq_of_lt h

theorem le_size_of_memErase {start : ℕ} (h : p.memErase start = true) :
    start + p.erasesize ≤ p.size :=
  of_decide_eq_true (Bool.and_eq_true_iff.mp h).1

theorem blockIsBad_of_lt {start : ℕ} (h : start < p.size) :
    ∃ isBad, p.blockIsBad start = some isBad := by
  unfold blockIsBad getBadBlock
  split
  · rw [if_pos (by omega)]
    exact ⟨_, rfl⟩
  · exact ⟨_, rfl⟩

theorem lt_of_blockIsBad {start : ℕ} (h : p.blockIsBad start = some true) : start < p.size := by
  unfold blockIsBad getBadBlock at h
  split at h
  · split at h
    case isTrue hlt => omega
    case isFalse => cases h
  · cases h

theorem le_of_write_eq {pos len : ℕ} (hlen : 0 < len) (h : ¬ p.write pos len < len) :
    p.write pos len = len ∧ pos + len ≤ p.size := by
  unfold write at h ⊢
  omega

end Partition

theorem CleanFrom.testFits {partOffset n k : ℕ} {p : Partition} {ps : List Partition}
    (h : CleanFrom partOffset n p ps) (hreaches : p.Reaches partOffset n k) :
    p.TestFits partOffset k := by
  cases ps with
  | nil => exact h k hreaches
  | cons q ps => exact (h k hreaches).1

/-! ## The invariant -/

namespace Args

variable {args : Args} {s : State} {blocks : List Block} {chunks : List (List UInt8)} {k : ℕ}

/-- The place in the partition: block `k` is the next one, and what was done is what is asked
for so far. -/
structure At (args : Args) (s : State) (blocks : List Block) (chunks : List (List UInt8))
    (k : ℕ) : Prop where
  taken : args.Taken blocks s.part s.cur s.next k
  sizes : chunks.map List.length = blocks.map Block.size
  same : ∀ block ∈ blocks, block.size = s.cur.erasesize
  first : s.cur.erasesize = args.first.erasesize
  log : s.log = written blocks chunks
  e : s.e = k * s.cur.erasesize
  w : s.w = s.cur.goodBefore k * s.cur.erasesize
  balance : s.w + s.skipBadBlocks = s.e
  offset : s.offset = 0
  passed : ∀ j < k, s.cur.tested j = some true ∨
    s.cur.tested j = some false ∧ s.cur.eraseBlock (s.cur.start args.partOffset j) = true
  pos : s.cur.start args.partOffset k ≤ s.cur.size → s.pos = s.cur.start args.partOffset k
  start_lt : s.cur.start args.partOffset k < 2 ^ 32
  clean : ∃ n, CleanFrom args.partOffset n s.cur s.next ∧
    s.cur.goodBefore k + args.blockCount = n + chunks.length

/-- The data that is written, in the buffer and not read yet is the image, with a padding when
all of it was read. -/
structure Holds (args : Args) (s : State) (chunks : List (List UInt8)) : Prop where
  data : ∃ pad, chunks.flatten ++ s.buf ++ bytesOf s.reads =
      args.image ++ List.replicate pad 0xff ∧ pad < s.cur.erasesize ∧
    (pad = 0 ∨ bytesOf s.reads = [] ∧ (s.buf = [] ∨ s.buf.length = s.cur.erasesize))
  reads : ∀ read ∈ s.reads, read ≠ .failed
  buf : s.buf.length ≤ s.cur.erasesize

/-- The block before `s` was erased for the data in the buffer. -/
structure Erased (args : Args) (s before : State) (blocks : List Block)
    (chunks : List (List UInt8)) (k : ℕ) : Prop where
  here : args.At before blocks chunks k
  holds : args.Holds before chunks
  full : before.buf.length = before.cur.erasesize
  tested : before.cur.tested k = some false
  erases : before.cur.eraseBlock (before.cur.start args.partOffset k) = true
  eq : s = { before with
    phase := s.phase
    e := before.e + before.cur.erasesize
    log := before.log ++ [.erase before.part (before.cur.start args.partOffset k)] }

def Inv (args : Args) (s : State) : Prop :=
  match s.phase with
  | .fill => ∃ blocks chunks k, args.At s blocks chunks k ∧ args.Holds s chunks
  | .filled => ∃ blocks chunks k, args.At s blocks chunks k ∧ args.Holds s chunks ∧
      (s.buf.length < s.cur.erasesize → s.reads = [])
  | .erase => (∃ blocks chunks k, args.At s blocks chunks k ∧ args.Holds s chunks ∧
      s.buf.length = s.cur.erasesize) ∨ ∃ before blocks chunks k, args.Erased s before blocks chunks k
  | .write => ∃ before blocks chunks k, args.Erased s before blocks chunks k
  | .done => args.Contract s.log
  | .exit => True
  | .fault => False

theorem At.set (h : args.At s blocks chunks k) (phase : Phase) (buf : List UInt8)
    (reads : List Read) : args.At { s with phase, buf, reads } blocks chunks k :=
  ⟨h.taken, h.sizes, h.same, h.first, h.log, h.e, h.w, h.balance, h.offset, h.passed, h.pos,
    h.start_lt, h.clean⟩

/-! ## Reading -/

theorem bytesOf_cons_data (first : UInt8) (more : List UInt8) (reads : List Read) :
    bytesOf (.data first more :: reads) = first :: more ++ bytesOf reads := rfl

theorem bytesOf_putBack (bytes : List UInt8) (reads : List Read) :
    bytesOf (Read.putBack bytes reads) = bytes ++ bytesOf reads := by
  cases bytes with
  | nil => rfl
  | cons first more => rfl

theorem putBack_ne_failed {bytes : List UInt8} {reads : List Read}
    (h : ∀ read ∈ reads, read ≠ .failed) : ∀ read ∈ Read.putBack bytes reads, read ≠ .failed := by
  cases bytes with
  | nil => exact h
  | cons first more =>
    intro read hmem
    rcases List.mem_cons.mp hmem with rfl | hmem
    · exact nofun
    · exact h read hmem

/-- One read keeps the invariant. -/
theorem inv_fill (h : args.At s blocks chunks k) (hholds : args.Holds s chunks)
    (hphase : s.phase = .fill) : args.Inv (args.fill s) := by
  obtain ⟨⟨pad, hdata, hpad, hstate⟩, hreads, hbuf⟩ := hholds
  unfold fill
  split
  case isFalse hfull =>
    exact ⟨blocks, chunks, k, h.set .filled s.buf s.reads,
      ⟨⟨pad, hdata, hpad, hstate⟩, hreads, hbuf⟩, fun hlt => absurd hlt hfull⟩
  case isTrue hlt =>
    cases hs : s.reads with
    | nil =>
      rw [hs] at hdata hreads hstate
      exact ⟨blocks, chunks, k, h.set .filled s.buf [],
        ⟨⟨pad, hdata, hpad, hstate⟩, hreads, hbuf⟩, fun _ => rfl⟩
    | cons read reads =>
      rw [hs] at hdata hreads hstate
      have hrest : ∀ read ∈ reads, read ≠ .failed := fun read hmem =>
        hreads read (List.mem_cons_of_mem _ hmem)
      cases read with
      | failed => exact absurd rfl (hreads .failed List.mem_cons_self)
      | again =>
        unfold Inv
        dsimp only
        rw [hphase]
        exact ⟨blocks, chunks, k, hphase ▸ h.set s.phase s.buf reads,
          ⟨pad, hdata, hpad, hstate⟩, hrest, hbuf⟩
      | data first more =>
        -- there is data left, so nothing was padded
        have hzero : pad = 0 := by
          rcases hstate with hzero | ⟨hnone, -⟩
          · exact hzero
          · cases hnone
        subst hzero
        have hlen : ((first :: more).take (s.cur.erasesize - s.buf.length)).length ≤
            s.cur.erasesize - s.buf.length := List.length_take_le _ _
        dsimp only
        rw [if_neg (by rw [← h.first]; omega)]
        unfold Inv
        dsimp only
        rw [hphase]
        refine ⟨blocks, chunks, k, hphase ▸ h.set s.phase _ _, ⟨0, ?_, hpad, .inl rfl⟩, ?_, ?_⟩
        · dsimp only
          rw [bytesOf_putBack, ← hdata, bytesOf_cons_data, List.append_assoc,
            List.append_assoc, ← List.append_assoc (List.take _ _), List.take_append_drop,
            List.append_assoc]
        · exact putBack_ne_failed hrest
        · dsimp only
          rw [List.length_append]
          omega

/-- The padding keeps the invariant; without data the image is written. -/
theorem inv_filled (h : args.At s blocks chunks k) (hholds : args.Holds s chunks)
    (heof : s.buf.length < s.cur.erasesize → s.reads = []) : args.Inv (args.filled s) := by
  obtain ⟨⟨pad, hdata, hpad, hstate⟩, hreads, hbuf⟩ := hholds
  have hpos := s.cur.erasesize_pos
  unfold filled
  split
  case isTrue hnone =>
    rw [hnone, heof (by rw [hnone]; exact hpos)] at hdata
    refine ⟨blocks, chunks, s.part, s.cur, s.next, k, pad, h.taken, h.sizes, ?_, ?_, h.log⟩
    · rw [← hdata, List.append_nil]
      exact (List.append_nil _).symm
    · intro hne
      cases hlast : blocks.getLast? with
      | some block =>
        refine ⟨block, rfl, ?_⟩
        rw [h.same block (List.mem_of_getLast? hlast)]
        exact hpad
      | none =>
        -- without blocks there are no chunks, so nothing was padded
        have hblocks : blocks = [] := List.getLast?_eq_none_iff.mp hlast
        have hchunks : chunks = [] := by
          have hsizes := h.sizes
          rw [hblocks] at hsizes
          exact List.map_eq_nil_iff.mp hsizes
        rw [hchunks] at hdata
        have hlen : 0 = (args.image ++ List.replicate pad 0xff).length :=
          congrArg List.length hdata
        rw [List.length_append, List.length_replicate] at hlen
        omega
  case isFalse hsome =>
    have hbufpos : 0 < s.buf.length := List.length_pos_iff.mpr hsome
    split
    case isFalse hfull =>
      refine .inl ⟨blocks, chunks, k, h.set .erase s.buf s.reads,
        ⟨⟨pad, hdata, hpad, hstate⟩, hreads, hbuf⟩, ?_⟩
      exact Nat.le_antisymm hbuf (Nat.le_of_not_lt hfull)
    case isTrue hlt =>
      rw [if_neg (by rw [← h.first]; exact Nat.lt_irrefl _)]
      have hnone := heof hlt
      have hzero : pad = 0 := by
        rcases hstate with hzero | ⟨-, hempty | hfull⟩
        · exact hzero
        · exact absurd hempty hsome
        · omega
      subst hzero
      have hlen : (s.buf ++ List.replicate (s.cur.erasesize - s.buf.length) 0xff).length =
          s.cur.erasesize := by
        rw [List.length_append, List.length_replicate]
        omega
      refine .inl ⟨blocks, chunks, k, h.set .erase _ s.reads,
        ⟨⟨s.cur.erasesize - s.buf.length, ?_, ?_, .inr ⟨?_, .inr hlen⟩⟩, hreads, ?_⟩, hlen⟩
      · dsimp only
        rw [hnone] at hdata ⊢
        rw [List.replicate_zero, List.append_nil] at hdata
        rw [← hdata]
        simp [bytesOf]
      · dsimp only
        omega
      · dsimp only
        rw [hnone]
        rfl
      · exact Nat.le_of_eq hlen

/-! ## Erasing -/

/-- A full buffer is one of the blocks of the image. -/
theorem Holds.lt_blockCount (h : args.At s blocks chunks k) (hholds : args.Holds s chunks)
    (hfull : s.buf.length = s.cur.erasesize) : chunks.length < args.blockCount := by
  obtain ⟨⟨pad, hdata, hpad, -⟩, -, -⟩ := hholds
  have hpos := s.cur.erasesize_pos
  have hflat : chunks.flatten.length = chunks.length * s.cur.erasesize := by
    rw [List.length_flatten, h.sizes]
    have hsame : blocks.map Block.size = List.replicate chunks.length s.cur.erasesize := by
      refine List.eq_replicate_iff.mpr ⟨?_, fun size hsize => ?_⟩
      · have hlen := congrArg List.length h.sizes
        rw [List.length_map] at hlen
        exact hlen.symm
      · obtain ⟨block, hblock, rfl⟩ := List.mem_map.mp hsize
        exact h.same block hblock
    rw [hsame, List.sum_replicate_nat]
  have hlen := congrArg List.length hdata
  rw [List.length_append, List.length_append, List.length_append, List.length_replicate, hflat,
    hfull] at hlen
  unfold blockCount
  rw [← h.first]
  refine Nat.lt_of_lt_of_le (Nat.lt_succ_self _) ((Nat.le_div_iff_mul_le hpos).mpr ?_)
  rw [Nat.succ_mul]
  omega

theorem At.reaches (h : args.At s blocks chunks k) {n : ℕ}
    (hlt : chunks.length < args.blockCount)
    (hcount : s.cur.goodBefore k + args.blockCount = n + chunks.length) :
    s.cur.Reaches args.partOffset n k :=
  ⟨h.passed, by omega⟩

theorem At.test_int (h : args.At s blocks chunks k) :
    s.cur.blockIsBad (toInt s.e) = s.cur.tested k := by
  rw [h.e]
  rfl

theorem At.start_eq (h : args.At s blocks chunks k) :
    s.e + args.partOffset = s.cur.start args.partOffset k := by
  rw [h.e, Nat.add_comm]
  rfl

theorem At.skip (h : args.At s blocks chunks k) (htested : s.cur.tested k = some true)
    (hbad : s.cur.blockIsBad (s.cur.start args.partOffset k) = some true) :
    args.At
      { s with
        skipBadBlocks := s.skipBadBlocks + s.cur.erasesize
        e := s.e + s.cur.erasesize
        pos := s.cur.lseek s.pos (s.pos + s.cur.erasesize) }
      blocks chunks (k + 1) := by
  have hlt := Partition.lt_of_blockIsBad hbad
  have hcount : s.cur.goodBefore (k + 1) = s.cur.goodBefore k := by
    rw [Partition.goodBefore_succ, htested]
    rfl
  constructor
  case taken => exact .bad h.taken hbad
  case sizes => exact h.sizes
  case same => exact h.same
  case first => exact h.first
  case log => exact h.log
  case e => exact (congrArg (· + s.cur.erasesize) h.e).trans (Nat.succ_mul _ _).symm
  case w => exact h.w.trans (by rw [hcount])
  case balance =>
    have hbalance := h.balance
    dsimp only
    omega
  case offset => exact h.offset
  case passed =>
    intro j hj
    rcases Nat.lt_succ_iff_lt_or_eq.mp hj with hlt | rfl
    · exact h.passed j hlt
    · exact .inl htested
  case pos =>
    intro hle
    have hpos : s.pos = s.cur.start args.partOffset k := h.pos (Nat.le_of_lt hlt)
    change s.cur.start args.partOffset (k + 1) ≤ s.cur.size at hle
    change s.cur.lseek s.pos (s.pos + s.cur.erasesize) = s.cur.start args.partOffset (k + 1)
    rw [Partition.start_succ] at hle ⊢
    rw [hpos]
    exact if_pos hle
  case start_lt =>
    change s.cur.start args.partOffset (k + 1) < 2 ^ 32
    rw [Partition.start_succ]
    have hsize := s.cur.size_le
    omega
  case clean =>
    obtain ⟨n, hclean, hn⟩ := h.clean
    exact ⟨n, hclean, by rw [← hn]; exact congrArg (· + _) hcount⟩

/-- A partition without bad blocks is left with nothing erased that is not written. -/
theorem At.leave (h : args.At s blocks chunks k) {cur : Partition} {next : List Partition}
    {n : ℕ} (hnext : s.next = cur :: next)
    (hgood : s.cur.blockIsBad (s.cur.start args.partOffset k) ≠ some true)
    (hends : s.cur.eraseBlock (s.cur.start args.partOffset k) = false)
    (htested : ∀ j < k, s.cur.tested j = some false)
    (hsame : cur.erasesize = s.cur.erasesize) (hoffset : args.partOffset < 2 ^ 32)
    (hclean : CleanFrom args.partOffset (n - k) cur next)
    (hlt : chunks.length < args.blockCount)
    (hn : s.cur.goodBefore k + args.blockCount = n + chunks.length) :
    args.At (args.resume s (s.part + 1) cur next) blocks chunks 0 := by
  have hcount := Partition.goodBefore_eq htested
  have hskip : s.skipBadBlocks = 0 := by
    have hbalance := h.balance
    rw [h.w, h.e, hcount] at hbalance
    omega
  have hstart : cur.start args.partOffset 0 = args.partOffset := by
    unfold Partition.start
    rw [Nat.zero_mul, Nat.add_zero]
  have hends' : s.cur.memErase (s.cur.start args.partOffset k) = false := by
    rw [← Partition.eraseStart_of_lt h.start_lt]
    exact hends
  have htaken := h.taken
  rw [hnext] at htaken
  constructor
  case taken => exact .next htaken hgood hends'
  case sizes => exact h.sizes
  case same => exact fun block hblock => (h.same block hblock).trans hsame.symm
  case first => exact hsame.trans h.first
  case log => exact h.log
  case e => exact (Nat.zero_mul _).symm
  case w => exact (Nat.zero_mul _).symm
  case balance => exact (Nat.zero_add _).trans hskip
  case offset => exact h.offset
  case passed => exact fun j hj => absurd hj (Nat.not_lt_zero j)
  case pos =>
    intro hle
    change cur.start args.partOffset 0 ≤ cur.size at hle
    change cur.lseek 0 args.partOffset = cur.start args.partOffset 0
    rw [hstart] at hle ⊢
    exact if_pos hle
  case start_lt =>
    change cur.start args.partOffset 0 < 2 ^ 32
    rw [hstart]
    exact hoffset
  case clean =>
    refine ⟨n - k, hclean, ?_⟩
    change 0 + args.blockCount = n - k + chunks.length
    omega

/-! ## Writing -/

theorem memory_eq (hoffset : s.offset = 0) : args.memory s s.buf.length = s.buf := by
  unfold memory
  rw [hoffset]
  refine List.ext_getElem (by rw [List.length_map, List.length_range]) fun i h₁ h₂ => ?_
  rw [List.getElem_map, List.getElem_range, Nat.zero_add, List.getElem?_eq_getElem h₂]
  rfl

theorem written_append {block : Block} {chunk : List UInt8} (h : chunks.length = blocks.length) :
    written (blocks ++ [block]) (chunks ++ [chunk]) =
      written blocks chunks ++
        [.erase block.part block.start, .write block.part block.start chunk] := by
  unfold written
  rw [List.zip_append h.symm, List.flatMap_append]
  rfl

theorem At.good (h : args.At s blocks chunks k)
    (hfits : s.cur.TestFits args.partOffset k) (htested : s.cur.tested k = some false)
    (herases : s.cur.eraseBlock (s.cur.start args.partOffset k) = true) :
    s.cur.start args.partOffset k + s.cur.erasesize ≤ s.cur.size ∧
      s.cur.blockIsBad (s.cur.start args.partOffset k) = some false ∧
      s.cur.memErase (s.cur.start args.partOffset k) = true := by
  unfold Partition.eraseBlock at herases
  rw [Partition.eraseStart_of_lt h.start_lt] at herases
  have hsize := Partition.le_size_of_memErase herases
  have hpos := s.cur.erasesize_pos
  obtain ⟨isBad, hbad⟩ : ∃ isBad, s.cur.blockIsBad (s.cur.start args.partOffset k) = some isBad :=
    Partition.blockIsBad_of_lt (by omega)
  refine ⟨hsize, ?_, herases⟩
  cases isBad with
  | false => exact hbad
  | true => cases (hfits false htested).mpr hbad

theorem inv_write {before : State} (h : args.Erased s before blocks chunks k)
    (hphase : s.phase = .write) : args.Inv (args.write s) := by
  obtain ⟨here, holds, hfull, htested, herases, heq⟩ := h
  obtain ⟨n, hclean, hn⟩ := here.clean
  have hlt := holds.lt_blockCount here hfull
  obtain ⟨hsize, hgood, hmem⟩ :=
    here.good (hclean.testFits (here.reaches hlt hn)) htested herases
  have hpos := before.cur.erasesize_pos
  have hat : before.pos = before.cur.start args.partOffset k := here.pos (by omega)
  have hcount : before.cur.goodBefore (k + 1) = before.cur.goodBefore k + 1 := by
    rw [Partition.goodBefore_succ, if_pos htested]
  have hlen : chunks.length = blocks.length := by
    have hlen := congrArg List.length here.sizes
    rwa [List.length_map, List.length_map] at hlen
  rw [heq, hphase]
  unfold write
  dsimp only
  split
  case isTrue => trivial
  case isFalse hwritten =>
    obtain ⟨hall, -⟩ := Partition.le_of_write_eq (by rw [hfull]; exact hpos) hwritten
    refine ⟨blocks ++ [⟨before.part, before.cur.start args.partOffset k, before.cur.erasesize⟩],
      chunks ++ [before.buf], k + 1, ?_, ?_⟩
    · constructor
      case taken => exact .good here.taken hgood hmem
      case sizes =>
        rw [List.map_append, List.map_append, here.sizes, List.map_singleton, hfull]
        rfl
      case same =>
        intro block hblock
        rcases List.mem_append.mp hblock with hold | hnew
        · exact here.same block hold
        · rw [List.mem_singleton.mp hnew]
          rfl
      case first => exact here.first
      case log =>
        have hmemory := @memory_eq args
          { before with
            phase := .write
            e := before.e + before.cur.erasesize
            log := before.log ++ [.erase before.part (before.cur.start args.partOffset k)] }
          here.offset
        unfold afterWrite
        dsimp only at hmemory ⊢
        rw [hmemory, hall, List.take_length, hat, here.log, written_append hlen,
          List.append_assoc]
        rfl
      case e => exact (congrArg (· + before.cur.erasesize) here.e).trans (Nat.succ_mul _ _).symm
      case w =>
        change before.w + before.buf.length =
          before.cur.goodBefore (k + 1) * before.cur.erasesize
        rw [hcount, here.w, hfull, Nat.succ_mul]
      case balance =>
        have hbalance := here.balance
        change before.w + before.buf.length + before.skipBadBlocks =
          before.e + before.cur.erasesize
        omega
      case offset => rfl
      case passed =>
        intro j hj
        rcases Nat.lt_succ_iff_lt_or_eq.mp hj with hlt | rfl
        · exact here.passed j hlt
        · exact .inr ⟨htested, herases⟩
      case pos =>
        intro _
        change before.pos + before.cur.write before.pos before.buf.length =
          before.cur.start args.partOffset (k + 1)
        rw [hall, hat, hfull, Partition.start_succ]
      case start_lt =>
        change before.cur.start args.partOffset (k + 1) < 2 ^ 32
        have hle := before.cur.size_le
        rw [Partition.start_succ]
        omega
      case clean =>
        refine ⟨n, hclean, ?_⟩
        change before.cur.goodBefore (k + 1) + args.blockCount = _
        rw [hcount, List.length_append, List.length_singleton]
        omega
    · obtain ⟨⟨pad, hdata, hpad, hstate⟩, hreads, -⟩ := holds
      refine ⟨⟨pad, ?_, hpad, ?_⟩, hreads, Nat.zero_le _⟩
      · rw [List.flatten_append, List.flatten_singleton]
        exact (congrArg (· ++ bytesOf before.reads) (List.append_nil _)).trans hdata
      · rcases hstate with hzero | ⟨hnone, -⟩
        · exact .inl hzero
        · exact .inr ⟨hnone, .inl rfl⟩

/-- A turn of the loop that erases, for data that has no block yet. -/
theorem inv_erase (hclean : args.Clean) (h : args.At s blocks chunks k)
    (hholds : args.Holds s chunks) (hfull : s.buf.length = s.cur.erasesize)
    (hphase : s.phase = .erase) : args.Inv (args.erase s) := by
  have hpos := s.cur.erasesize_pos
  have hbalance := h.balance
  obtain ⟨n, hfrom, hn⟩ := h.clean
  have hlt := hholds.lt_blockCount h hfull
  have hreaches := h.reaches hlt hn
  have hfits := hfrom.testFits hreaches
  unfold erase
  have hturn : ¬ (args.noErase ∨ s.w + s.buf.length + s.skipBadBlocks ≤ s.e) := by
    rw [hclean.erases, hfull]
    rintro (hno | hle)
    · cases hno
    · omega
  rw [if_neg hturn, h.test_int, h.start_eq]
  split
  case h_1 => trivial
  case h_2 htested =>
    unfold Inv
    dsimp only
    rw [hphase]
    refine .inl ⟨blocks, chunks, k + 1, hphase ▸ h.skip htested ((hfits true htested).mp rfl), ?_,
      hfull⟩
    exact ⟨hholds.data, hholds.reads, hholds.buf⟩
  case h_3 htested =>
    split
    case isTrue herases =>
      unfold Inv
      dsimp only
      rw [hphase]
      refine .inr ⟨s, blocks, chunks, k, h, hholds, hfull, htested, herases, ?_⟩
      rw [Partition.eraseStart_of_lt h.start_lt]
    case isFalse herases =>
      have hends : s.cur.eraseBlock (s.cur.start args.partOffset k) = false :=
        Bool.eq_false_iff.mpr herases
      split
      case h_1 => trivial
      case h_2 cur next hnext =>
        rw [hnext] at hfrom
        obtain ⟨-, hleave⟩ := hfrom k hreaches
        obtain ⟨hall, hsame, hrest⟩ := hleave htested hends
        have hw : ¬ s.w < s.e := by
          rw [h.w, h.e, Partition.goodBefore_eq hall]
          exact Nat.lt_irrefl _
        dsimp only
        rw [if_neg hw]
        have hgood : s.cur.blockIsBad (s.cur.start args.partOffset k) ≠ some true := fun hbad =>
          nomatch (hfits false htested).mpr hbad
        have hat := h.leave hnext hgood hends hall hsame hclean.offset hrest hlt hn
        unfold Inv
        cases hopens : cur.opens with
        | false =>
          unfold resume
          rw [hopens]
          trivial
        | true =>
          have hresume : (args.resume s (s.part + 1) cur next).phase = .fill := by
            unfold resume
            rw [hopens]
            rfl
          rw [hresume]
          refine ⟨blocks, chunks, 0, hat, ⟨?_, hholds.reads, ?_⟩⟩
          · obtain ⟨pad, hdata, hpad, hstate⟩ := hholds.data
            exact ⟨pad, hdata, hsame ▸ hpad, hsame ▸ hstate⟩
          · exact hsame ▸ hholds.buf

theorem erase_of_erased {before : State} (h : args.Erased s before blocks chunks k) :
    args.erase s = { s with phase := .write } := by
  obtain ⟨here, -, hfull, -, -, heq⟩ := h
  have hbalance := here.balance
  unfold erase
  rw [if_pos]
  right
  rw [heq]
  dsimp only
  omega

theorem Erased.set {before : State} (h : args.Erased s before blocks chunks k) (phase : Phase) :
    args.Erased { s with phase } before blocks chunks k := by
  obtain ⟨here, holds, hfull, htested, herases, heq⟩ := h
  refine ⟨here, holds, hfull, htested, herases, ?_⟩
  rw [heq]

/-- Every step keeps the invariant. -/
theorem inv_step (hclean : args.Clean) (h : args.Inv s) : args.Inv (args.step s) := by
  unfold step
  unfold Inv at h
  cases hphase : s.phase with
  | fill =>
    rw [hphase] at h
    obtain ⟨blocks, chunks, k, hat, hholds⟩ := h
    exact inv_fill hat hholds hphase
  | filled =>
    rw [hphase] at h
    obtain ⟨blocks, chunks, k, hat, hholds, heof⟩ := h
    exact inv_filled hat hholds heof
  | erase =>
    rw [hphase] at h
    rcases h with ⟨blocks, chunks, k, hat, hholds, hfull⟩ | ⟨before, blocks, chunks, k, herased⟩
    · exact inv_erase hclean hat hholds hfull hphase
    · dsimp only
      rw [erase_of_erased herased]
      exact ⟨before, blocks, chunks, k, herased.set .write⟩
  | write =>
    rw [hphase] at h
    obtain ⟨before, blocks, chunks, k, herased⟩ := h
    exact inv_write herased hphase
  | done =>
    unfold Inv
    rw [hphase] at h ⊢
    exact h
  | exit =>
    unfold Inv
    rw [hphase]
    trivial
  | fault =>
    rw [hphase] at h
    exact h.elim

theorem inv_start (hclean : args.Clean) : args.Inv args.start := by
  have hstart : args.first.start args.partOffset 0 = args.partOffset := by
    unfold Partition.start
    rw [Nat.zero_mul, Nat.add_zero]
  unfold Inv
  cases hopens : args.first.opens with
  | false =>
    unfold start resume
    rw [hopens]
    trivial
  | true =>
    have hphase : args.start.phase = .fill := by
      unfold start resume
      rw [hopens]
      rfl
    rw [hphase]
    refine ⟨[], [], 0, ?_, ⟨⟨0, ?_, args.first.erasesize_pos, .inl rfl⟩, hclean.reads,
      args.checked_le⟩⟩
    · constructor
      case taken => exact .start
      case sizes => rfl
      case same => exact nofun
      case first => rfl
      case log => rfl
      case e => exact (Nat.zero_mul _).symm
      case w => exact (Nat.zero_mul _).symm
      case balance => rfl
      case offset => rfl
      case passed => exact fun j hj => absurd hj (Nat.not_lt_zero j)
      case pos =>
        intro hle
        change args.first.start args.partOffset 0 ≤ args.first.size at hle
        change args.first.lseek 0 args.partOffset = args.first.start args.partOffset 0
        rw [hstart] at hle ⊢
        exact if_pos hle
      case start_lt =>
        change args.first.start args.partOffset 0 < 2 ^ 32
        rw [hstart]
        exact hclean.offset
      case clean => exact ⟨args.blockCount, hclean.blocks, Nat.add_comm _ _⟩
    · exact (List.append_nil _).symm

/-- A write that succeeds has done what is asked for, if the offsets of the loop belong
together. -/
theorem contract_of_clean (args : Args) (hclean : args.Clean) (n : ℕ)
    (hdone : (args.step^[n] args.start).phase = .done) :
    args.Contract (args.step^[n] args.start).log := by
  have hinv : ∀ n, args.Inv (args.step^[n] args.start) := by
    intro n
    induction n with
    | zero => exact inv_start hclean
    | succ n ih =>
      rw [Function.iterate_succ_apply']
      exact inv_step hclean ih
  have h := hinv n
  unfold Inv at h
  rw [hdone] at h
  exact h

/-! ## Bad blocks -/

/-- A NAND partition of blocks of two bytes. -/
def nandPart (size : ℕ) (bad erases : ℕ → Bool) (hsize : size + 2 ≤ 2 ^ 32) : Partition where
  size
  erasesize := 2
  nand := true
  bad
  erases
  accepts _ len := len
  opens := true
  erasesize_pos := by decide
  size_le := hsize

/-- Three bytes for a partition whose second block is bad. -/
def secondBad : Args where
  first := nandPart 8 (· = 2) (fun _ => true) (by decide)
  rest := []
  partOffset := 0
  noErase := false
  checked := []
  reads := [.data 1 [2], .again, .data 3 []]
  mem _ := 0
  checked_le := by decide

/-- The bad block is left out. -/
theorem contract_of_secondBad :
    (secondBad.step^[20] secondBad.start).log =
        [.erase 0 0, .write 0 0 [1, 2], .erase 0 4, .write 0 4 [3, 0xff]] ∧
      secondBad.Contract (secondBad.step^[20] secondBad.start).log := by
  have hclean : secondBad.Clean := by
    refine ⟨rfl, ?_, by decide, fun k hreaches => ?_⟩
    · intro read hmem
      rcases List.mem_cons.mp hmem with rfl | hmem
      · exact nofun
      · rcases List.mem_cons.mp hmem with rfl | hmem
        · exact nofun
        · rw [List.mem_singleton.mp hmem]
          exact nofun
    · -- the test of the fifth block fails, so the loop does not get beyond it
      have hend : secondBad.first.tested 4 = none := by decide +kernel
      have hle : k ≤ 4 := by
        refine Nat.le_of_not_lt fun hlt => ?_
        rcases hreaches.passed 4 hlt with htested | ⟨htested, -⟩ <;> cases hend.symm.trans htested
      have hall : ∀ k ≤ 4, ∀ isBad, secondBad.first.tested k = some isBad →
          (isBad = true ↔ secondBad.first.blockIsBad (secondBad.first.start 0 k) = some true) := by
        decide +kernel
      exact hall k hle
  exact ⟨by decide +kernel, contract_of_clean secondBad hclean 20 (by decide +kernel)⟩

/-- Four bytes for a partition whose first block is bad and whose third block cannot be
erased, and a good partition to go on to. -/
def badThenEnd : Args where
  first := nandPart 6 (· = 0) (· ≠ 4) (by decide)
  rest := [nandPart 6 (fun _ => false) (fun _ => true) (by decide)]
  partOffset := 0
  noErase := false
  checked := []
  reads := [.data 1 [2, 3, 4]]
  mem _ := 0
  checked_le := by decide

/-- Each write follows the erase of its block. -/
def alternates : List Op → Bool
  | [] => true
  | .erase part start :: .write part' pos _ :: log =>
    part = part' && start = pos && alternates log
  | _ => false

theorem alternates_written (blocks : List Block) (chunks : List (List UInt8)) :
    alternates (written blocks chunks) = true := by
  unfold written
  induction blocks.zip chunks with
  | nil => rfl
  | cons pair pairs ih =>
    rw [List.flatMap_cons]
    simp only [List.cons_append, List.nil_append, alternates, decide_true, Bool.true_and]
    exact ih

/-- The second half of the image goes to the block that was not erased, and the good partition
gets what lies beyond the buffer. -/
theorem not_contract_of_badThenEnd :
    (badThenEnd.step^[24] badThenEnd.start).phase = .done ∧
      ¬ badThenEnd.Contract (badThenEnd.step^[24] badThenEnd.start).log := by
  refine ⟨by decide +kernel, ?_⟩
  rintro ⟨blocks, chunks, _, _, _, _, _, -, -, -, -, hlog⟩
  have halternates := alternates_written blocks chunks
  rw [← hlog] at halternates
  exact absurd halternates (by decide +kernel)

end Args

end OpenWrt.Mtd
