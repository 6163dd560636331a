/-
# The tags of the RouterBoot configuration

A configuration is a chain of tags: a word with an identifier and the length of the payload, and the
payload, filled up to the next word. A null word ends the chain. `routerboot_tag_find` walks over it
with the length in 16 bits, returns the place of the payload in 16 bits, and does not look whether
the payload ends in the buffer.

A position is a number of bytes from the start of the buffer. Where the length of the buffer is no
multiple of four, the last word is read with the bytes behind it.
-/

import Mathlib.Algebra.Group.Int.Defs
import Mathlib.Algebra.Group.Nat.Defs
import OpenWrt.Lib.Loop

namespace OpenWrt.RouterBoot

open OpenWrt.Lib

/-! ## The search -/

/-- The memory from `bufhead` on, the length of the buffer, and the byte order of the processor. -/
structure TagBuffer where
  mem : ℕ → UInt8
  buflen : ℕ
  bigEndian : Bool

/-- What `routerboot_tag_find` returns, with the place of the payload. -/
inductive TagResult where
  | einval
  | enoent
  | found (pldOfs pldLen : ℕ)
  deriving DecidableEq, Repr

namespace TagBuffer

variable (b : TagBuffer)

/-- The word at a position. -/
def node (pos : ℕ) : ℕ :=
  let byte i := (b.mem (pos + if b.bigEndian then 3 - i else i)).toNat
  byte 0 + byte 1 * 2 ^ 8 + byte 2 * 2 ^ 16 + byte 3 * 2 ^ 24

/-- The low half of a word. -/
def idAt (pos : ℕ) : ℕ := b.node pos % 2 ^ 16

/-- The high half of a word. -/
def lenAt (pos : ℕ) : ℕ := b.node pos / 2 ^ 16

/-- `ALIGN(len, sizeof(*datum))`. -/
def align (len : ℕ) : ℕ := (len + 3) / 4 * 4

/-- `ALIGN(len, sizeof(*datum))`, stored in a `u16`. -/
def align16 (len : ℕ) : ℕ := align len % 2 ^ 16

/-- One turn of the loop: the next position, or the result. -/
def turn (tagId datum : ℕ) : ℕ ⊕ TagResult :=
  if b.buflen ≤ datum then .inr .enoent
  else if b.node datum = 0 then .inr .enoent
  else if b.idAt datum = tagId then
    if b.buflen ≤ datum + 4 then .inr .enoent
    else .inr (.found ((datum + 4) % 2 ^ 16) (b.lenAt datum))
  else .inl (datum + 4 + align16 (b.lenAt datum))

/-- `routerboot_tag_find` returns this. -/
def Returns (tagId : ℕ) (result : TagResult) : Prop :=
  if tagId = 0 then result = .einval else ∃ turns, Loop.after (b.turn tagId) turns 0 = .inr result

/-! ## The chain -/

/-- There is a tag at the position, in the buffer. -/
def IsTag (pos : ℕ) : Prop := pos + 4 ≤ b.buflen ∧ b.node pos ≠ 0

/-- There is a tag with another identifier. -/
def Passes (tagId pos : ℕ) : Prop := b.IsTag pos ∧ b.idAt pos ≠ tagId

/-- A tag with another identifier, and the position after its payload. -/
def Follows (align : ℕ → ℕ) (tagId pos next : ℕ) : Prop :=
  b.Passes tagId pos ∧ next = pos + 4 + align (b.lenAt pos)

/-- The chain comes to the position, and no tag before it has the identifier. -/
def Reaches (align : ℕ → ℕ) (tagId : ℕ) : ℕ → Prop :=
  Relation.ReflTransGen (b.Follows align tagId) 0

/-- The first tag of the chain with the identifier. -/
def IsFirst (tagId pos : ℕ) : Prop := b.Reaches align tagId pos ∧ b.IsTag pos ∧ b.idAt pos = tagId

/-- The walk advances and ends, and a payload that is found is the one of the first tag with the
identifier, and in the buffer. -/
structure Correct (tagId : ℕ) : Prop where
  advances : ∀ datum next, b.turn tagId datum = .inl next → datum < next
  ends : Loop.Ends (b.turn tagId) 0
  payload : ∀ pldOfs pldLen, b.Returns tagId (.found pldOfs pldLen) →
    pldOfs + pldLen ≤ b.buflen ∧
      ∃ pos, b.IsFirst tagId pos ∧ pldOfs = pos + 4 ∧ pldLen = b.lenAt pos

/-- The tag to which the walk with lengths in 16 bits comes, if there is one with a payload in the
buffer: none before it is so long that its length is aligned to nothing, its payload starts below
64 KiB, and it ends in the buffer. -/
def Fits (tagId : ℕ) : Prop :=
  ∀ pos, b.Reaches align16 tagId pos → b.IsTag pos → b.idAt pos = tagId → pos + 4 < b.buflen →
    (∀ before, b.Reaches align tagId before → b.Passes tagId before → before < pos →
        b.lenAt before < 2 ^ 16 - 3) ∧
      pos + 4 < 2 ^ 16 ∧ pos + 4 + b.lenAt pos ≤ b.buflen

end TagBuffer

/-! ## The walk -/

namespace TagBuffer

variable {b : TagBuffer} {tagId pos next : ℕ}

theorem turn_of_follows (h : b.Follows align16 tagId pos next) : b.turn tagId pos = .inl next := by
  obtain ⟨⟨⟨hin, hnode⟩, hid⟩, rfl⟩ := h
  unfold turn
  rw [if_neg (by omega), if_neg hnode, if_neg hid]

theorem turn_of_found (htag : b.IsTag pos) (hid : b.idAt pos = tagId) (hpayload : pos + 4 < b.buflen) :
    b.turn tagId pos = .inr (.found ((pos + 4) % 2 ^ 16) (b.lenAt pos)) := by
  obtain ⟨hin, hnode⟩ := htag
  unfold turn
  rw [if_neg (by omega), if_neg hnode, if_pos hid, if_neg (by omega)]

/-- A turn that goes on has read a word, if not all of its bytes, and advances. -/
theorem advances_of_turn (h : b.turn tagId pos = .inl next) :
    pos < b.buflen ∧ pos + 4 ≤ next ∧ (next ≤ b.buflen → b.Follows align16 tagId pos next) := by
  unfold turn at h
  by_cases hend : b.buflen ≤ pos
  · rw [if_pos hend] at h
    cases h
  · rw [if_neg hend] at h
    by_cases hnode : b.node pos = 0
    · rw [if_pos hnode] at h
      cases h
    · rw [if_neg hnode] at h
      by_cases hid : b.idAt pos = tagId
      · rw [if_pos hid] at h
        split at h <;> cases h
      · rw [if_neg hid] at h
        obtain rfl := Sum.inl.inj h
        refine ⟨Nat.lt_of_not_le hend, Nat.le_add_right _ _, fun hle => ⟨⟨⟨?_, hnode⟩, hid⟩, rfl⟩⟩
        exact Nat.le_trans (Nat.le_add_right _ _) hle

theorem found_of_turn {pldOfs pldLen : ℕ} (h : b.turn tagId pos = .inr (.found pldOfs pldLen)) :
    (b.IsTag pos ∧ b.idAt pos = tagId ∧ pos + 4 < b.buflen) ∧
      pldOfs = (pos + 4) % 2 ^ 16 ∧ pldLen = b.lenAt pos := by
  unfold turn at h
  by_cases hend : b.buflen ≤ pos
  · rw [if_pos hend] at h
    cases h
  · rw [if_neg hend] at h
    by_cases hnode : b.node pos = 0
    · rw [if_pos hnode] at h
      cases h
    · rw [if_neg hnode] at h
      by_cases hid : b.idAt pos = tagId
      · rw [if_pos hid] at h
        by_cases hpayload : b.buflen ≤ pos + 4
        · rw [if_pos hpayload] at h
          cases h
        · rw [if_neg hpayload] at h
          obtain ⟨rfl, rfl⟩ := TagResult.found.inj (Sum.inr.inj h)
          exact ⟨⟨⟨by omega, hnode⟩, hid, by omega⟩, rfl, rfl⟩
      · rw [if_neg hid] at h
        cases h

theorem le_of_walk {align : ℕ → ℕ} {start : ℕ}
    (h : Relation.ReflTransGen (b.Follows align tagId) start pos) : start ≤ pos := by
  induction h with
  | refl => exact Nat.le_refl _
  | tail _ hfollows ih =>
    obtain ⟨-, rfl⟩ := hfollows
    omega

/-- The loop finds what the walk with lengths in 16 bits comes to. -/
theorem after_found_iff {start pldOfs pldLen : ℕ} :
    (∃ turns, Loop.after (b.turn tagId) turns start = .inr (.found pldOfs pldLen)) ↔
      ∃ pos, Relation.ReflTransGen (b.Follows align16 tagId) start pos ∧
        (b.IsTag pos ∧ b.idAt pos = tagId ∧ pos + 4 < b.buflen) ∧
        pldOfs = (pos + 4) % 2 ^ 16 ∧ pldLen = b.lenAt pos := by
  constructor
  · rintro ⟨turns, h⟩
    induction turns generalizing start with
    | zero => cases h
    | succ turns ih =>
      cases hturn : b.turn tagId start with
      | inl next =>
        rw [Loop.after_succ_of_inl turns hturn] at h
        obtain ⟨pos, hwalk, hfound⟩ := ih h
        obtain ⟨-, -, hfollows⟩ := advances_of_turn hturn
        have hle : next ≤ pos := le_of_walk hwalk
        exact ⟨pos, .head (hfollows (by omega)) hwalk, hfound⟩
      | inr result =>
        rw [Loop.after_succ_of_inr turns hturn] at h
        rw [Sum.inr.inj h] at hturn
        exact ⟨start, .refl, found_of_turn hturn⟩
  · rintro ⟨pos, hwalk, ⟨htag, hid, hpayload⟩, rfl, rfl⟩
    induction hwalk using Relation.ReflTransGen.head_induction_on with
    | refl => exact ⟨1, Loop.after_succ_of_inr 0 (turn_of_found htag hid hpayload)⟩
    | head hfollows _ ih =>
      obtain ⟨turns, hturns⟩ := ih
      exact ⟨turns + 1, (Loop.after_succ_of_inl turns (turn_of_follows hfollows)).trans hturns⟩

theorem ends (b : TagBuffer) (tagId : ℕ) : Loop.Ends (b.turn tagId) 0 := by
  apply Loop.ends_of_measure (fun _ => True) (fun pos => b.buflen - pos) trivial
  intro pos next _ hturn
  obtain ⟨hlt, hle, -⟩ := advances_of_turn hturn
  exact ⟨trivial, by omega⟩

/-! ## The chain and the walk -/

theorem align16_eq {len : ℕ} (h : len < 2 ^ 16 - 3) : align16 len = align len := by
  unfold align16 align
  omega

theorem align_of_long (b : TagBuffer) (h : ¬ b.lenAt pos < 2 ^ 16 - 3) :
    2 ^ 16 ≤ align (b.lenAt pos) := by
  unfold align
  omega

/-- The walk stays on the chain up to a tag that is too long. -/
theorem reaches_or_long (h : b.Reaches align16 tagId pos) :
    b.Reaches align tagId pos ∨
      ∃ long, b.Reaches align tagId long ∧ b.Passes tagId long ∧ ¬ b.lenAt long < 2 ^ 16 - 3 ∧
        long < pos := by
  unfold Reaches at h
  induction h with
  | refl => exact .inl .refl
  | tail _ hfollows ih =>
    obtain ⟨hpasses, rfl⟩ := hfollows
    rcases ih with hchain | ⟨long, hchain, hlong, hlen, hlt⟩
    · rename_i last _
      by_cases hlen : b.lenAt last < 2 ^ 16 - 3
      · refine .inl (hchain.tail ⟨hpasses, ?_⟩)
        rw [align16_eq hlen]
      · exact .inr ⟨last, hchain, hpasses, hlen, by omega⟩
    · exact .inr ⟨long, hchain, hlong, hlen, by omega⟩

theorem rightUnique_follows : Relator.RightUnique (b.Follows align tagId) := by
  rintro pos next next' ⟨-, rfl⟩ ⟨-, rfl⟩
  rfl

theorem eq_of_walk (hid : b.idAt pos = tagId)
    (hwalk : Relation.ReflTransGen (b.Follows align tagId) pos next) : pos = next := by
  cases hwalk using Relation.ReflTransGen.head_induction_on with
  | refl => rfl
  | head hfollows _ => exact absurd hid hfollows.1.2

/-- The first tag with the identifier comes after each tag of the chain with another one. -/
theorem IsFirst.le (h : b.IsFirst tagId pos) {before : ℕ} (hchain : b.Reaches align tagId before)
    (hpasses : b.Passes tagId before) : before + 4 + align (b.lenAt before) ≤ pos := by
  obtain ⟨hreach, htag, hid⟩ := h
  rcases Relation.ReflTransGen.total_of_right_unique rightUnique_follows hchain hreach with hwalk | hwalk
  · cases hwalk using Relation.ReflTransGen.head_induction_on with
    | refl => exact absurd hid hpasses.2
    | head hfollows hrest =>
      obtain ⟨-, rfl⟩ := hfollows
      exact le_of_walk hrest
  · obtain rfl := eq_of_walk hid hwalk
    exact absurd hid hpasses.2

theorem IsFirst.unique (h : b.IsFirst tagId pos) {pos' : ℕ} (h' : b.IsFirst tagId pos') :
    pos = pos' := by
  rcases Relation.ReflTransGen.total_of_right_unique rightUnique_follows h.1 h'.1 with hwalk | hwalk
  · exact eq_of_walk h.2.2 hwalk
  · exact (eq_of_walk h'.2.2 hwalk).symm

/-- The search is right exactly when the tag to which the walk comes fits, if there is one. -/
theorem correct_iff (b : TagBuffer) (tagId : ℕ) :
    b.Correct tagId ↔ (tagId ≠ 0 → b.Fits tagId) := by
  constructor
  · intro h hid0 pos hwalk htag hid hpayload
    have hreturns : b.Returns tagId (.found ((pos + 4) % 2 ^ 16) (b.lenAt pos)) := by
      unfold Returns
      rw [if_neg hid0]
      exact after_found_iff.mpr ⟨pos, hwalk, ⟨htag, hid, hpayload⟩, rfl, rfl⟩
    obtain ⟨hend, first, hfirst, hofs, hlen⟩ := h.payload _ _ hreturns
    have hshort : ∀ before, b.Reaches align tagId before → b.Passes tagId before →
        b.lenAt before < 2 ^ 16 - 3 := by
      intro before hchain hpasses
      by_contra hlong
      have hle := hfirst.le hchain hpasses
      have halign := align_of_long b hlong
      omega
    have hchain : b.Reaches align tagId pos := by
      rcases reaches_or_long hwalk with hchain | ⟨long, hchain, hpasses, hlong, -⟩
      · exact hchain
      · exact absurd (hshort long hchain hpasses) hlong
    obtain rfl : first = pos := hfirst.unique ⟨hchain, htag, hid⟩
    refine ⟨fun before hreach hpasses _ => hshort before hreach hpasses, by omega, ?_⟩
    rw [← hofs]
    exact hend
  · intro h
    refine ⟨fun datum next hturn => ?_, b.ends tagId, fun pldOfs pldLen hreturns => ?_⟩
    · obtain ⟨-, hle, -⟩ := advances_of_turn hturn
      omega
    · unfold Returns at hreturns
      by_cases hid0 : tagId = 0
      · rw [if_pos hid0] at hreturns
        cases hreturns
      · rw [if_neg hid0] at hreturns
        obtain ⟨pos, hwalk, ⟨htag, hid, hpayload⟩, rfl, rfl⟩ := after_found_iff.mp hreturns
        obtain ⟨hshort, hofs, hend⟩ := h hid0 pos hwalk htag hid hpayload
        have hchain : b.Reaches align tagId pos := by
          rcases reaches_or_long hwalk with hchain | ⟨long, hchain, hpasses, hlong, hlt⟩
          · exact hchain
          · exact absurd (hshort long hchain hpasses hlt) hlong
        rw [Nat.mod_eq_of_lt hofs]
        exact ⟨hend, pos, ⟨hchain, htag, hid⟩, rfl, rfl⟩

/-- A tag of eight bytes in a buffer that has four of them. -/
def cutTag : TagBuffer where
  mem pos := if pos = 0 then 2 else if pos = 2 then 8 else 0
  buflen := 8
  bigEndian := false

theorem not_correct_cutTag : ¬ ∀ (b : TagBuffer) (tagId : ℕ), b.Correct tagId := by
  intro h
  have hreturns : cutTag.Returns 2 (.found 4 8) := ⟨1, by decide⟩
  obtain ⟨hend, -⟩ := (h cutTag 2).payload 4 8 hreturns
  revert hend
  decide

end TagBuffer

end OpenWrt.RouterBoot
