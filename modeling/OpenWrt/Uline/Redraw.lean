/-
# What the incremental update of the display leaves on the screen

A refresh writes the text of the line from `update_pos` on and takes what is before it for shown
already. Each edit lowers the mark to the cursor. `__uline_set_line` assigns it: the text is
compared with that of the line, and not with what is on the screen, so that a text set over an edit
that was not shown yet can leave stale characters.
-/

import OpenWrt.Uline.LineBufSound
import OpenWrt.Lib.CommonPrefix
import Mathlib.Data.List.Induction

namespace OpenWrt.Uline

open OpenWrt.Lib

namespace LineBuf

def text (line : LineBuf) : List UInt8 := line.block.take line.len

/-- What happens to a line between two refreshes. -/
inductive Edit
  | insert (c : List UInt8) (heap : Heap)
  | deleteSymbol
  | delete (n : ℕ)
  | backword
  | reset
  | moveLeft
  | moveRight
  | moveWordLeft
  | moveWordRight
  | home
  | toEnd
  | setCursor (pos : ℕ)
  | setLine (str : List UInt8) (heap : Heap)

/-- An edit by the function of the source. -/
def Edit.run (utf8 : Bool) (line : LineBuf) : Edit → Except Fault LineBuf
  | .insert c heap => Prod.fst <$> linebufInsert heap line c
  | .deleteSymbol => Prod.fst <$> LineBuf.deleteSymbol utf8 line
  | .delete n => linebufDelete line n
  | .backword => Prod.fst <$> processBackword utf8 line
  | .reset => linebufReset line
  | .moveLeft => Prod.fst <$> LineBuf.moveLeft utf8 line
  | .moveRight => Prod.fst <$> LineBuf.moveRight utf8 line
  | .moveWordLeft => Prod.fst <$> LineBuf.moveWordLeft utf8 line
  | .moveWordRight => Prod.fst <$> LineBuf.moveWordRight line
  | .home => .ok { line with pos := 0 }
  | .toEnd => .ok { line with pos := line.len }
  | .setCursor pos => .ok (LineBuf.setCursor line pos)
  | .setLine str heap => LineBuf.setLine utf8 heap line str

/-- The cursor is within the text, and the text within the buffer. -/
structure Room (line : LineBuf) : Prop where
  pos_le : line.pos ≤ line.len
  len_le : line.len ≤ line.bufsize

/-- The mark goes down at most, and the text before it stays. -/
structure Lowers (line next : LineBuf) : Prop where
  room : Room next
  mark : next.updatePos ≤ line.updatePos
  before : ∀ p ≤ next.updatePos, p ≤ line.len → p ≤ next.len ∧ next.text.take p = line.text.take p

variable {line next : LineBuf} {utf8 : Bool}

theorem length_text (h : Room line) : line.text.length = line.len := by
  rw [text, List.length_take]
  exact Nat.min_eq_left h.len_le

theorem take_text {p : ℕ} (hp : p ≤ line.len) : line.text.take p = line.block.take p := by
  rw [text, List.take_take, Nat.min_eq_left hp]

theorem Lowers.withPos (h : Room line) {pos : ℕ} (hpos : pos ≤ line.len) :
    Lowers line { line with pos := pos } where
  room := ⟨hpos, h.len_le⟩
  mark := Nat.le_refl _
  before := fun _ _ hp => ⟨hp, rfl⟩

theorem Lowers.refl (h : Room line) : Lowers line line := Lowers.withPos h h.pos_le

theorem Lowers.trans {last : LineBuf} (h : Lowers line next) (h' : Lowers next last) :
    Lowers line last where
  room := h'.room
  mark := Nat.le_trans h'.mark h.mark
  before := by
    intro p hmark hp
    obtain ⟨hlen, htext⟩ := h.before p (Nat.le_trans hmark h'.mark) hp
    obtain ⟨hlen', htext'⟩ := h'.before p hmark hlen
    exact ⟨hlen', htext'.trans htext⟩

/-! ## Moving -/

theorem yields_backWhile (kind : UInt8 → Bool) (line : LineBuf) (pos : ℕ) :
    Yields (· ≤ pos) (backWhile kind line pos) := by
  induction pos with
  | zero => exact Nat.le_refl _
  | succ pos ih =>
    apply yields_bind (yields_self _)
    intro c _
    split
    · exact ih.mono fun r hr => Nat.le_succ_of_le hr
    · exact Nat.le_refl _

theorem yields_forwardWhile (kind : UInt8 → Bool) (line : LineBuf) (left pos : ℕ) :
    Yields (· ≤ pos + left) (forwardWhile kind line left pos) := by
  induction left generalizing pos with
  | zero => exact yields_bind (yields_self _) fun _ _ => Nat.le_refl _
  | succ left ih =>
    apply yields_bind (yields_self _)
    intro c _
    split
    · exact (ih (pos + 1)).mono fun r hr => by omega
    · exact Nat.le_add_right _ _

theorem yields_skipCont (line : LineBuf) (left pos : ℕ) :
    Yields (· ≤ pos + left) (skipCont line left pos) := by
  induction left generalizing pos with
  | zero => exact Nat.le_refl _
  | succ left ih =>
    apply yields_bind (yields_self _)
    intro c _
    split
    · exact (ih (pos + 1)).mono fun r hr => by omega
    · exact Nat.le_add_right _ _

theorem yields_moveLeft (h : Room line) :
    Yields (fun r => Lowers line r.1 ∧ (r.2 = true → r.1.pos < r.1.len)) (moveLeft utf8 line) := by
  have hpos := h.pos_le
  unfold moveLeft
  split
  case isTrue => exact ⟨Lowers.refl h, nofun⟩
  case isFalse hzero =>
    have hleft : Yields (· < line.len) (leftPos utf8 line) := by
      unfold leftPos
      split
      · obtain ⟨pos, hsucc⟩ := Nat.exists_eq_succ_of_ne_zero hzero
        rw [hsucc]
        exact (yields_backWhile isUtf8Cont line pos).mono fun r hr => by omega
      · exact yields_pure (by omega)
    exact yields_bind hleft fun pos hr => ⟨Lowers.withPos h (Nat.le_of_lt hr), fun _ => hr⟩

theorem yields_moveRight (h : Room line) :
    Yields (fun r => Lowers line r.1) (moveRight utf8 line) := by
  have hpos := h.pos_le
  unfold moveRight
  split
  case isTrue => exact Lowers.refl h
  case isFalse hend =>
    have hright : Yields (· ≤ line.len) (rightPos utf8 line) := by
      unfold rightPos utf8MoveRight
      split
      · split
        · exact yields_pure hpos
        · exact (yields_skipCont line _ _).mono fun r hr => by omega
      · exact yields_pure (by omega)
    exact yields_bind hright fun pos hr => Lowers.withPos h hr

theorem yields_moveWordLeft (h : Room line) :
    Yields (fun r => Lowers line r.1) (moveWordLeft utf8 line) := by
  apply yields_bind (yields_moveLeft h)
  rintro ⟨left, moved⟩ ⟨hleft, hmoved⟩
  have hlowers : Lowers line left := hleft
  cases moved with
  | false => exact hlowers
  | true =>
    have hpos : left.pos < left.len := hmoved rfl
    apply yields_bind (yields_backWhile _ left left.pos)
    intro p hp
    apply yields_bind (yields_backWhile _ left p)
    intro q hq
    apply yields_bind (yields_self _)
    intro c _
    apply yields_pure
    apply hlowers.trans
    apply Lowers.withPos hlowers.room
    split <;> omega

theorem yields_moveWordRight (h : Room line) :
    Yields (fun r => Lowers line r.1) (moveWordRight line) := by
  have hpos := h.pos_le
  unfold moveWordRight
  split
  case isTrue => exact Lowers.refl h
  case isFalse hend =>
    apply yields_bind (yields_forwardWhile _ line _ _)
    intro p hp
    apply yields_bind (yields_forwardWhile _ line _ _)
    intro q hq
    exact Lowers.withPos h (by omega)

/-! ## Editing -/

section Blocks

variable {block str : List UInt8} {dst p : ℕ}

theorem take_overwrite (hdst : dst ≤ block.length) (hp : p ≤ dst) :
    (overwrite block dst str).take p = block.take p := by
  have hlength : (block.take dst).length = dst := by
    rw [List.length_take]
    exact Nat.min_eq_left hdst
  rw [overwrite, List.append_assoc, List.take_append_of_le_length (by omega), List.take_take,
    Nat.min_eq_left hp]

theorem take_overwrite_zero (block str : List UInt8) :
    (overwrite block 0 str).take str.length = str := by
  rw [overwrite, List.take_zero, List.nil_append, List.take_left]

end Blocks

/-- A line whose buffer is the same before an offset, and that is the same otherwise. -/
def Same (p : ℕ) (line next : LineBuf) : Prop :=
  ∃ buf, next = { line with buf := buf } ∧ line.bufsize ≤ next.bufsize ∧
    next.block.take p = line.block.take p

theorem yields_copyIn {dst p : ℕ} (str : List UInt8) (hp : p ≤ dst) :
    Yields (fun next => Same p line next ∧ (str ≠ [] → dst + str.length ≤ line.bufsize))
      (line.copyIn dst str) := by
  unfold copyIn
  by_cases hstr : str = []
  · rw [if_pos hstr]
    exact ⟨⟨line.buf, rfl, Nat.le_refl _, rfl⟩, fun hne => absurd hstr hne⟩
  · rw [if_neg hstr]
    split
    case isTrue hfits =>
      have hdst : dst ≤ line.block.length :=
        Nat.le_trans (Nat.le_add_right dst str.length) hfits
      refine ⟨⟨_, rfl, ?_, take_overwrite hdst hp⟩, fun _ => hfits⟩
      exact Nat.le_of_eq (length_overwrite hfits).symm
    case isFalse => exact id

theorem yields_move {dst src n p : ℕ} (hp : p ≤ dst) :
    Yields (Same p line) (line.move dst src n) := by
  unfold move
  split
  · exact ⟨line.buf, rfl, Nat.le_refl _, rfl⟩
  · split
    · exact (yields_copyIn _ hp).mono fun next h => h.1
    · exact id

theorem yields_poke {i p : ℕ} (c : UInt8) (hp : p ≤ i) :
    Yields (fun next => Same p line next ∧ i < line.bufsize) (line.poke i c) := by
  unfold poke
  split
  case isTrue hfits =>
    refine ⟨⟨_, rfl, ?_, ?_⟩, hfits⟩
    · exact Nat.le_of_eq List.length_set.symm
    · exact List.take_set_of_le hp
  case isFalse => exact id

theorem yields_shiftTail {n p : ℕ} (hp : p ≤ line.pos) :
    Yields (Same p line) (line.shiftTail n) := by
  have hbehind : p ≤ line.pos + n := Nat.le_trans hp (Nat.le_add_right _ _)
  unfold shiftTail
  dsimp only
  split
  · exact yields_move hbehind
  · exact (yields_poke 0 hbehind).mono fun next h => h.1

theorem take_of_take {one two : List UInt8} {p q : ℕ} (hp : p ≤ q) (h : one.take q = two.take q) :
    one.take p = two.take p := by
  have htake := congrArg (List.take p) h
  rwa [List.take_take, List.take_take, Nat.min_eq_left hp] at htake

/-- An extended buffer begins with the old one. -/
theorem same_linebufExtend (heap : Heap) (line : LineBuf) (size : ℕ) :
    Same line.bufsize line (linebufExtend heap line size).1 ∧
      ((linebufExtend heap line size).2 = false → (linebufExtend heap line size).1 = line) := by
  unfold linebufExtend
  dsimp only
  split
  case isTrue => exact ⟨⟨line.buf, rfl, Nat.le_refl _, rfl⟩, fun _ => rfl⟩
  case isFalse =>
    cases heap with
    | none => exact ⟨⟨line.buf, rfl, Nat.le_refl _, rfl⟩, fun _ => rfl⟩
    | some fresh =>
      refine ⟨⟨_, rfl, ?_, ?_⟩, nofun⟩
      · show line.block.length ≤ (line.block ++ _).length
        rw [List.length_append]
        exact Nat.le_add_right _ _
      · show (line.block ++ _).take line.block.length = line.block.take line.block.length
        rw [List.take_left, List.take_length]

/-- The mark goes down to the cursor, and what is before the cursor stays. -/
theorem Lowers.of_cursor (hroom : Room next)
    (hmark : next.updatePos = min line.updatePos line.pos) (hlen : line.pos ≤ next.len)
    (hblock : next.block.take line.pos = line.block.take line.pos) : Lowers line next where
  room := hroom
  mark := by
    rw [hmark]
    exact Nat.min_le_left _ _
  before := by
    intro p hp hle
    have hpos : p ≤ line.pos := by
      rw [hmark] at hp
      exact Nat.le_trans hp (Nat.min_le_right _ _)
    refine ⟨Nat.le_trans hpos hlen, ?_⟩
    rw [take_text (Nat.le_trans hpos hlen), take_text hle]
    exact take_of_take hpos hblock

theorem yields_linebufInsert (h : Room line) (heap : Heap) (c : List UInt8) :
    Yields (fun r => Lowers line r.1) (linebufInsert heap line c) := by
  have hpos := h.pos_le
  obtain ⟨hsame, hfailed⟩ := same_linebufExtend heap line (c.length + 1)
  unfold linebufInsert
  generalize linebufExtend heap line (c.length + 1) = extended at hsame hfailed ⊢
  obtain ⟨next, extended⟩ := extended
  dsimp only at hsame hfailed ⊢
  cases extended with
  | false =>
    rw [if_pos rfl, hfailed rfl]
    exact Lowers.refl h
  | true =>
    rw [if_neg Bool.true_eq_false.mp]
    obtain ⟨buf, rfl, -, hblock⟩ := hsame
    have hstart := take_of_take (Nat.le_trans hpos h.len_le) hblock
    apply yields_bind (@yields_shiftTail { line with buf := buf } c.length line.pos (Nat.le_refl _))
    rintro _ ⟨shifted, rfl, -, hshifted⟩
    apply yields_bind (yields_copyIn c (Nat.le_refl line.pos))
    rintro _ ⟨⟨copied, rfl, -, hcopied⟩, -⟩
    apply yields_bind (yields_poke 0 (Nat.le_trans hpos (Nat.le_add_right line.len c.length)))
    rintro _ ⟨⟨ended, rfl, hsize, hended⟩, hin⟩
    apply yields_pure
    refine Lowers.of_cursor ⟨Nat.add_le_add_right hpos _, ?_⟩ rfl
      (Nat.le_trans hpos (Nat.le_add_right _ _)) ?_
    · exact Nat.le_trans (Nat.le_of_lt hin) hsize
    · exact hended.trans (hcopied.trans (hshifted.trans hstart))

theorem yields_linebufDelete (h : Room line) (n : ℕ) :
    Yields (Lowers line) (linebufDelete line n) := by
  have hpos := h.pos_le
  have hlen := h.len_le
  unfold linebufDelete
  apply yields_bind (yields_move (Nat.le_refl line.pos))
  rintro _ ⟨buf, rfl, hsize, hblock⟩
  apply yields_pure
  have hkept : line.pos ≤ line.len - min n (line.len - line.pos) := by omega
  refine Lowers.of_cursor ⟨hkept, ?_⟩ rfl hkept hblock
  calc line.len - min n (line.len - line.pos) ≤ line.len := Nat.sub_le _ _
    _ ≤ line.bufsize := hlen
    _ ≤ _ := hsize

theorem yields_linebufReset (line : LineBuf) : Yields (Lowers line) (linebufReset line) := by
  apply (yields_poke 0 (Nat.le_refl 0)).mono
  rintro _ ⟨⟨buf, rfl, -, -⟩, -⟩
  refine ⟨⟨Nat.le_refl _, Nat.zero_le _⟩, Nat.zero_le _, ?_⟩
  intro p hp _
  rw [Nat.le_zero.mp hp]
  exact ⟨Nat.le_refl _, rfl⟩

theorem yields_deleteSymbol (h : Room line) :
    Yields (fun r => Lowers line r.1) (deleteSymbol utf8 line) := by
  unfold deleteSymbol
  split
  · exact Lowers.refl h
  · apply yields_bind (yields_self _)
    intro n _
    exact yields_bind (yields_linebufDelete h n) fun next hnext => hnext

theorem yields_processBackword (h : Room line) :
    Yields (fun r => Lowers line r.1) (processBackword utf8 line) := by
  apply yields_bind (yields_moveWordLeft h)
  rintro ⟨left, moved⟩ hleft
  have hlowers : Lowers line left := hleft
  cases moved with
  | false => exact hlowers
  | true =>
    apply yields_bind (yields_linebufDelete hlowers.room _)
    intro next hnext
    exact hlowers.trans hnext

/-! ## The text set from outside -/

/-- The offset is that of the beginning of a symbol, or of no symbol of the text. -/
def AtSymbol (utf8 : Bool) (str : List UInt8) (n : ℕ) : Prop :=
  utf8 = false ∨ n = 0 ∨ isUtf8Cont (str.getD n 0) = false

theorem atSymbol_symbolStart (str : List UInt8) (n : ℕ) : AtSymbol true str (symbolStart str n) := by
  induction n with
  | zero => exact Or.inr (Or.inl rfl)
  | succ n ih =>
    unfold symbolStart
    split
    case isTrue => exact ih
    case isFalse hcont => exact Or.inr (Or.inr (by simpa using hcont))

theorem le_symbolStart {str : List UInt8} {m n : ℕ} (hle : m ≤ n) (hm : AtSymbol true str m) :
    m ≤ symbolStart str n := by
  induction n with
  | zero => exact hle
  | succ n ih =>
    unfold symbolStart
    split
    case isTrue hcont =>
      apply ih
      rcases Nat.lt_or_ge m (n + 1) with hlt | hge
      · exact Nat.lt_succ_iff.mp hlt
      · exfalso
        have heq : m = n + 1 := Nat.le_antisymm hle hge
        rcases hm with hm | hm | hm
        · cases hm
        · omega
        · rw [heq, hcont] at hm
          cases hm
    case isFalse => exact hle

/-- The mark is the last offset of the shared text that is at the beginning of a symbol. -/
theorem updateMark_spec (utf8 : Bool) {prevLen i : ℕ} (str : List UInt8) (hi : i ≤ prevLen) :
    updateMark utf8 prevLen str i ≤ i ∧ AtSymbol utf8 str (updateMark utf8 prevLen str i) ∧
      ∀ n ≤ i, AtSymbol utf8 str n → n ≤ updateMark utf8 prevLen str i := by
  refine ⟨updateMark_le utf8 prevLen str i, ?_, ?_⟩
  · unfold updateMark
    cases utf8 with
    | false => exact Or.inl rfl
    | true => exact atSymbol_symbolStart str _
  · intro n hn hat
    have hnot : ¬ i > prevLen := Nat.not_lt.mpr hi
    unfold updateMark
    dsimp only
    rw [if_neg hnot]
    cases utf8 with
    | false => exact hn
    | true => exact le_symbolStart hn hat

/-- The loop finds the text that the line and the new text share. -/
theorem yields_sharedLength (line : LineBuf) (prevLen i : ℕ) (str : List UInt8) :
    Yields (fun r => r = i + commonLength ((line.block.take prevLen).drop i) str)
      (sharedLength line prevLen i str) := by
  induction str generalizing i with
  | nil =>
    rw [commonLength_nil_right]
    exact rfl
  | cons c str ih =>
    unfold sharedLength
    split
    case isTrue hlt =>
      apply yields_bind (yields_self _)
      intro old hold
      have hget : line.block[i]? = some old := by
        unfold peek at hold
        split at hold
        case h_1 hsome => rw [hsome, Except.ok.inj hold]
        case h_2 => cases hold
      have hdrop : (line.block.take prevLen).drop i =
          old :: (line.block.take prevLen).drop (i + 1) := by
        obtain ⟨hin, hval⟩ := List.getElem?_eq_some_iff.mp hget
        have hin' : i < (line.block.take prevLen).length := by
          rw [List.length_take]
          omega
        rw [List.drop_eq_getElem_cons hin', List.getElem_take, hval]
      rw [hdrop, commonLength_cons]
      by_cases heq : old = c
      · rw [if_neg (not_not_intro heq), if_pos heq]
        exact (ih (i + 1)).mono fun r hr => by omega
      · rw [if_pos heq, if_neg heq]
        exact yields_pure rfl
    case isFalse hge =>
      have hnil : (line.block.take prevLen).drop i = [] := by
        apply List.drop_eq_nil_of_le
        rw [List.length_take]
        omega
      rw [hnil, commonLength_nil_left]
      exact yields_pure rfl

theorem yields_copyIn_zero (line : LineBuf) (str : List UInt8) :
    Yields (fun next => (∃ buf, next = { line with buf := buf }) ∧ str.length ≤ next.bufsize ∧
      next.block.take str.length = str) (line.copyIn 0 str) := by
  unfold copyIn
  by_cases hstr : str = []
  · rw [if_pos hstr, hstr]
    exact ⟨⟨line.buf, rfl⟩, Nat.zero_le _, rfl⟩
  · rw [if_neg hstr]
    split
    case isTrue hfits =>
      refine ⟨⟨_, rfl⟩, ?_, take_overwrite_zero line.block str⟩
      have hlength : (overwrite line.block 0 str).length = line.block.length :=
        length_overwrite hfits
      show str.length ≤ (overwrite line.block 0 str).length
      rw [hlength]
      exact Nat.le_trans (Nat.le_add_left _ _) hfits
    case isFalse => exact id

/-- The line after the text was set: the mark is within the text that the old and the new line
share, and it is the last one there at the beginning of a symbol. -/
structure IsSet (utf8 : Bool) (line : LineBuf) (str : List UInt8) (next : LineBuf) : Prop where
  room : Room next
  text : next.text = str
  le : next.updatePos ≤ commonLength line.text str
  atSymbol : AtSymbol utf8 str next.updatePos
  last : ∀ n ≤ commonLength line.text str, AtSymbol utf8 str n → n ≤ next.updatePos

theorem yields_setLine (h : Room line) (heap : Heap) (str : List UInt8) :
    Yields (IsSet utf8 line str) (setLine utf8 heap line str) := by
  obtain ⟨⟨buf, hnext, -, hblock⟩, -⟩ := same_linebufExtend heap { line with len := 0 } str.length
  unfold setLine
  dsimp only
  rw [hnext]
  rw [hnext] at hblock
  have htext : (buf.getD []).take line.len = line.text := take_of_take h.len_le hblock
  apply yields_bind (@yields_sharedLength { line with buf := buf, len := 0 } line.len 0 str)
  intro i hi
  have hcommon : i = commonLength line.text str := by
    have hval : i = 0 + commonLength (((buf.getD []).take line.len).drop 0) str := hi
    rw [List.drop_zero, htext] at hval
    omega
  have hle : i ≤ line.len := by
    rw [hcommon, ← length_text h]
    exact commonLength_le_left _ _
  obtain ⟨hmark, hat, hlast⟩ := updateMark_spec utf8 str hle
  apply yields_bind (yields_copyIn_zero _ str)
  rintro _ ⟨⟨copied, rfl⟩, hsize, hcopied⟩
  apply yields_pure
  rw [hcommon] at hmark hlast
  rw [hcommon] at hat
  exact ⟨⟨Nat.min_le_right _ _, hsize⟩, hcopied, by rw [hcommon]; exact hmark,
    by rw [hcommon]; exact hat, by rw [hcommon]; exact hlast⟩

/-- Every edit but the setting of the line lowers the mark at most. -/
theorem yields_edit (h : Room line) (edit : Edit) (hset : ∀ str heap, edit ≠ .setLine str heap) :
    Yields (Lowers line) (edit.run utf8 line) := by
  have hmap : ∀ x : Except Fault (LineBuf × Bool), Yields (fun r => Lowers line r.1) x →
      Yields (Lowers line) (Prod.fst <$> x) := by
    intro x hx
    cases x with
    | ok r => exact hx
    | error e => exact hx
  cases edit with
  | insert c heap => exact hmap _ (yields_linebufInsert h heap c)
  | deleteSymbol => exact hmap _ (yields_deleteSymbol h)
  | delete n => exact yields_linebufDelete h n
  | backword => exact hmap _ (yields_processBackword h)
  | reset => exact yields_linebufReset line
  | moveLeft => exact hmap _ ((yields_moveLeft h).mono fun r hr => hr.1)
  | moveRight => exact hmap _ (yields_moveRight h)
  | moveWordLeft => exact hmap _ (yields_moveWordLeft h)
  | moveWordRight => exact hmap _ (yields_moveWordRight h)
  | home => exact Lowers.withPos h (Nat.zero_le _)
  | toEnd => exact Lowers.withPos h (Nat.le_refl _)
  | setCursor pos => exact Lowers.withPos h (Nat.min_le_right _ _)
  | setLine str heap => exact absurd rfl (hset str heap)

end LineBuf

/-! ## The screen -/

open LineBuf

/-- A line and what the screen shows of it. -/
structure Screen where
  shown : List UInt8
  line : LineBuf

/-- What happens between the key presses: edits and refreshes, full ones where the prompt or the
window has changed. -/
inductive ScreenOp
  | edit (edit : Edit)
  | refresh (full : Bool)

namespace Screen

/-- A line that was not edited yet. -/
def empty : Screen where
  shown := []
  line := LineBuf.empty

/-- `display_update_line`: the text from the mark on is written, and what was behind is erased. -/
def refresh (s : Screen) (full : Bool) : Except Fault Screen := do
  let line := if full then { s.line with updatePos := 0 } else s.line
  let written ← line.slice line.updatePos line.len
  pure { shown := s.shown.take line.updatePos ++ written, line := { line with updatePos := line.len } }

def step (utf8 : Bool) (s : Screen) : ScreenOp → Except Fault Screen
  | .edit edit => do
      let line ← edit.run utf8 s.line
      pure { s with line := line }
  | .refresh full => s.refresh full

def run (utf8 : Bool) (ops : List ScreenOp) : Except Fault Screen :=
  ops.foldlM (step utf8) empty

/-- The mark is within the text that the screen and the line share, and a refresh from there is as
good as a full one. -/
structure Incremental (s : Screen) : Prop where
  mark : s.line.updatePos ≤ commonLength s.shown s.line.text
  redraw : s.refresh false = s.refresh true

/-- Where the text that is set shares a prefix with the line, up to the beginning of a symbol, the
screen shows that prefix. -/
def ShowsShared (utf8 : Bool) (s : Screen) : ScreenOp → Prop
  | .edit (.setLine str _) =>
    ∀ n ≤ commonLength s.line.text str, AtSymbol utf8 str n → n ≤ commonLength s.shown str
  | _ => True

variable {utf8 : Bool} {s t : Screen}

theorem slice_text (h : Room s.line) (start : ℕ) :
    s.line.slice start s.line.len = .ok (s.line.text.drop start) := by
  unfold LineBuf.slice LineBuf.text
  split
  case isTrue hle =>
    rw [List.drop_eq_nil_of_le]
    rw [List.length_take]
    exact Nat.le_trans (Nat.min_le_left _ _) hle
  case isFalse => rw [if_pos h.len_le, List.drop_take]

/-- What a refresh leaves on the screen: the text before the mark stays. -/
theorem refresh_eq (h : Room s.line) (full : Bool) : s.refresh full =
    .ok { shown := s.shown.take (if full then 0 else s.line.updatePos) ++
            s.line.text.drop (if full then 0 else s.line.updatePos)
          line := { s.line with updatePos := s.line.len } } := by
  unfold refresh
  cases full with
  | false =>
    dsimp only
    rw [if_neg Bool.false_ne_true, slice_text h]
    rfl
  | true =>
    have hslice := slice_text h 0
    have hwritten : LineBuf.slice { s.line with updatePos := 0 } 0 s.line.len =
        .ok (s.line.text.drop 0) := hslice
    dsimp only
    rw [if_pos rfl, hwritten]
    rfl

theorem incremental_of_mark (h : Room s.line)
    (hmark : s.line.updatePos ≤ commonLength s.shown s.line.text) : s.Incremental where
  mark := hmark
  redraw := by
    rw [refresh_eq h, refresh_eq h, if_neg Bool.false_ne_true, if_pos rfl,
      take_append_drop_of_le hmark]
    rfl

theorem mark_of_lowers {next : LineBuf} (h : Room s.line) (hlowers : Lowers s.line next)
    (hmark : s.line.updatePos ≤ commonLength s.shown s.line.text) :
    next.updatePos ≤ commonLength s.shown next.text := by
  obtain ⟨hshown, htext, htake⟩ := le_commonLength_iff.mp (Nat.le_trans hlowers.mark hmark)
  rw [length_text h] at htext
  obtain ⟨hlen, hkept⟩ := hlowers.before _ (Nat.le_refl _) htext
  rw [le_commonLength_iff, length_text hlowers.room]
  exact ⟨hshown, hlen, htake.trans hkept.symm⟩

theorem room_step (h : Room s.line) (op : ScreenOp) (hstep : step utf8 s op = .ok t) :
    Room t.line := by
  cases op with
  | refresh full =>
    rw [show step utf8 s (.refresh full) = s.refresh full from rfl, refresh_eq h] at hstep
    cases hstep
    exact ⟨h.pos_le, h.len_le⟩
  | edit edit =>
    have hroom : Yields Room (edit.run utf8 s.line) := by
      by_cases hset : ∃ str heap, edit = .setLine str heap
      · obtain ⟨str, heap, rfl⟩ := hset
        exact (yields_setLine h heap str).mono fun next hnext => hnext.room
      · exact (yields_edit h edit fun str heap heq => hset ⟨str, heap, heq⟩).mono
          fun next hnext => hnext.room
    have hyields : Yields (fun t : Screen => Room t.line) (step utf8 s (.edit edit)) :=
      yields_bind hroom fun line hline => hline
    exact hyields.of_ok hstep

theorem edit_of_step {edit : Edit} (hstep : step utf8 s (.edit edit) = .ok t) :
    edit.run utf8 s.line = .ok t.line ∧ t.shown = s.shown := by
  have hyields : Yields (fun t : Screen => edit.run utf8 s.line = .ok t.line ∧ t.shown = s.shown)
      (step utf8 s (.edit edit)) :=
    yields_bind (yields_self _) fun line hline => ⟨hline, rfl⟩
  exact hyields.of_ok hstep

variable {op : ScreenOp}

theorem mark_step (h : Room s.line) (hmark : s.line.updatePos ≤ commonLength s.shown s.line.text)
    (hshared : ShowsShared utf8 s op) (hstep : step utf8 s op = .ok t) :
    t.line.updatePos ≤ commonLength t.shown t.line.text := by
  cases op with
  | refresh full =>
    have htaken : s.shown.take (if full then 0 else s.line.updatePos) ++
        s.line.text.drop (if full then 0 else s.line.updatePos) = s.line.text := by
      apply take_append_drop_of_le
      split
      · exact Nat.zero_le _
      · exact hmark
    rw [show step utf8 s (.refresh full) = s.refresh full from rfl, refresh_eq h, htaken] at hstep
    cases hstep
    calc s.line.len = s.line.text.length := (length_text h).symm
      _ = commonLength s.line.text s.line.text := (commonLength_self _).symm
      _ ≤ _ := Nat.le_refl _
  | edit edit =>
    obtain ⟨hrun, hshown⟩ := edit_of_step hstep
    rw [hshown]
    by_cases hset : ∃ str heap, edit = .setLine str heap
    · obtain ⟨str, heap, rfl⟩ := hset
      have hline := (yields_setLine h heap str).of_ok hrun
      rw [hline.text]
      exact hshared _ hline.le hline.atSymbol
    · have hlowers := (yields_edit h edit fun str heap heq => hset ⟨str, heap, heq⟩).of_ok hrun
      exact mark_of_lowers h hlowers hmark

/-- A text whose setting leaves the mark within the shown text shares only what is shown. -/
theorem showsShared_of_mark (h : Room s.line) (hstep : step utf8 s op = .ok t)
    (hmark : t.line.updatePos ≤ commonLength t.shown t.line.text) : ShowsShared utf8 s op := by
  cases op with
  | refresh full => trivial
  | edit edit =>
    cases edit with
    | setLine str heap =>
      obtain ⟨hrun, hshown⟩ := edit_of_step hstep
      have hline := (yields_setLine h heap str).of_ok hrun
      rw [hshown, hline.text] at hmark
      intro n hn hat
      exact Nat.le_trans (hline.last n hn hat) hmark
    | _ => trivial

theorem run_concat {before : List ScreenOp} (hrun : run utf8 (before ++ [op]) = .ok t) :
    ∃ s, run utf8 before = .ok s ∧ step utf8 s op = .ok t := by
  unfold run at hrun ⊢
  rw [List.foldlM_append] at hrun
  cases hbefore : before.foldlM (step utf8) empty with
  | error e =>
    rw [hbefore] at hrun
    cases hrun
  | ok s =>
    rw [hbefore] at hrun
    refine ⟨s, rfl, ?_⟩
    have hlast : [op].foldlM (step utf8) s = .ok t := hrun
    rw [List.foldlM_cons] at hlast
    cases hstep : step utf8 s op with
    | error e =>
      rw [hstep] at hlast
      cases hlast
    | ok u =>
      rw [hstep] at hlast
      exact hlast

theorem run_of_step {before : List ScreenOp} (hrun : run utf8 before = .ok s)
    (hstep : step utf8 s op = .ok t) : run utf8 (before ++ [op]) = .ok t := by
  unfold run at hrun ⊢
  rw [List.foldlM_append, hrun]
  show [op].foldlM (step utf8) s = .ok t
  rw [List.foldlM_cons, hstep]
  rfl

theorem room_run {ops : List ScreenOp} (hrun : run utf8 ops = .ok s) : Room s.line := by
  induction ops using List.reverseRecOn generalizing s with
  | nil =>
    cases hrun
    exact ⟨Nat.le_refl _, Nat.le_refl _⟩
  | append_singleton ops op ih =>
    obtain ⟨r, hbefore, hstep⟩ := run_concat hrun
    exact room_step (ih hbefore) op hstep

/-- In every state of a run the incremental refresh is a full one exactly if every text that is
set on the way shares with the line only what the screen shows. -/
theorem incremental_iff (utf8 : Bool) (ops : List ScreenOp) :
    (∀ before s, before <+: ops → run utf8 before = .ok s → s.Incremental) ↔
      ∀ before op s t, before ++ [op] <+: ops → run utf8 before = .ok s →
        step utf8 s op = .ok t → ShowsShared utf8 s op := by
  constructor
  · intro h before op s t hstarts hrun hstep
    have hmark := (h (before ++ [op]) t hstarts (run_of_step hrun hstep)).mark
    exact showsShared_of_mark (room_run hrun) hstep hmark
  · intro h before s hstarts hrun
    apply incremental_of_mark (room_run hrun)
    induction before using List.reverseRecOn generalizing s with
    | nil =>
      cases hrun
      exact Nat.zero_le _
    | append_singleton before op ih =>
      obtain ⟨r, hbefore, hstep⟩ := run_concat hrun
      have hshorter : before <+: ops := (List.prefix_append before [op]).trans hstarts
      exact mark_step (room_run hbefore) (ih r hshorter hbefore)
        (h before op r s hstarts hbefore hstep) hstep

/-- The line `abc` is shown; `xbc` is set, and `xbd` over it before a refresh. -/
def overUnshown : List ScreenOp :=
  [.edit (.setLine [97, 98, 99] (some fun _ => 0)), .refresh true,
    .edit (.setLine [120, 98, 99] (some fun _ => 0)),
    .edit (.setLine [120, 98, 100] (some fun _ => 0))]

/-- The refresh then shows `abd`. -/
theorem not_incremental_overUnshown :
    ¬ ∀ before s, before <+: overUnshown → run false before = .ok s → s.Incremental := by
  intro h
  have hrun : (run false overUnshown).toOption.map
      (fun s => decide (s.line.updatePos ≤ commonLength s.shown s.line.text)) = some false := by
    decide +kernel
  cases hlast : run false overUnshown with
  | error e =>
    rw [hlast] at hrun
    cases hrun
  | ok s =>
    rw [hlast] at hrun
    have hmark := (h overUnshown s (List.prefix_refl _) hlast).mark
    have hfalse : decide (s.line.updatePos ≤ commonLength s.shown s.line.text) = false :=
      Option.some.inj hrun
    exact absurd hmark (of_decide_eq_false hfalse)

end Screen

end OpenWrt.Uline
