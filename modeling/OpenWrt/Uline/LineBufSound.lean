/-
# Which operations keep a line buffer sound

A sound line that has a buffer has its cursor within the text, room for the text and its
terminator, and the terminator behind it; a line that has none is empty. Moving the
cursor and inserting keep this without a condition. Deleting moves one byte for each of
the tail and as many again as are deleted, so the block has to be that long; resetting
writes the terminator into a buffer that has to exist; and setting the line writes no
terminator at all, so one has to be there already.
-/

import OpenWrt.Uline.LineBuf

namespace OpenWrt.Uline

open OpenWrt.Lib

namespace LineBuf

/-- What the claims about the buffer come from, with the mark of the display in it. -/
structure Sound (line : LineBuf) : Prop where
  pos_le : line.pos ≤ line.len
  updatePos_le : line.updatePos ≤ line.len
  ended : line.buf ≠ none → line.block[line.len]? = some 0
  unallocated : line.buf = none → line.len = 0

/-- The `memmove` of a deletion stays within the block. -/
def DeleteRoom (line : LineBuf) (n : ℕ) : Prop :=
  line.len + min n (line.len - line.pos) + 1 ≤ line.bufsize

/-- The buffer has a zero byte where the text to be set ends. -/
def Refits (line : LineBuf) (str : List UInt8) : Prop :=
  line.block[str.length]? = some 0

variable {bad : Fault → Prop} {line : LineBuf}

theorem sound_empty : Sound empty where
  pos_le := Nat.le_refl _
  updatePos_le := Nat.le_refl _
  ended h := absurd rfl h
  unallocated _ := rfl

theorem Sound.len_lt (h : Sound line) (hbuf : line.buf ≠ none ∨ 0 < line.len) :
    line.len < line.bufsize := by
  have hsome : line.buf ≠ none := by
    rcases hbuf with hbuf | hlen
    · exact hbuf
    · intro hnone
      have := h.unallocated hnone
      omega
  exact (List.getElem?_eq_some_iff.mp (h.ended hsome)).1

theorem Sound.withPos (h : Sound line) {pos : ℕ} (hpos : pos ≤ line.len) :
    Sound { line with pos := pos } where
  pos_le := hpos
  updatePos_le := h.updatePos_le
  ended := h.ended
  unallocated := h.unallocated

/-! ## Accesses -/

theorem avoids_peek {i : ℕ} (h : i < line.bufsize) :
    Avoids bad (fun c => line.block[i]? = some c) (line.peek i) := by
  have hget : line.block[i]? = some line.block[i] := List.getElem?_eq_getElem h
  unfold peek
  rw [hget]
  rfl

theorem avoids_slice {start stop : ℕ} (h : stop ≤ start ∨ stop ≤ line.bufsize) :
    Avoids bad (fun _ => True) (line.slice start stop) := by
  unfold slice
  split
  · trivial
  · rw [if_pos (by omega)]
    trivial

theorem avoids_text (h : Sound line) (start : ℕ) :
    Avoids bad (fun _ => True) (line.slice start line.len) := by
  apply avoids_slice
  rcases Nat.eq_zero_or_pos line.len with hzero | hpos
  · left
    omega
  · right
    exact Nat.le_of_lt (h.len_lt (.inr hpos))

variable {block str : List UInt8}

theorem length_overwrite {dst : ℕ} (h : dst + str.length ≤ block.length) :
    (overwrite block dst str).length = block.length := by
  simp [overwrite]
  omega

theorem getElem?_overwrite_of_ge {dst i : ℕ} (h : dst + str.length ≤ block.length)
    (hi : dst + str.length ≤ i) : (overwrite block dst str)[i]? = block[i]? := by
  have htake : (block.take dst ++ str).length = dst + str.length := by
    simp
    omega
  rw [overwrite, List.getElem?_append_right (by omega), htake, List.getElem?_drop]
  congr 1
  omega

theorem getElem?_overwrite_of_mem {dst i : ℕ} (h : dst + str.length ≤ block.length)
    (hi : i < str.length) : (overwrite block dst str)[dst + i]? = str[i]? := by
  have htake : (block.take dst).length = dst := by
    simp
    omega
  rw [overwrite, List.append_assoc, List.getElem?_append_right (by omega), htake,
    Nat.add_sub_cancel_left, List.getElem?_append_left hi]

/-! ## The loops -/

theorem avoids_backWhile (kind : UInt8 → Bool) {pos : ℕ} (h : pos < line.bufsize) :
    Avoids bad (· ≤ pos) (backWhile kind line pos) := by
  induction pos with
  | zero => exact Nat.le_refl _
  | succ pos ih =>
    refine avoids_bind (avoids_peek h) fun c _ => ?_
    split
    · exact (ih (by omega)).mono fun r hr => Nat.le_succ_of_le hr
    · exact Nat.le_refl _

theorem avoids_forwardWhile (kind : UInt8 → Bool) {left pos : ℕ}
    (hlen : pos + left < line.bufsize) :
    Avoids bad (· ≤ pos + left) (forwardWhile kind line left pos) := by
  induction left generalizing pos with
  | zero => exact avoids_bind (avoids_peek hlen) fun _ _ => Nat.le_refl _
  | succ left ih =>
    refine avoids_bind (avoids_peek (by omega)) fun c _ => ?_
    split
    · exact (ih (by omega)).mono fun r hr => by omega
    · exact Nat.le_add_right _ _

theorem avoids_skipCont {left pos : ℕ} (hlen : pos + left ≤ line.bufsize) :
    Avoids bad (· ≤ pos + left) (skipCont line left pos) := by
  induction left generalizing pos with
  | zero => exact Nat.le_refl _
  | succ left ih =>
    refine avoids_bind (avoids_peek (by omega)) fun c _ => ?_
    split
    · exact (ih (by omega)).mono fun r hr => by omega
    · exact Nat.le_add_right _ _

theorem avoids_sharedLength {prevLen i : ℕ} {str : List UInt8} (hprev : prevLen ≤ line.bufsize) :
    Avoids bad (· ≤ i + str.length) (sharedLength line prevLen i str) := by
  induction str generalizing i with
  | nil => exact Nat.le_refl _
  | cons c str ih =>
    unfold sharedLength
    split
    · refine avoids_bind (avoids_peek (by omega)) fun old _ => ?_
      split
      · exact Nat.le_add_right _ _
      · refine ih.mono fun r hr => ?_
        rw [List.length_cons]
        omega
    · exact Nat.le_add_right _ _

theorem symbolStart_le (str : List UInt8) (i : ℕ) : symbolStart str i ≤ i := by
  induction i with
  | zero => exact Nat.le_refl _
  | succ i ih =>
    unfold symbolStart
    split
    · exact Nat.le_succ_of_le ih
    · exact Nat.le_refl _

theorem updateMark_le (utf8 : Bool) (prevLen : ℕ) (str : List UInt8) (i : ℕ) :
    updateMark utf8 prevLen str i ≤ i := by
  have hstep : (if i > prevLen then i - 1 else i) ≤ i := by
    split <;> omega
  unfold updateMark
  dsimp only
  split
  · exact Nat.le_trans (symbolStart_le str _) hstep
  · exact hstep

/-! ## Moving -/

theorem avoids_utf8MoveRight {pos len : ℕ} (hpos : pos ≤ len) (hlen : len ≤ line.bufsize) :
    Avoids bad (· ≤ len) (utf8MoveRight line pos len) := by
  unfold utf8MoveRight
  split
  · exact hpos
  · exact (avoids_skipCont (by omega)).mono fun r hr => by omega

/-- What a move gives: a sound line, and a cursor before the end if it moved to the left. -/
def MovedLeft (moved : LineBuf × Bool) : Prop :=
  Sound moved.1 ∧ (moved.2 = true → moved.1.pos < moved.1.len)

theorem avoids_moveLeft (h : Sound line) (utf8 : Bool) :
    Avoids bad MovedLeft (moveLeft utf8 line) := by
  have hpos := h.pos_le
  unfold moveLeft
  split
  case isTrue => exact ⟨h, fun hmoved => nomatch hmoved⟩
  case isFalse hzero =>
    have hlen := h.len_lt (.inr (by omega))
    have hleft : Avoids bad (· < line.len) (leftPos utf8 line) := by
      unfold leftPos
      split
      · obtain ⟨pos, hsucc⟩ := Nat.exists_eq_succ_of_ne_zero hzero
        rw [hsucc]
        refine (avoids_backWhile isUtf8Cont (show pos < line.bufsize by omega)).mono fun r hr => ?_
        omega
      · show line.pos - 1 < line.len
        omega
    refine avoids_bind hleft fun pos hr => ?_
    exact ⟨h.withPos (Nat.le_of_lt hr), fun _ => hr⟩

theorem avoids_moveRight (h : Sound line) (utf8 : Bool) :
    Avoids bad (fun r => Sound r.1) (moveRight utf8 line) := by
  unfold moveRight
  split
  case isTrue => exact h
  case isFalse hend =>
    have hlen := h.len_lt (.inr (by omega))
    have hright : Avoids bad (· ≤ line.len) (rightPos utf8 line) := by
      unfold rightPos
      split
      · exact avoids_utf8MoveRight h.pos_le (Nat.le_of_lt hlen)
      · show line.pos + 1 ≤ line.len
        omega
    refine avoids_bind hright fun pos hr => ?_
    exact h.withPos hr

theorem avoids_moveWordLeft (h : Sound line) (utf8 : Bool) :
    Avoids bad (fun r => Sound r.1) (moveWordLeft utf8 line) := by
  refine avoids_bind (avoids_moveLeft h utf8) fun moved hmoved => ?_
  obtain ⟨left, hasMoved⟩ := moved
  have hsound : Sound left := hmoved.1
  have hpos : hasMoved = true → left.pos < left.len := hmoved.2
  cases hasMoved with
  | false => exact hsound
  | true =>
    have hlt : left.pos < left.len := hpos rfl
    have hlen := hsound.len_lt (.inr (by omega))
    refine avoids_bind (avoids_backWhile _ (by omega)) fun p hp => ?_
    refine avoids_bind (avoids_backWhile _ (by omega)) fun q hq => ?_
    refine avoids_bind (avoids_peek (by omega)) fun c _ => ?_
    refine avoids_pure (hsound.withPos ?_)
    split <;> omega

theorem avoids_moveWordRight (h : Sound line) :
    Avoids bad (fun r => Sound r.1) (moveWordRight line) := by
  have hpos := h.pos_le
  unfold moveWordRight
  split
  case isTrue => exact h
  case isFalse hend =>
    have hlen := h.len_lt (.inr (by omega))
    refine avoids_bind (avoids_forwardWhile _ (by omega)) fun p hp => ?_
    refine avoids_bind (avoids_forwardWhile _ (by omega)) fun q hq => ?_
    exact h.withPos (show q ≤ line.len by omega)

/-! ## Editing -/

/-- A `memcpy` that fits keeps the size and what is behind it. -/
theorem avoids_copyIn {dst : ℕ} {str : List UInt8} (h : dst + str.length ≤ line.bufsize) :
    Avoids bad (fun r => ∃ buf, r = { line with buf := buf } ∧
        (buf.getD []).length = line.bufsize ∧ (line.buf ≠ none → buf ≠ none) ∧
        ∀ i, dst + str.length ≤ i → (buf.getD [])[i]? = line.block[i]?)
      (line.copyIn dst str) := by
  unfold copyIn
  by_cases hstr : str = []
  · rw [if_pos hstr]
    exact ⟨line.buf, rfl, rfl, id, fun _ _ => rfl⟩
  · rw [if_neg hstr, if_pos h]
    exact ⟨_, rfl, length_overwrite h, fun _ => Option.some_ne_none _,
      fun i hi => getElem?_overwrite_of_ge h hi⟩

/-- A `memmove` that fits puts the bytes where they belong. -/
theorem avoids_move {dst src n : ℕ} (hn : 0 < n) (hsrc : src + n ≤ line.bufsize)
    (hdst : dst + n ≤ line.bufsize) :
    Avoids bad (fun r => ∃ buf, r = { line with buf := buf } ∧
        (buf.getD []).length = line.bufsize ∧
        ∀ i < n, (buf.getD [])[dst + i]? = line.block[src + i]?)
      (line.move dst src n) := by
  have hlength : ((line.block.drop src).take n).length = n := by
    have : src + n ≤ line.block.length := hsrc
    simp
    omega
  have hfits : dst + ((line.block.drop src).take n).length ≤ line.bufsize := by
    rw [hlength]
    exact hdst
  have hne : (line.block.drop src).take n ≠ [] := List.ne_nil_of_length_pos (by omega)
  unfold move copyIn
  rw [if_neg (by omega), if_pos hsrc, if_neg hne, if_pos hfits]
  refine ⟨_, rfl, length_overwrite hfits, fun i hi => ?_⟩
  have hget := getElem?_overwrite_of_mem hfits (show i < _ by omega)
  rw [List.getElem?_take_of_lt hi, List.getElem?_drop] at hget
  exact hget

theorem avoids_poke {i : ℕ} (c : UInt8) (h : i < line.bufsize) :
    Avoids bad (fun r => r = { line with buf := some (line.block.set i c) }) (line.poke i c) := by
  unfold poke
  rw [if_pos h]
  rfl

/-- The room `linebuf_extend` makes. -/
theorem linebufExtend_spec (heap : Heap) (line : LineBuf) (size : ℕ)
    (hlen : line.len ≤ line.bufsize) :
    ∃ buf, (linebufExtend heap line size).1 = { line with buf := buf } ∧
      ((linebufExtend heap line size).2 = true →
        line.len + size ≤ (buf.getD []).length) ∧
      ((linebufExtend heap line size).2 = false → buf = line.buf) := by
  unfold linebufExtend
  dsimp only
  split
  case isTrue hroom =>
    refine ⟨line.buf, rfl, fun _ => ?_, fun _ => rfl⟩
    show line.len + size ≤ line.bufsize
    omega
  case isFalse =>
    cases heap with
    | none => exact ⟨line.buf, rfl, fun h => absurd h Bool.false_ne_true, fun _ => rfl⟩
    | some fresh =>
      refine ⟨_, rfl, fun _ => ?_, fun h => absurd (show true = false from h) (by decide)⟩
      have hblock : line.block.length = line.bufsize := rfl
      simp only [Option.getD_some, List.length_append, List.length_map, List.length_range,
        LINEBUF_CHUNK, hblock]
      omega

/-- The tail can be moved where there is room for the new bytes and the terminator. -/
theorem avoids_shiftTail {n : ℕ} (hpos : line.pos ≤ line.len)
    (hroom : line.len + (n + 1) ≤ line.bufsize) :
    Avoids bad (fun r => ∃ buf, r = { line with buf := buf } ∧
        (buf.getD []).length = line.bufsize) (line.shiftTail n) := by
  unfold shiftTail
  dsimp only
  split
  case isTrue htail =>
    refine (avoids_move htail (by omega) (by omega)).mono ?_
    rintro r ⟨buf, rfl, hsize, -⟩
    exact ⟨buf, rfl, hsize⟩
  case isFalse =>
    have hin : line.pos + n < line.bufsize := by omega
    refine (avoids_poke 0 hin).mono ?_
    rintro r rfl
    exact ⟨_, rfl, List.length_set⟩

theorem Sound.len_le (h : Sound line) : line.len ≤ line.bufsize := by
  rcases Nat.eq_zero_or_pos line.len with hzero | hpos
  · omega
  · exact Nat.le_of_lt (h.len_lt (.inr hpos))

theorem avoids_linebufInsert (h : Sound line) (heap : Heap) (c : List UInt8) :
    Avoids bad (fun r => Sound r.1) (linebufInsert heap line c) := by
  have hpos := h.pos_le
  obtain ⟨buf, hline, hroom, hsame⟩ := linebufExtend_spec heap line (c.length + 1) h.len_le
  unfold linebufInsert
  generalize linebufExtend heap line (c.length + 1) = extended at hline hroom hsame ⊢
  obtain ⟨next, ok⟩ := extended
  dsimp only at hline hroom hsame ⊢
  subst hline
  cases ok with
  | false =>
    rw [if_pos rfl, hsame rfl]
    exact h
  | true =>
    have hsize : line.len + (c.length + 1) ≤ (buf.getD []).length := hroom rfl
    rw [if_neg Bool.true_eq_false.mp]
    refine avoids_bind (avoids_shiftTail hpos hsize) ?_
    rintro _ ⟨shifted, rfl, hshifted⟩
    have hfits : line.pos + c.length ≤ (shifted.getD []).length := by
      have hblock : (shifted.getD []).length = (buf.getD []).length := hshifted
      omega
    refine avoids_bind (avoids_copyIn hfits) ?_
    rintro _ ⟨copied, rfl, hcopied, -⟩
    have hend : line.len + c.length < (copied.getD []).length := by
      have hblock : (shifted.getD []).length = (buf.getD []).length := hshifted
      have hblock' : (copied.getD []).length = (shifted.getD []).length := hcopied
      omega
    refine avoids_bind (avoids_poke 0 hend) ?_
    rintro _ rfl
    refine avoids_pure ⟨?_, ?_, ?_, ?_⟩
    · exact Nat.add_le_add_right hpos _
    · exact Nat.le_trans (Nat.min_le_right _ _) (Nat.le_add_right_of_le hpos)
    · intro _
      exact List.getElem?_set_self hend
    · exact fun hnone => nomatch hnone

theorem avoids_linebufDelete (h : Sound line) {n : ℕ} (hroom : DeleteRoom line n) :
    Avoids bad Sound (linebufDelete line n) := by
  have hpos := h.pos_le
  unfold DeleteRoom at hroom
  have hbuf : line.buf ≠ none := by
    intro hnone
    have hsize : line.bufsize = 0 := by simp [bufsize, block, hnone]
    omega
  unfold linebufDelete
  have hmove : Avoids bad _ (LineBuf.move { line with updatePos := min line.updatePos line.pos }
      line.pos (line.pos + min n (line.len - line.pos)) (line.len - line.pos + 1)) :=
    avoids_move (Nat.succ_pos _) (show _ ≤ line.bufsize by omega)
      (show _ ≤ line.bufsize by omega)
  refine avoids_bind hmove ?_
  rintro _ ⟨buf, rfl, hsize, hmoved⟩
  refine avoids_pure ⟨?_, ?_, ?_, ?_⟩
  · show line.pos ≤ line.len - min n (line.len - line.pos)
    omega
  · show min line.updatePos line.pos ≤ line.len - min n (line.len - line.pos)
    omega
  · intro _
    have hlast := hmoved (line.len - min n (line.len - line.pos) - line.pos) (by omega)
    have hold : line.block[line.pos + min n (line.len - line.pos) +
        (line.len - min n (line.len - line.pos) - line.pos)]? = some 0 := by
      rw [show line.pos + min n (line.len - line.pos) +
        (line.len - min n (line.len - line.pos) - line.pos) = line.len by omega]
      exact h.ended hbuf
    have hnew := hlast.trans hold
    rwa [show line.pos + (line.len - min n (line.len - line.pos) - line.pos) =
      line.len - min n (line.len - line.pos) by omega] at hnew
  · intro hnone
    exfalso
    have hnone' : buf = none := hnone
    rw [hnone'] at hsize
    have : 0 = line.bufsize := hsize
    omega

theorem avoids_linebufReset (hbuf : 0 < line.bufsize) :
    Avoids bad Sound (linebufReset line) := by
  have hpoke : Avoids bad _ (poke { line with pos := 0, len := 0, updatePos := 0 } 0 0) :=
    avoids_poke 0 hbuf
  refine hpoke.mono ?_
  rintro _ rfl
  refine ⟨Nat.le_refl _, Nat.le_refl _, fun _ => ?_, fun hnone => nomatch hnone⟩
  exact List.getElem?_set_self hbuf

theorem avoids_symbolLength (h : Sound line) (utf8 : Bool) :
    Avoids bad (fun _ => True) (symbolLength utf8 line) := by
  unfold symbolLength
  split
  · exact avoids_bind (avoids_utf8MoveRight h.pos_le h.len_le) fun _ _ => trivial
  · trivial

/-- `delete_symbol` with room for its move. -/
theorem avoids_deleteSymbol (h : Sound line) (utf8 : Bool)
    (hroom : line.pos ≠ line.len → ∀ n, symbolLength utf8 line = .ok n → DeleteRoom line n) :
    Avoids bad (fun r => Sound r.1) (deleteSymbol utf8 line) := by
  unfold deleteSymbol
  by_cases hend : line.pos = line.len
  · rw [if_pos hend]
    exact h
  · rw [if_neg hend]
    have hlength : Avoids bad (DeleteRoom line) (symbolLength utf8 line) := by
      have havoids : Avoids bad (fun _ => True) (symbolLength utf8 line) :=
        avoids_symbolLength h utf8
      cases hn : symbolLength utf8 line with
      | ok n => exact hroom hend n hn
      | error e =>
        rw [hn] at havoids
        exact havoids
    refine avoids_bind hlength fun n hn => ?_
    exact avoids_bind (avoids_linebufDelete h hn) fun r hr => hr

/-- `process_backword` with room for its move. -/
theorem avoids_processBackword (h : Sound line) (utf8 : Bool)
    (hroom : ∀ left, moveWordLeft utf8 line = .ok (left, true) →
      DeleteRoom left (line.pos - left.pos)) :
    Avoids bad (fun r => Sound r.1) (processBackword utf8 line) := by
  have hword : Avoids bad
      (fun r => Sound r.1 ∧ (r.2 = true → DeleteRoom r.1 (line.pos - r.1.pos)))
      (moveWordLeft utf8 line) := by
    have havoids : Avoids bad (fun r => Sound r.1) (moveWordLeft utf8 line) :=
      avoids_moveWordLeft h utf8
    cases hn : moveWordLeft utf8 line with
    | ok moved =>
      rw [hn] at havoids
      obtain ⟨left, hasMoved⟩ := moved
      refine ⟨havoids, fun hmoved => hroom left ?_⟩
      rw [hn]
      exact congrArg (fun b => Except.ok (left, b)) hmoved
    | error e =>
      rw [hn] at havoids
      exact havoids
  unfold processBackword
  refine avoids_bind hword fun moved hmoved => ?_
  obtain ⟨left, hasMoved⟩ := moved
  have hsound : Sound left := hmoved.1
  cases hasMoved with
  | false => exact hsound
  | true => exact avoids_bind (avoids_linebufDelete hsound (hmoved.2 rfl)) fun r hr => hr

/-- `__uline_set_line` where the terminator is there already. -/
theorem avoids_setLine (h : Sound line) (utf8 : Bool) (heap : Heap) {str : List UInt8}
    (hfits : Refits line str) : Avoids bad Sound (setLine utf8 heap line str) := by
  have hlt : str.length < line.bufsize := (List.getElem?_eq_some_iff.mp hfits).1
  have hbuf : line.buf ≠ none := by
    intro hnone
    simp [bufsize, block, hnone] at hlt
  have hsome : line.buf.isSome = true := Option.isSome_iff_ne_none.mpr hbuf
  have hextend : linebufExtend heap { line with len := 0 } str.length =
      ({ line with len := 0 }, true) := by
    unfold linebufExtend
    exact if_pos ⟨hsome, hlt⟩
  unfold setLine
  rw [hextend]
  dsimp only
  have hshared : Avoids bad (· ≤ 0 + str.length)
      (sharedLength { line with len := 0 } line.len 0 str) := avoids_sharedLength h.len_le
  refine avoids_bind hshared fun i hi => ?_
  have hmark : updateMark utf8 line.len str i ≤ str.length := by
    have := updateMark_le utf8 line.len str i
    omega
  refine avoids_bind (avoids_copyIn (show 0 + str.length ≤ line.bufsize by omega)) ?_
  rintro _ ⟨buf, rfl, hsize, -, hbehind⟩
  have hzero : (buf.getD [])[str.length]? = some 0 :=
    (hbehind str.length (by omega)).trans hfits
  refine avoids_pure ⟨Nat.min_le_right _ _, hmark, fun _ => hzero, fun hnone => ?_⟩
  have hnone' : buf = none := hnone
  rw [hnone'] at hzero
  exact nomatch hzero

end LineBuf

end OpenWrt.Uline
