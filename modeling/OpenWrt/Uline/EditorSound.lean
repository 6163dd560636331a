/-
# The line buffers over whole runs

Every access of the editor to its lines stays in bounds, and the lines stay sound, as
long as four things do not happen: a line is set where its terminator is not there
already, a line without a buffer is reset, a deletion moves past the end of the block,
and a key is for a second line that the program has closed meanwhile.
-/

import OpenWrt.Uline.EditorDisplay

namespace OpenWrt.Uline

open OpenWrt.Lib

/-! ## The conditions -/

namespace LineBuf

def SymbolRoom (utf8 : Bool) (line : LineBuf) : Prop :=
  line.pos = line.len ∨ ∀ n ∈ (symbolLength utf8 line).toOption, DeleteRoom line n

/-- The symbol before the cursor can be deleted. -/
def BackspaceRoom (utf8 : Bool) (line : LineBuf) : Prop :=
  ∀ r ∈ (moveLeft utf8 line).toOption, r.2 = true → SymbolRoom utf8 r.1

def BackwordRoom (utf8 : Bool) (line : LineBuf) : Prop :=
  ∀ r ∈ (moveWordLeft utf8 line).toOption, r.2 = true → DeleteRoom r.1 (line.pos - r.1.pos)

instance (line : LineBuf) (n : ℕ) : Decidable (DeleteRoom line n) :=
  inferInstanceAs (Decidable (_ ≤ _))

instance (line : LineBuf) (str : List UInt8) : Decidable (Refits line str) :=
  inferInstanceAs (Decidable (_ = _))

instance (utf8 : Bool) (line : LineBuf) : Decidable (SymbolRoom utf8 line) :=
  inferInstanceAs (Decidable (_ ∨ _))

instance (utf8 : Bool) (line : LineBuf) : Decidable (BackspaceRoom utf8 line) :=
  inferInstanceAs (Decidable (∀ r ∈ (moveLeft utf8 line).toOption, _))

instance (utf8 : Bool) (line : LineBuf) : Decidable (BackwordRoom utf8 line) :=
  inferInstanceAs (Decidable (∀ r ∈ (moveWordLeft utf8 line).toOption, _))

/-- The line as the claims about it have it: a buffer with the text and its terminator. -/
def InBounds (line : LineBuf) : Prop :=
  line.buf ≠ none →
    line.pos ≤ line.len ∧ line.len < line.bufsize ∧ line.block[line.len]? = some 0

theorem Sound.inBounds {line : LineBuf} (h : Sound line) : line.InBounds :=
  fun hbuf => ⟨h.pos_le, h.len_lt (.inl hbuf), h.ended hbuf⟩

end LineBuf

def Escape.usesLine : Escape → Bool
  | .cursorLeft => true
  | .cursorWordLeft => true
  | .cursorRight => true
  | .cursorWordRight => true
  | .home => true
  | .end_ => true
  | .delete => true
  | _ => false

namespace State

/-- A line without a buffer is not reset, and what is deleted can be. -/
def CtrlMeets (s : State) (c : UInt8) : Prop :=
  (c = KEY_NAK → 0 < s.edited.bufsize) ∧
    (c = KEY_BS ∨ c = KEY_DEL → s.edited.BackspaceRoom s.utf8) ∧
    (c = KEY_ETB → s.edited.BackwordRoom s.utf8)

def EscMeets (s : State) (second : Bool) (esc : Escape) : Prop :=
  (second = true → esc.usesLine = true → s.line2 ≠ none) ∧
    (esc = .delete → (if second then s.edited else s.line).SymbolRoom s.utf8)

/-- The same for a sequence that is complete. -/
def BeginMeets (s : State) (esc : Escape) : Prop :=
  ¬ (s.line2.isSome ∧ esc ≠ .delete) → s.EscMeets s.line2.isSome esc

/-- The same for a byte that is read. -/
def CharMeets (host : Host) (s : State) (c : UInt8) : Prop :=
  (∀ seq ∈ s.escSeq, s.BeginMeets (vt100EscDecode host (seq ++ [c])).1) ∧
    (s.escSeq = none → s.checkUtf8 c = true → s.CtrlMeets c)

/-- The same for a callback that returns. -/
def ResumeMeets (host : Host) (s : State) (result : Bool) : Pending → Prop
  | .windowChanged key => ∀ c ∈ key, CharMeets host s c
  | .keyInput c => result = false → s.CtrlMeets c
  | .line2Cursor esc _ => s.EscMeets result esc
  | _ => True

/-- The condition of a step, in the state before it. -/
def LinesMeet (host : Host) (s : State) : Event → Prop
  | .api (.setLine str _) => s.line.Refits str
  | .api (.setLine2 str _) => ∀ line2 ∈ s.line2, line2.Refits str
  | .byte c none _ => s.pending = none → s.stop = false → CharMeets host s c
  | .byte c (some ws) _ => s.pending = none → s.stop = false → (s.updateWindowSize ws).2 = false →
      CharMeets host (s.updateWindowSize ws).1 c
  | .ret result _ => ∀ pending ∈ s.pending, ResumeMeets host s result pending
  | _ => True

instance (s : State) (c : UInt8) : Decidable (s.CtrlMeets c) :=
  inferInstanceAs (Decidable (_ ∧ _))

instance (s : State) (second : Bool) (esc : Escape) : Decidable (s.EscMeets second esc) :=
  inferInstanceAs (Decidable (_ ∧ _))

instance (s : State) (esc : Escape) : Decidable (s.BeginMeets esc) :=
  inferInstanceAs (Decidable (¬ _ → _))

instance (host : Host) (s : State) (c : UInt8) : Decidable (CharMeets host s c) :=
  inferInstanceAs (Decidable ((∀ seq ∈ s.escSeq, _) ∧ _))

instance (host : Host) (s : State) (result : Bool) (pending : Pending) :
    Decidable (ResumeMeets host s result pending) :=
  match pending with
  | .windowChanged key => inferInstanceAs (Decidable (∀ c ∈ key, CharMeets host s c))
  | .keyInput c => inferInstanceAs (Decidable (result = false → s.CtrlMeets c))
  | .line2Cursor esc _ => inferInstanceAs (Decidable (s.EscMeets result esc))
  | .event => isTrue trivial
  | .interrupt => isTrue trivial
  | .eofKey => isTrue trivial
  | .eof => isTrue trivial
  | .line2Newline => isTrue trivial
  | .line => isTrue trivial
  | .line2Update => isTrue trivial

instance (host : Host) (s : State) (event : Event) : Decidable (LinesMeet host s event) :=
  match event with
  | .api (.setLine str _) => inferInstanceAs (Decidable (s.line.Refits str))
  | .api (.setLine2 str _) => inferInstanceAs (Decidable (∀ line2 ∈ s.line2, line2.Refits str))
  | .byte c none _ =>
    inferInstanceAs (Decidable (s.pending = none → s.stop = false → CharMeets host s c))
  | .byte c (some ws) _ =>
    inferInstanceAs (Decidable (s.pending = none → s.stop = false →
      (s.updateWindowSize ws).2 = false → CharMeets host (s.updateWindowSize ws).1 c))
  | .ret result _ =>
    inferInstanceAs (Decidable (∀ pending ∈ s.pending, ResumeMeets host s result pending))
  | .api (.setPrompt _) => isTrue trivial
  | .api (.setCursor _) => isTrue trivial
  | .api (.setLine2Prompt _) => isTrue trivial
  | .api (.setLine2Cursor _) => isTrue trivial
  | .api (.setHint _) => isTrue trivial
  | .api .hidePrompt => isTrue trivial
  | .api .refreshPrompt => isTrue trivial
  | .api .pollStop => isTrue trivial
  | .api .getLine => isTrue trivial
  | .api .getLine2 => isTrue trivial
  | .poll => isTrue trivial
  | .eof => isTrue trivial

/-! ## What a step keeps -/

abbrev IsMemory (fault : Fault) : Prop :=
  fault = .memory

variable {s : State} {host : Host}

theorem division_ne_memory : ¬ IsMemory .division :=
  fun h => nomatch h

theorem overread_ne_memory : ¬ IsMemory .overread :=
  fun h => nomatch h

theorem sound_displayUpdate (h : s.Sound) : Avoids IsMemory Sound (s.displayUpdate host) :=
  (avoids_displayUpdate (fun _ => division_ne_memory) overread_ne_memory fun _ => h).mono
    fun _ ht => ht.2 h

theorem sound_finish (h : s.Sound) : Avoids IsMemory Sound (s.finish host) :=
  (avoids_finish (fun _ => division_ne_memory) overread_ne_memory fun _ => h).mono
    fun _ ht => ht.2 h

def chosen (s : State) (second : Bool) : LineBuf :=
  if second then s.edited else s.line

theorem Sound.chosen (h : s.Sound) (second : Bool) : (s.chosen second).Sound := by
  unfold State.chosen
  split
  · exact h.edited
  · exact h.line

theorem chosen_isSome (s : State) : s.chosen s.line2.isSome = s.edited := by
  unfold State.chosen State.edited
  cases s.line2 <;> rfl

/-- A state with one of its lines changed. -/
def setChosen (s : State) (second : Bool) (line : LineBuf) : State :=
  if second then { s with line2 := some line } else { s with line := line }

theorem Sound.setChosen (h : s.Sound) (second : Bool) {line : LineBuf} (hline : line.Sound) :
    (s.setChosen second line).Sound := by
  unfold State.setChosen
  split
  · refine ⟨h.line, fun other hother => ?_⟩
    rw [← Option.some.inj hother]
    exact hline
  · exact ⟨hline, h.line2⟩

/-- An operation changes the line it is for, as it does by itself. -/
theorem avoids_onLine {second : Bool} {op : LineBuf → Except Fault (LineBuf × Bool)}
    {Q : LineBuf × Bool → Prop} (hthere : second = true → s.line2 ≠ none)
    (hop : Avoids IsMemory Q (op (s.chosen second))) :
    Avoids IsMemory (fun r => ∃ line, r.1 = s.setChosen second line ∧ Q (line, r.2))
      (s.onLine second op) := by
  unfold onLine
  unfold State.chosen State.edited at hop
  cases second with
  | false => exact avoids_bind hop fun r hr => ⟨r.1, rfl, hr⟩
  | true =>
    cases hline2 : s.line2 with
    | none => exact absurd hline2 (hthere rfl)
    | some line2 =>
      rw [hline2] at hop
      exact avoids_bind hop fun r hr => ⟨r.1, rfl, hr⟩

theorem avoids_edit (h : s.Sound) {second : Bool}
    {op : LineBuf → Except Fault (LineBuf × Bool)} (hthere : second = true → s.line2 ≠ none)
    (hop : Avoids IsMemory (fun r => r.1.Sound) (op (s.chosen second))) :
    Avoids IsMemory Sound (s.edit host second op) := by
  refine avoids_bind (avoids_onLine hthere hop) ?_
  rintro ⟨_, done⟩ ⟨line, rfl, hline⟩
  have hsound := h.setChosen second hline
  dsimp only
  split
  · exact sound_finish hsound
  · exact hsound

/-! ### Keys -/

theorem avoids_deleteSymbol {line : LineBuf} (h : line.Sound) {utf8 : Bool}
    (hroom : line.SymbolRoom utf8) :
    Avoids IsMemory (fun r => r.1.Sound) (line.deleteSymbol utf8) := by
  refine LineBuf.avoids_deleteSymbol h utf8 fun hend n hn => ?_
  rcases hroom with hsame | hlength
  · exact absurd hsame hend
  · exact hlength n (by rw [hn]; rfl)

theorem sound_processEsc (h : s.Sound) {second : Bool} {esc : Escape} (data : ℕ)
    (hmeets : s.EscMeets second esc) : Avoids IsMemory Sound (s.processEsc host second esc data) := by
  obtain ⟨hthere, hroom⟩ := hmeets
  have hline := h.chosen second
  cases esc with
  | cursorLeft =>
    exact avoids_edit h (fun h2 => hthere h2 rfl)
      ((LineBuf.avoids_moveLeft hline s.utf8).mono fun r hr => hr.1)
  | cursorWordLeft =>
    exact avoids_edit h (fun h2 => hthere h2 rfl) (LineBuf.avoids_moveWordLeft hline s.utf8)
  | cursorRight =>
    exact avoids_edit h (fun h2 => hthere h2 rfl) (LineBuf.avoids_moveRight hline s.utf8)
  | cursorWordRight =>
    exact avoids_edit h (fun h2 => hthere h2 rfl) (LineBuf.avoids_moveWordRight hline)
  | home => exact avoids_edit h (fun h2 => hthere h2 rfl) (hline.withPos (Nat.zero_le _))
  | end_ => exact avoids_edit h (fun h2 => hthere h2 rfl) (hline.withPos (Nat.le_refl _))
  | delete => exact avoids_edit h (fun h2 => hthere h2 rfl) (avoids_deleteSymbol hline (hroom rfl))
  | cursorPos =>
    unfold processEsc
    dsimp only
    split
    · exact h
    · exact h.of_lines rfl rfl
  | cursorUp => exact h.of_lines rfl rfl
  | cursorDown => exact h.of_lines rfl rfl
  | incomplete => exact h
  | unknown => exact h
  | ignore => exact h
  | insert => exact h
  | deleteLeft => exact h
  | deleteLeftWord => exact h
  | pageUp => exact h
  | pageDown => exact h

theorem sound_beginEsc (h : s.Sound) {esc : Escape} (data : ℕ) (hmeets : s.BeginMeets esc) :
    Avoids IsMemory Sound (s.beginEsc host esc data) := by
  unfold beginEsc
  split
  case isTrue => exact h.of_lines rfl rfl
  case isFalse hdirect => exact sound_processEsc h data (hmeets hdirect)

theorem sound_submit (h : s.Sound) : Avoids IsMemory Sound s.submit :=
  avoids_bind (LineBuf.avoids_text h.line 0) fun _ _ => h.of_lines rfl rfl

theorem sound_processNewline (h : s.Sound) : Avoids IsMemory Sound s.processNewline := by
  unfold processNewline
  split
  case h_1 => exact sound_submit h
  case h_2 line2 hline2 =>
    exact avoids_bind (LineBuf.avoids_text (h.line2 line2 hline2) 0)
      fun _ _ => h.of_lines rfl rfl

theorem sound_dropLine (h : s.Sound) : Avoids IsMemory Sound s.dropLine := by
  unfold dropLine
  split
  case isTrue => exact h.of_lines rfl rfl
  case isFalse hlen =>
    have hbuf : 0 < s.line.bufsize := by
      have := h.line.len_lt (.inr (Nat.pos_of_ne_zero hlen))
      omega
    exact avoids_bind (LineBuf.avoids_linebufReset hbuf) fun line hline => ⟨hline, h.line2⟩

theorem sound_changed (h : s.Sound) : Avoids IsMemory Sound (s.changed host) := by
  unfold changed
  split
  case h_1 => exact sound_finish h
  case h_2 line2 hline2 =>
    exact avoids_bind (LineBuf.avoids_text (h.line2 line2 hline2) 0)
      fun _ _ => h.of_lines rfl rfl

theorem line2_ne_none_of_isSome (h : s.line2.isSome = true) : s.line2 ≠ none :=
  Option.isSome_iff_ne_none.mp h

theorem setChosen_isSome (s : State) (line : LineBuf) :
    (s.setChosen s.line2.isSome line).line2.isSome = s.line2.isSome ∧
      (s.setChosen s.line2.isSome line).edited = line ∧
      (s.setChosen s.line2.isSome line).utf8 = s.utf8 := by
  unfold setChosen State.edited
  cases hline2 : s.line2 with
  | none => simp
  | some line2 => simp

theorem sound_backspace (h : s.Sound) (hroom : s.edited.BackspaceRoom s.utf8) :
    Avoids IsMemory Sound (s.backspace host) := by
  have hmove : Avoids IsMemory
      (fun r => r.1.Sound ∧ (r.2 = true → r.1.SymbolRoom s.utf8))
      (LineBuf.moveLeft s.utf8 (s.chosen s.line2.isSome)) := by
    rw [chosen_isSome]
    have hleft : Avoids IsMemory LineBuf.MovedLeft (LineBuf.moveLeft s.utf8 s.edited) :=
      LineBuf.avoids_moveLeft h.edited s.utf8
    unfold LineBuf.BackspaceRoom at hroom
    cases hn : LineBuf.moveLeft s.utf8 s.edited with
    | error e =>
      rw [hn] at hleft
      exact hleft
    | ok r =>
      rw [hn] at hleft hroom
      exact ⟨hleft.1, hroom r rfl⟩
  refine avoids_bind (avoids_onLine line2_ne_none_of_isSome hmove) ?_
  rintro ⟨_, moved⟩ ⟨line, rfl, hline, hsymbol⟩
  have hsound := h.setChosen s.line2.isSome hline
  dsimp only
  cases moved with
  | false => exact hsound
  | true =>
    rw [if_neg Bool.true_eq_false.mp]
    obtain ⟨hsome, hedited, hutf8⟩ := setChosen_isSome s line
    generalize s.setChosen s.line2.isSome line = t at hsound hsome hedited hutf8 ⊢
    have hdelete : Avoids IsMemory (fun r => r.1.Sound)
        (LineBuf.deleteSymbol t.utf8 (t.chosen t.line2.isSome)) := by
      rw [chosen_isSome, hedited, hutf8]
      exact avoids_deleteSymbol hline (hsymbol rfl)
    refine avoids_bind (avoids_onLine line2_ne_none_of_isSome hdelete) ?_
    rintro ⟨_, deleted⟩ ⟨line', rfl, hline'⟩
    exact sound_changed (hsound.setChosen _ hline')

theorem sound_processCtrl (h : s.Sound) {c : UInt8} (hmeets : s.CtrlMeets c) :
    Avoids IsMemory Sound (s.processCtrl host c) := by
  obtain ⟨hreset, hback, hword⟩ := hmeets
  have hedit := chosen_isSome s
  unfold processCtrl
  split
  case isTrue => exact sound_processNewline h
  split
  case isTrue => exact h.of_lines rfl rfl
  split
  case isTrue =>
    split
    · exact h
    · exact h.of_lines rfl rfl
  split
  case isTrue hc => exact sound_backspace h (hback hc)
  split
  case isTrue => exact sound_finish (h.of_lines rfl rfl)
  split
  case isTrue hc =>
    refine avoids_edit h line2_ne_none_of_isSome ?_
    rw [hedit]
    exact avoids_bind (LineBuf.avoids_linebufReset (hreset hc)) fun line hline => hline
  split
  case isTrue =>
    exact sound_beginEsc h 0 fun hdirect =>
      ⟨fun hsome => absurd ⟨hsome, by decide⟩ hdirect, fun hesc => nomatch hesc⟩
  split
  case isTrue =>
    exact sound_beginEsc h 0 fun hdirect =>
      ⟨fun hsome => absurd ⟨hsome, by decide⟩ hdirect, fun hesc => nomatch hesc⟩
  split
  case isTrue hc =>
    refine avoids_edit h line2_ne_none_of_isSome ?_
    rw [hedit]
    refine LineBuf.avoids_processBackword h.edited s.utf8 fun left hleft => ?_
    exact hword hc (left, true) (by rw [hleft]; rfl) rfl
  split
  case isTrue => exact h.of_lines rfl rfl
  case isFalse => exact h

theorem handleUtf8_lines (s : State) (c : UInt8) :
    (s.handleUtf8 c).1.line = s.line ∧ (s.handleUtf8 c).1.line2 = s.line2 := by
  unfold handleUtf8
  split
  · exact ⟨rfl, rfl⟩
  split
  · split <;> exact ⟨rfl, rfl⟩
  split <;> exact ⟨rfl, rfl⟩

theorem sound_typeChar (h : s.Sound) (heap : Heap) (c : UInt8) :
    Avoids IsMemory Sound (s.typeChar host heap c) := by
  have hinsert : Avoids IsMemory (fun r => r.1.Sound)
      (LineBuf.linebufInsert heap (s.chosen s.line2.isSome) [c]) :=
    LineBuf.avoids_linebufInsert (h.chosen _) heap [c]
  refine avoids_bind (avoids_onLine line2_ne_none_of_isSome hinsert) ?_
  rintro ⟨_, inserted⟩ ⟨line, rfl, hline⟩
  have hsound := h.setChosen s.line2.isSome hline
  generalize s.setChosen s.line2.isSome line = t at hsound ⊢
  dsimp only
  split
  · exact hsound
  · obtain ⟨hline', hline2'⟩ := handleUtf8_lines t c
    have hsound' : (t.handleUtf8 c).1.Sound := hsound.of_lines hline' hline2'
    split
    · exact hsound'
    · exact sound_changed hsound'

theorem sound_handleKey (h : s.Sound) (heap : Heap) {c : UInt8} (hmeets : s.CtrlMeets c) :
    Avoids IsMemory Sound (s.handleKey host heap c) := by
  unfold handleKey
  split
  · exact sound_processCtrl h hmeets
  · exact sound_typeChar h heap c

theorem sound_processChar (h : s.Sound) (heap : Heap) {c : UInt8} (hmeets : CharMeets host s c) :
    Avoids IsMemory Sound (s.processChar host heap c) := by
  obtain ⟨hesc, hkey⟩ := hmeets
  unfold processChar
  split
  case h_1 seq hseq =>
    dsimp only
    split
    · exact h.of_lines rfl rfl
    · exact sound_beginEsc (s := { s with escSeq := none }) (h.of_lines rfl rfl) _ (hesc seq hseq)
  case h_2 hseq =>
    split
    case isTrue hutf8 => exact sound_handleKey h heap (hkey hseq hutf8)
    case isFalse => exact h.of_lines rfl rfl

/-! ### Steps -/

theorem updateWindowSize_lines (s : State) (ws : Winsize) :
    (s.updateWindowSize ws).1.line = s.line ∧ (s.updateWindowSize ws).1.line2 = s.line2 := by
  unfold updateWindowSize
  dsimp only
  split <;> exact ⟨rfl, rfl⟩

/-- A second line that is opened is empty. -/
theorem Sound.setLine2Prompt (h : s.Sound) (str : Option (List UInt8)) :
    (s.setLine2Prompt str).Sound := by
  have hopened : (s.line2.getD LineBuf.empty).Sound := by
    cases hline2 : s.line2 with
    | none => exact LineBuf.sound_empty
    | some line2 => exact h.line2 line2 hline2
  cases str with
  | none => exact ⟨h.line, fun line2 hline2 => nomatch hline2⟩
  | some str =>
    unfold State.setLine2Prompt
    generalize s.line2.getD LineBuf.empty = line2 at hopened ⊢
    dsimp only
    split
    · refine ⟨h.line, fun other hother => ?_⟩
      rw [← Option.some.inj hother]
      exact hopened
    · refine ⟨h.line, fun other hother => ?_⟩
      rw [← Option.some.inj hother]
      exact ⟨hopened.pos_le, hopened.updatePos_le, hopened.ended, hopened.unallocated⟩

theorem sound_runApi (h : s.Sound) {call : Api} (hmeets : LinesMeet host s (.api call)) :
    Avoids IsMemory Sound (s.runApi host call) := by
  cases call with
  | setPrompt str =>
    unfold runApi
    dsimp only
    split
    · exact h
    · exact ⟨⟨h.line.pos_le, h.line.updatePos_le, h.line.ended, h.line.unallocated⟩, h.line2⟩
  | setLine str heap =>
    exact avoids_bind (LineBuf.avoids_setLine h.line s.utf8 heap hmeets)
      fun line hline => ⟨hline, h.line2⟩
  | setCursor pos => exact ⟨h.line.withPos (Nat.min_le_right _ _), h.line2⟩
  | setLine2Prompt str => exact h.setLine2Prompt _
  | setLine2 str heap =>
    unfold runApi
    dsimp only
    split
    case h_1 => exact h
    case h_2 line2 hline2 =>
      refine avoids_bind (LineBuf.avoids_setLine (h.line2 line2 hline2) s.utf8 heap
        (hmeets line2 hline2)) fun line hline => ⟨h.line, fun other hother => ?_⟩
      rw [← Option.some.inj hother]
      exact hline
  | setLine2Cursor pos =>
    refine ⟨h.line, fun other hother => ?_⟩
    obtain ⟨line2, hline2, rfl⟩ := Option.map_eq_some_iff.mp hother
    exact (h.line2 line2 hline2).withPos (Nat.min_le_right _ _)
  | setHint str =>
    exact (avoids_setHint (fun _ => division_ne_memory) overread_ne_memory str).mono
      fun _ ht => ht.2 h
  | hidePrompt => exact h.of_lines rfl rfl
  | refreshPrompt => exact sound_displayUpdate h
  | pollStop => exact h.of_lines rfl rfl
  | getLine => exact avoids_bind (LineBuf.avoids_text h.line 0) fun _ _ => h
  | getLine2 =>
    unfold runApi
    dsimp only
    split
    case h_1 => exact h
    case h_2 line2 hline2 =>
      exact avoids_bind (LineBuf.avoids_text (h.line2 line2 hline2) 0) fun _ _ => h

theorem sound_resume (h : s.Sound) (heap : Heap) (result : Bool) {pending : Pending}
    (hmeets : ResumeMeets host s result pending) :
    Avoids IsMemory Sound (s.resume host heap result pending) := by
  cases pending with
  | windowChanged key =>
    cases key with
    | none => exact h
    | some c => exact sound_processChar h heap (hmeets c rfl)
  | keyInput c =>
    cases result with
    | true => exact sound_finish h
    | false => exact sound_handleKey h heap (hmeets rfl)
  | line2Cursor esc data => exact sound_processEsc h data hmeets
  | event => exact sound_finish h
  | interrupt => exact avoids_bind (sound_dropLine h) fun t ht => ht.of_lines rfl rfl
  | eofKey => exact h.of_lines rfl rfl
  | eof => exact h
  | line2Newline =>
    cases result with
    | true => exact sound_finish h
    | false =>
      exact sound_submit (s := { s with line2 := none })
        ⟨h.line, fun line2 hline2 => nomatch hline2⟩
  | line =>
    cases result with
    | true =>
      exact avoids_bind (sound_dropLine (s := { s with stop := true }) (h.of_lines rfl rfl))
        fun t ht => sound_finish ht
    | false =>
      refine avoids_bind (LineBuf.avoids_linebufInsert h.line heap [newline]) fun r hr => ?_
      exact sound_finish ⟨hr, h.line2⟩
  | line2Update => exact sound_finish h

/-- A step that meets its condition stays within the buffers and keeps the lines sound. -/
theorem sound_step {event : Event} (h : s.Sound) (hmeets : LinesMeet host s event) :
    Avoids IsMemory Sound (step host s event) := by
  cases event with
  | api call => exact sound_runApi h hmeets
  | poll =>
    unfold step
    dsimp only
    split
    · exact h
    · exact avoids_bind (sound_displayUpdate h) fun t ht => ht.of_lines rfl rfl
  | byte c winch heap =>
    unfold step
    dsimp only
    split
    case isTrue => exact h
    case isFalse hreads =>
      obtain ⟨hpending, hstop⟩ := not_or.mp hreads
      have hnone : s.pending = none := by simpa using hpending
      have hruns : s.stop = false := by simpa using hstop
      cases winch with
      | none => exact sound_processChar h heap (hmeets hnone hruns)
      | some ws =>
        obtain ⟨hline, hline2⟩ := updateWindowSize_lines s ws
        have hsound : (s.updateWindowSize ws).1.Sound := h.of_lines hline hline2
        dsimp only
        split
        case isTrue => exact hsound.of_lines rfl rfl
        case isFalse hsame =>
          exact sound_processChar hsound heap (hmeets hnone hruns (by simpa using hsame))
  | eof =>
    unfold step
    dsimp only
    split
    · exact h
    · exact h.of_lines rfl rfl
  | ret result heap =>
    unfold step
    dsimp only
    split
    case h_1 => exact h
    case h_2 pending hpending =>
      have hresume := hmeets pending hpending
      refine sound_resume (s := { s with pending := none }) (h.of_lines rfl rfl) heap result ?_
      cases pending <;> exact hresume

theorem sound_init (utf8 : Bool) (ws : Winsize) : (init utf8 ws).Sound := by
  have hstart : (start utf8).Sound := ⟨LineBuf.sound_empty, fun line2 h => nomatch h⟩
  obtain ⟨hline, hline2⟩ := updateWindowSize_lines (start utf8) ws
  exact hstart.of_lines hline hline2

/-! ## Runs -/

/-- In a run whose steps meet the condition no access leaves a buffer or goes through a null
pointer, and in its last state each buffer has the cursor in the text and the terminator
behind it. The same holds of every shorter run. -/
theorem lines_inBounds_of_run (host : Host) (utf8 : Bool) (ws : Winsize) (events : List Event)
    (hmeets : MeetsAlong (step host) (LinesMeet host) (init utf8 ws) events) :
    run host utf8 ws events ≠ .error .memory ∧
      ∀ t, run host utf8 ws events = .ok t →
        t.line.InBounds ∧ ∀ line2, t.line2 = some line2 → line2.InBounds := by
  have hrun : Avoids IsMemory Sound (run host utf8 ws events) :=
    avoids_run (fun _ _ => sound_step) (sound_init utf8 ws) hmeets
  constructor
  · intro hfault
    rw [hfault] at hrun
    exact hrun rfl
  · intro t ht
    have hsound := hrun.of_ok ht
    exact ⟨hsound.line.inBounds, fun line2 hline2 => (hsound.line2 line2 hline2).inBounds⟩

/-- Two characters and a backspace. -/
def typing : List Event :=
  [.ret true none, .poll, .byte 97 none none, .ret false (some fun _ => 255), .byte 98 none none,
    .ret false (some fun _ => 255), .byte KEY_BS none none, .ret false none]

theorem lines_inBounds_of_typing :
    run ⟨64, List.length⟩ true (some (80, 25)) typing ≠ .error .memory ∧
      ∀ t, run ⟨64, List.length⟩ true (some (80, 25)) typing = .ok t →
        t.line.InBounds ∧ ∀ line2, t.line2 = some line2 → line2.InBounds :=
  lines_inBounds_of_run ⟨64, List.length⟩ true (some (80, 25)) typing (by decide +kernel)

/-- The line is reset with a key before anything was typed. -/
def resetFirst : List Event :=
  [.ret true none, .poll, .byte KEY_NAK none none, .ret false none]

theorem not_lines_inBounds_of_reset :
    ¬ ∀ (host : Host) (utf8 : Bool) (ws : Winsize) (events : List Event),
      run host utf8 ws events ≠ .error .memory ∧
        ∀ t, run host utf8 ws events = .ok t →
          t.line.InBounds ∧ ∀ line2, t.line2 = some line2 → line2.InBounds := by
  intro h
  exact (h ⟨64, List.length⟩ true (some (80, 25)) resetFirst).1 (by decide +kernel)

end State

end OpenWrt.Uline
