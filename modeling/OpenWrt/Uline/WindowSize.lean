/-
# The width of the window

The number of columns comes from the terminal driver, or from what the terminal answers
to the request for the position of the cursor. The driver is asked for a number that is
not zero, and the default is 80; of the answer the low sixteen bits of the column are
taken as they are. As long as no answer has zero in them, the columns are positive in
every state, and no position is divided by zero.
-/

import OpenWrt.Uline.EditorDisplay

namespace OpenWrt.Uline

open OpenWrt.Lib

/-! ## The faults of the operations on a line -/

namespace LineBuf

section

variable {bad : Fault → Prop} (hmemory : ¬ bad .memory)

include hmemory

variable (line : LineBuf) (utf8 : Bool)

theorem faults_peek (i : ℕ) : Avoids bad (fun _ => True) (line.peek i) := by
  unfold peek
  split
  · trivial
  · exact hmemory

theorem faults_poke (i : ℕ) (c : UInt8) : Avoids bad (fun _ => True) (line.poke i c) := by
  unfold poke
  split
  · trivial
  · exact hmemory

theorem faults_copyIn (dst : ℕ) (str : List UInt8) :
    Avoids bad (fun _ => True) (line.copyIn dst str) := by
  unfold copyIn
  split
  · trivial
  split
  · trivial
  · exact hmemory

theorem faults_move (dst src n : ℕ) : Avoids bad (fun _ => True) (line.move dst src n) := by
  unfold move
  split
  · trivial
  split
  · exact faults_copyIn hmemory _ _ _
  · exact hmemory

theorem faults_slice (start stop : ℕ) : Avoids bad (fun _ => True) (line.slice start stop) := by
  unfold slice
  split
  · trivial
  split
  · trivial
  · exact hmemory

theorem faults_backWhile (kind : UInt8 → Bool) (line : LineBuf) (pos : ℕ) :
    Avoids bad (fun _ => True) (backWhile kind line pos) := by
  induction pos with
  | zero => trivial
  | succ pos ih =>
    refine avoids_bind (faults_peek hmemory line _) fun c _ => ?_
    split
    · exact ih
    · trivial

theorem faults_forwardWhile (kind : UInt8 → Bool) (line : LineBuf) (left pos : ℕ) :
    Avoids bad (fun _ => True) (forwardWhile kind line left pos) := by
  induction left generalizing pos with
  | zero => exact avoids_bind (faults_peek hmemory line _) fun _ _ => trivial
  | succ left ih =>
    refine avoids_bind (faults_peek hmemory line _) fun c _ => ?_
    split
    · exact ih _
    · trivial

theorem faults_skipCont (left pos : ℕ) : Avoids bad (fun _ => True) (skipCont line left pos) := by
  induction left generalizing pos with
  | zero => trivial
  | succ left ih =>
    refine avoids_bind (faults_peek hmemory line _) fun c _ => ?_
    split
    · exact ih _
    · trivial

theorem faults_sharedLength (prevLen i : ℕ) (str : List UInt8) :
    Avoids bad (fun _ => True) (sharedLength line prevLen i str) := by
  induction str generalizing i with
  | nil => trivial
  | cons c str ih =>
    unfold sharedLength
    split
    · refine avoids_bind (faults_peek hmemory line _) fun old _ => ?_
      split
      · trivial
      · exact ih _
    · trivial

theorem faults_utf8MoveRight (pos len : ℕ) :
    Avoids bad (fun _ => True) (utf8MoveRight line pos len) := by
  unfold utf8MoveRight
  split
  · trivial
  · exact faults_skipCont hmemory line _ _

theorem faults_moveLeft (line : LineBuf) : Avoids bad (fun _ => True) (moveLeft utf8 line) := by
  have hleft : Avoids bad (fun _ => True) (leftPos utf8 line) := by
    unfold leftPos
    split
    · unfold utf8MoveLeft
      split
      · trivial
      · exact faults_backWhile hmemory _ line _
    · trivial
  unfold moveLeft
  split
  · trivial
  · exact avoids_bind hleft fun _ _ => trivial

theorem faults_moveRight (line : LineBuf) : Avoids bad (fun _ => True) (moveRight utf8 line) := by
  have hright : Avoids bad (fun _ => True) (rightPos utf8 line) := by
    unfold rightPos
    split
    · exact faults_utf8MoveRight hmemory line _ _
    · trivial
  unfold moveRight
  split
  · trivial
  · exact avoids_bind hright fun _ _ => trivial

theorem faults_moveWordLeft (line : LineBuf) :
    Avoids bad (fun _ => True) (moveWordLeft utf8 line) := by
  refine avoids_bind (faults_moveLeft hmemory utf8 line) fun r _ => ?_
  split
  split
  · trivial
  · refine avoids_bind (faults_backWhile hmemory _ _ _) fun _ _ => ?_
    refine avoids_bind (faults_backWhile hmemory _ _ _) fun _ _ => ?_
    exact avoids_bind (faults_peek hmemory _ _) fun _ _ => trivial

theorem faults_moveWordRight : Avoids bad (fun _ => True) (moveWordRight line) := by
  unfold moveWordRight
  split
  · trivial
  · refine avoids_bind (faults_forwardWhile hmemory _ line _ _) fun _ _ => ?_
    exact avoids_bind (faults_forwardWhile hmemory _ line _ _) fun _ _ => trivial

theorem faults_linebufInsert (heap : Heap) (line : LineBuf) (c : List UInt8) :
    Avoids bad (fun _ => True) (linebufInsert heap line c) := by
  have hshift : ∀ next : LineBuf, Avoids bad (fun _ => True) (next.shiftTail c.length) := by
    intro next
    unfold shiftTail
    dsimp only
    split
    · exact faults_move hmemory next _ _ _
    · exact faults_poke hmemory next _ _
  unfold linebufInsert
  split
  split
  · trivial
  · refine avoids_bind (hshift _) fun _ _ => ?_
    refine avoids_bind (faults_copyIn hmemory _ _ _) fun _ _ => ?_
    exact avoids_bind (faults_poke hmemory _ _ _) fun _ _ => trivial

theorem faults_linebufDelete (len : ℕ) :
    Avoids bad (fun _ => True) (linebufDelete line len) :=
  avoids_bind (faults_move hmemory _ _ _ _) fun _ _ => trivial

theorem faults_deleteSymbol (line : LineBuf) :
    Avoids bad (fun _ => True) (deleteSymbol utf8 line) := by
  have hlength : Avoids bad (fun _ => True) (symbolLength utf8 line) := by
    unfold symbolLength
    split
    · exact avoids_bind (faults_utf8MoveRight hmemory line _ _) fun _ _ => trivial
    · trivial
  unfold deleteSymbol
  split
  · trivial
  · refine avoids_bind hlength fun _ _ => ?_
    exact avoids_bind (faults_linebufDelete hmemory line _) fun _ _ => trivial

theorem faults_processBackword (line : LineBuf) :
    Avoids bad (fun _ => True) (processBackword utf8 line) := by
  refine avoids_bind (faults_moveWordLeft hmemory utf8 line) fun r _ => ?_
  split
  split
  · trivial
  · exact avoids_bind (faults_linebufDelete hmemory _ _) fun _ _ => trivial

theorem faults_setLine (heap : Heap) (line : LineBuf) (str : List UInt8) :
    Avoids bad (fun _ => True) (setLine utf8 heap line str) := by
  refine avoids_bind (faults_sharedLength hmemory _ _ _ _) fun _ _ => ?_
  exact avoids_bind (faults_copyIn hmemory _ _ _) fun _ _ => trivial

end

end LineBuf

namespace State

/-! ## The condition -/

/-- A byte that completes a report of the cursor position does not make its column zero. -/
def ColumnMeets (host : Host) (s : State) (c : UInt8) : Prop :=
  ∀ seq ∈ s.escSeq, (vt100EscDecode host (seq ++ [c])).1 = .cursorPos →
    0 < (vt100EscDecode host (seq ++ [c])).2 / 2 ^ 16

/-- The bytes that a callback goes on with. -/
def Pending.key : Pending → Option UInt8
  | .windowChanged key => key
  | _ => none

/-- The condition of a step, in the state before it. -/
def ReportMeets (host : Host) (s : State) : Event → Prop
  | .byte c _ _ => s.pending = none → s.stop = false → ColumnMeets host s c
  | .ret _ _ => ∀ c ∈ s.pending.bind Pending.key, ColumnMeets host s c
  | _ => True

instance (host : Host) (s : State) (c : UInt8) : Decidable (ColumnMeets host s c) :=
  inferInstanceAs (Decidable (∀ seq ∈ s.escSeq, _))

instance (host : Host) (s : State) (event : Event) : Decidable (ReportMeets host s event) :=
  match event with
  | .byte c _ _ =>
    inferInstanceAs (Decidable (s.pending = none → s.stop = false → ColumnMeets host s c))
  | .ret _ _ =>
    inferInstanceAs (Decidable (∀ c ∈ s.pending.bind Pending.key, ColumnMeets host s c))
  | .api _ => isTrue trivial
  | .poll => isTrue trivial
  | .eof => isTrue trivial

/-! ## What a step keeps -/

/-- The columns are positive, and a report that waits for a callback keeps them so. -/
structure Wide (s : State) : Prop where
  cols : 0 < s.cols
  report : ∀ data, s.pending = some (.line2Cursor .cursorPos data) → 0 < data / 2 ^ 16

abbrev IsDivision (fault : Fault) : Prop :=
  fault = .division

variable {s : State} {host : Host}

theorem memory_ne_division : ¬ IsDivision .memory :=
  fun h => nomatch h

theorem overread_ne_division : ¬ IsDivision .overread :=
  fun h => nomatch h

theorem Wide.no_division (h : s.Wide) : s.cols = 0 → ¬ IsDivision .division := by
  intro hzero
  have := h.cols
  omega

theorem Wide.of_same {s t : State} (h : s.Wide) (hcols : t.cols = s.cols)
    (hpending : t.pending = s.pending) : t.Wide where
  cols := hcols ▸ h.cols
  report data hdata := h.report data (hpending ▸ hdata)

theorem Wide.waiting {pending : Pending} (h : s.Wide)
    (hpending : ∀ data, pending ≠ .line2Cursor .cursorPos data) :
    Wide { s with pending := some pending } where
  cols := h.cols
  report data hdata := absurd (Option.some.inj hdata) (hpending data)

theorem wide_displayUpdate (h : s.Wide) : Avoids IsDivision Wide (s.displayUpdate host) :=
  (avoids_displayUpdate h.no_division overread_ne_division
    fun hbad => absurd hbad memory_ne_division).mono fun _ ht => h.of_same ht.1.cols ht.1.pending

theorem wide_finish (h : s.Wide) : Avoids IsDivision Wide (s.finish host) :=
  (avoids_finish h.no_division overread_ne_division
    fun hbad => absurd hbad memory_ne_division).mono fun _ ht => h.of_same ht.1.cols ht.1.pending

theorem wide_onLine (h : s.Wide) {second : Bool} {op : LineBuf → Except Fault (LineBuf × Bool)}
    (hop : ∀ line, Avoids IsDivision (fun _ => True) (op line)) :
    Avoids IsDivision (fun r => r.1.Wide) (s.onLine second op) := by
  unfold onLine
  split
  · split
    · exact memory_ne_division
    · exact avoids_bind (hop _) fun _ _ => h.of_same rfl rfl
  · exact avoids_bind (hop _) fun _ _ => h.of_same rfl rfl

theorem wide_edit (h : s.Wide) {second : Bool} {op : LineBuf → Except Fault (LineBuf × Bool)}
    (hop : ∀ line, Avoids IsDivision (fun _ => True) (op line)) :
    Avoids IsDivision Wide (s.edit host second op) := by
  refine avoids_bind (wide_onLine h hop) ?_
  rintro ⟨t, done⟩ ht
  dsimp only
  split
  · exact wide_finish ht
  · exact ht

theorem wide_processEsc (h : s.Wide) {second : Bool} {esc : Escape} {data : ℕ}
    (hreport : esc = .cursorPos → 0 < data / 2 ^ 16) :
    Avoids IsDivision Wide (s.processEsc host second esc data) := by
  have hmemory := memory_ne_division
  cases esc with
  | cursorLeft => exact wide_edit h (LineBuf.faults_moveLeft hmemory _)
  | cursorWordLeft => exact wide_edit h (LineBuf.faults_moveWordLeft hmemory _)
  | cursorRight => exact wide_edit h (LineBuf.faults_moveRight hmemory _)
  | cursorWordRight => exact wide_edit h (LineBuf.faults_moveWordRight hmemory)
  | home => exact wide_edit h fun _ => trivial
  | end_ => exact wide_edit h fun _ => trivial
  | delete => exact wide_edit h (LineBuf.faults_deleteSymbol hmemory _)
  | cursorPos =>
    unfold processEsc
    dsimp only
    split
    · exact h
    · exact ⟨hreport rfl, fun data hdata => nomatch hdata⟩
  | cursorUp => exact h.waiting fun _ => nofun
  | cursorDown => exact h.waiting fun _ => nofun
  | incomplete => exact h
  | unknown => exact h
  | ignore => exact h
  | insert => exact h
  | deleteLeft => exact h
  | deleteLeftWord => exact h
  | pageUp => exact h
  | pageDown => exact h

theorem wide_beginEsc (h : s.Wide) {esc : Escape} {data : ℕ}
    (hreport : esc = .cursorPos → 0 < data / 2 ^ 16) :
    Avoids IsDivision Wide (s.beginEsc host esc data) := by
  unfold beginEsc
  split
  · refine ⟨h.cols, fun other hother => ?_⟩
    cases hother
    exact hreport rfl
  · exact wide_processEsc h hreport

theorem wide_submit (h : s.Wide) : Avoids IsDivision Wide s.submit :=
  avoids_bind (LineBuf.faults_slice memory_ne_division _ _ _) fun _ _ => h.waiting fun _ => nofun

theorem wide_processNewline (h : s.Wide) : Avoids IsDivision Wide s.processNewline := by
  unfold processNewline
  split
  · exact wide_submit h
  · exact avoids_bind (LineBuf.faults_slice memory_ne_division _ _ _)
      fun _ _ => h.waiting fun _ => nofun

theorem wide_dropLine (h : s.Wide) : Avoids IsDivision Wide s.dropLine := by
  unfold dropLine
  split
  · exact h.of_same rfl rfl
  · exact avoids_bind (LineBuf.faults_poke memory_ne_division _ _ _)
      fun _ _ => h.of_same rfl rfl

theorem wide_changed (h : s.Wide) : Avoids IsDivision Wide (s.changed host) := by
  unfold changed
  split
  · exact wide_finish h
  · exact avoids_bind (LineBuf.faults_slice memory_ne_division _ _ _)
      fun _ _ => h.waiting fun _ => nofun

theorem wide_backspace (h : s.Wide) : Avoids IsDivision Wide (s.backspace host) := by
  refine avoids_bind (wide_onLine h (LineBuf.faults_moveLeft memory_ne_division _)) ?_
  rintro ⟨t, moved⟩ ht
  dsimp only
  split
  · exact ht
  · refine avoids_bind (wide_onLine ht (LineBuf.faults_deleteSymbol memory_ne_division _)) ?_
    rintro ⟨u, deleted⟩ hu
    exact wide_changed hu

theorem wide_processCtrl (h : s.Wide) (c : UInt8) :
    Avoids IsDivision Wide (s.processCtrl host c) := by
  unfold processCtrl
  split
  · exact wide_processNewline h
  split
  · exact h.waiting fun _ => nofun
  split
  · split
    · exact h
    · exact h.waiting fun _ => nofun
  split
  · exact wide_backspace h
  split
  · exact wide_finish (h.of_same rfl rfl)
  split
  · refine wide_edit h fun line => ?_
    exact avoids_bind (LineBuf.faults_poke memory_ne_division _ _ _) fun _ _ => trivial
  split
  · exact wide_beginEsc h fun hesc => nomatch hesc
  split
  · exact wide_beginEsc h fun hesc => nomatch hesc
  split
  · exact wide_edit h (LineBuf.faults_processBackword memory_ne_division _)
  split
  · exact h.of_same rfl rfl
  · exact h

theorem handleUtf8_window (s : State) (c : UInt8) :
    (s.handleUtf8 c).1.cols = s.cols ∧ (s.handleUtf8 c).1.pending = s.pending := by
  unfold handleUtf8
  split
  · exact ⟨rfl, rfl⟩
  split
  · split <;> exact ⟨rfl, rfl⟩
  split <;> exact ⟨rfl, rfl⟩

theorem wide_handleKey (h : s.Wide) (heap : Heap) (c : UInt8) :
    Avoids IsDivision Wide (s.handleKey host heap c) := by
  unfold handleKey
  split
  · exact wide_processCtrl h c
  · refine avoids_bind
      (wide_onLine h fun line => LineBuf.faults_linebufInsert memory_ne_division heap line [c]) ?_
    rintro ⟨t, inserted⟩ ht
    dsimp only
    split
    · exact ht
    · obtain ⟨hcols, hpending⟩ := handleUtf8_window t c
      have hwide : (t.handleUtf8 c).1.Wide := ht.of_same hcols hpending
      split
      · exact hwide
      · exact wide_changed hwide

theorem wide_processChar (h : s.Wide) (heap : Heap) {c : UInt8} (hmeets : ColumnMeets host s c) :
    Avoids IsDivision Wide (s.processChar host heap c) := by
  unfold processChar
  split
  case h_1 seq hseq =>
    dsimp only
    split
    · exact h.of_same rfl rfl
    · exact wide_beginEsc (s := { s with escSeq := none }) (h.of_same rfl rfl) (hmeets seq hseq)
  case h_2 =>
    split
    · exact wide_handleKey h heap c
    · exact h.waiting fun _ => nofun

theorem windowSize_pos {ioctlWinsize : Bool} {ws : Winsize} {cols rows : ℕ}
    (h : windowSize ioctlWinsize ws = some (cols, rows)) : 0 < cols := by
  unfold windowSize at h
  split at h
  · split at h
    case isTrue hne =>
      cases h
      exact UInt16.pos_iff_ne_zero.mpr hne.1
    case isFalse => exact nomatch h
  · exact nomatch h

theorem updateWindowSize_cols_pos (s : State) (ws : Winsize) :
    0 < (s.updateWindowSize ws).1.cols := by
  have hpos : 0 < ((windowSize s.ioctlWinsize ws).getD (80, 25)).1 := by
    cases hsize : windowSize s.ioctlWinsize ws with
    | none => decide
    | some size => exact windowSize_pos hsize
  unfold updateWindowSize
  dsimp only
  split
  case isTrue hsame => exact hsame.1 ▸ hpos
  case isFalse => exact hpos

theorem updateWindowSize_rest (s : State) (ws : Winsize) :
    (s.updateWindowSize ws).1.pending = s.pending ∧
      (s.updateWindowSize ws).1.escSeq = s.escSeq := by
  unfold updateWindowSize
  dsimp only
  split <;> exact ⟨rfl, rfl⟩

theorem wide_runApi (h : s.Wide) (call : Api) : Avoids IsDivision Wide (s.runApi host call) := by
  cases call with
  | setPrompt str =>
    unfold runApi
    dsimp only
    split
    · exact h
    · exact h.of_same rfl rfl
  | setLine str heap =>
    exact avoids_bind (LineBuf.faults_setLine memory_ne_division _ _ _ _)
      fun _ _ => h.of_same rfl rfl
  | setCursor pos => exact h.of_same rfl rfl
  | setLine2Prompt str =>
    show (s.setLine2Prompt (str.map cString)).Wide
    unfold State.setLine2Prompt
    split
    · exact h.of_same rfl rfl
    · dsimp only
      split <;> exact h.of_same rfl rfl
  | setLine2 str heap =>
    unfold runApi
    dsimp only
    split
    · exact h
    · exact avoids_bind (LineBuf.faults_setLine memory_ne_division _ _ _ _)
        fun _ _ => h.of_same rfl rfl
  | setLine2Cursor pos => exact h.of_same rfl rfl
  | setHint str =>
    exact (avoids_setHint h.no_division overread_ne_division str).mono
      fun _ ht => h.of_same ht.1.cols ht.1.pending
  | hidePrompt => exact h.of_same rfl rfl
  | refreshPrompt => exact wide_displayUpdate h
  | pollStop => exact h.of_same rfl rfl
  | getLine => exact avoids_bind (LineBuf.faults_slice memory_ne_division _ _ _) fun _ _ => h
  | getLine2 =>
    unfold runApi
    dsimp only
    split
    · exact h
    · exact avoids_bind (LineBuf.faults_slice memory_ne_division _ _ _) fun _ _ => h

theorem wide_resume (h : s.Wide) (heap : Heap) (result : Bool) {pending : Pending}
    (hchar : ∀ c, pending = .windowChanged (some c) → ColumnMeets host s c)
    (hreport : ∀ data, pending = .line2Cursor .cursorPos data → 0 < data / 2 ^ 16) :
    Avoids IsDivision Wide (s.resume host heap result pending) := by
  cases pending with
  | windowChanged key =>
    cases key with
    | none => exact h
    | some c => exact wide_processChar h heap (hchar c rfl)
  | keyInput c =>
    cases result with
    | true => exact wide_finish h
    | false => exact wide_handleKey h heap c
  | line2Cursor esc data => exact wide_processEsc h fun hesc => hreport data (by rw [hesc])
  | event => exact wide_finish h
  | interrupt => exact avoids_bind (wide_dropLine h) fun t ht => ht.of_same rfl rfl
  | eofKey => exact h.of_same rfl rfl
  | eof => exact h
  | line2Newline =>
    cases result with
    | true => exact wide_finish h
    | false => exact wide_submit (s := { s with line2 := none }) (h.of_same rfl rfl)
  | line =>
    cases result with
    | true =>
      exact avoids_bind (wide_dropLine (s := { s with stop := true }) (h.of_same rfl rfl))
        fun t ht => wide_finish ht
    | false =>
      refine avoids_bind (LineBuf.faults_linebufInsert memory_ne_division _ _ _) fun r _ => ?_
      exact wide_finish (h.of_same rfl rfl)
  | line2Update => exact wide_finish h

/-- A step that meets its condition divides by no zero and keeps the columns positive. -/
theorem wide_step {event : Event} (h : s.Wide) (hmeets : ReportMeets host s event) :
    Avoids IsDivision Wide (step host s event) := by
  cases event with
  | api call => exact wide_runApi h call
  | poll =>
    unfold step
    dsimp only
    split
    · exact h
    · exact avoids_bind (wide_displayUpdate h) fun t ht => ht.of_same rfl rfl
  | byte c winch heap =>
    unfold step
    dsimp only
    split
    case isTrue => exact h
    case isFalse hreads =>
      obtain ⟨hpending, hstop⟩ := not_or.mp hreads
      have hcolumn : ColumnMeets host s c := hmeets (by simpa using hpending) (by simpa using hstop)
      cases winch with
      | none => exact wide_processChar h heap hcolumn
      | some ws =>
        obtain ⟨hsame, hesc⟩ := updateWindowSize_rest s ws
        have hwide : (s.updateWindowSize ws).1.Wide :=
          ⟨updateWindowSize_cols_pos s ws, fun data hdata => h.report data (hsame ▸ hdata)⟩
        dsimp only
        split
        · exact hwide.waiting fun _ => nofun
        · refine wide_processChar hwide heap ?_
          unfold ColumnMeets
          rw [hesc]
          exact hcolumn
  | eof =>
    unfold step
    dsimp only
    split
    · exact h
    · exact h.waiting fun _ => nofun
  | ret result heap =>
    unfold step
    dsimp only
    split
    case h_1 => exact h
    case h_2 pending hpending =>
      refine wide_resume (s := { s with pending := none }) ⟨h.cols, fun _ hdata => nomatch hdata⟩
        heap result ?_ ?_
      · rintro c rfl
        exact hmeets c (by rw [hpending]; rfl)
      · rintro data rfl
        exact h.report data hpending

theorem wide_init (utf8 : Bool) (ws : Winsize) : (init utf8 ws).Wide := by
  refine ⟨updateWindowSize_cols_pos _ ws, fun data hdata => ?_⟩
  have hpending : (init utf8 ws).pending = some (.windowChanged none) :=
    (updateWindowSize_rest (start utf8) ws).1
  rw [hpending] at hdata
  exact nomatch hdata

/-! ## Runs -/

/-- In a run in which no report of the terminal has a zero column, no position is divided by
zero, and the last state has a positive number of columns. The same holds of every shorter
run, so of every state on the way. -/
theorem cols_pos_of_run (host : Host) (utf8 : Bool) (ws : Winsize) (events : List Event)
    (hmeets : MeetsAlong (step host) (ReportMeets host) (init utf8 ws) events) :
    run host utf8 ws events ≠ .error .division ∧
      ∀ t, run host utf8 ws events = .ok t → 0 < t.cols := by
  have hrun : Avoids IsDivision Wide (run host utf8 ws events) :=
    avoids_run (fun _ _ => wide_step) (wide_init utf8 ws) hmeets
  constructor
  · intro hfault
    rw [hfault] at hrun
    exact hrun rfl
  · exact fun t ht => (hrun.of_ok ht).cols

/-- A prompt is set, and the terminal reports a cursor in row 5 and the column given. -/
def report (column : UInt8) : List Event :=
  [.api (.setPrompt [62]), .ret true none, .byte KEY_ESC none none, .ret false none,
    .byte 91 none none, .byte 53 none none, .byte 59 none none, .byte column none none,
    .byte 82 none none, .ret true none]

theorem cols_pos_of_report_nine :
    run ⟨64, List.length⟩ true none (report 57) ≠ .error .division ∧
      ∀ t, run ⟨64, List.length⟩ true none (report 57) = .ok t → 0 < t.cols :=
  cols_pos_of_run ⟨64, List.length⟩ true none (report 57) (by decide +kernel)

theorem not_cols_pos_of_report_zero :
    ¬ ∀ (host : Host) (utf8 : Bool) (ws : Winsize) (events : List Event),
      run host utf8 ws events ≠ .error .division ∧
        ∀ t, run host utf8 ws events = .ok t → 0 < t.cols := by
  intro h
  exact (h ⟨64, List.length⟩ true none (report 48)).1 (by decide +kernel)

end State

end OpenWrt.Uline
