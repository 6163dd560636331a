/-
# The line editor

The state of the editor and what happens to it. A callback into the program that uses
the editor may call its functions before it returns, so that a step of the machine is
the code up to the next callback: the state remembers which one it waits for, and what
is left of the key is done when it returns. The functions of the program may be called
in any state. What is written to the terminal, its modes and the count of repeated keys
are left out.
-/

import OpenWrt.Uline.Display
import OpenWrt.Uline.Vt100

namespace OpenWrt.Uline

/-! ## Keys -/

abbrev KEY_SOH : UInt8 := 1
abbrev KEY_ETX : UInt8 := 3
abbrev KEY_EOT : UInt8 := 4
abbrev KEY_ENQ : UInt8 := 5
abbrev KEY_BS : UInt8 := 8
abbrev KEY_LF : UInt8 := 10
abbrev KEY_FF : UInt8 := 12
abbrev KEY_CR : UInt8 := 13
abbrev KEY_NAK : UInt8 := 21
abbrev KEY_ETB : UInt8 := 23
abbrev KEY_DEL : UInt8 := 127

/-! ## The state -/

/-- The callback the editor waits for, and what it needs to go on. -/
inductive Pending
  /-- The window has changed, in `uline_init` or before the key is processed. -/
  | windowChanged (key : Option UInt8)
  | keyInput (key : UInt8)
  | line2Cursor (esc : Escape) (data : ℕ)
  /-- An event after which the key is done. -/
  | event
  | interrupt
  | eofKey
  | eof
  | line2Newline
  | line
  | line2Update
  deriving DecidableEq

/-- `struct uline_state`. -/
structure State where
  line : LineBuf
  line2 : Option LineBuf
  rows : ℕ
  cols : ℕ
  cursorPos : Pos
  endPos : Pos
  ioctlWinsize : Bool
  fullUpdate : Bool
  stop : Bool
  utf8 : Bool
  /-- The bytes of `esc_seq`, while a sequence is read. -/
  escSeq : Option (List UInt8)
  utf8Cont : ℕ
  pending : Option Pending
  deriving DecidableEq

/-- The answer of the terminal driver to `TIOCGWINSZ`: columns and rows. -/
abbrev Winsize := Option (UInt16 × UInt16)

namespace State

def edited (s : State) : LineBuf :=
  s.line2.getD s.line

def nsyms (s : State) (host : Host) (str : List UInt8) : ℕ :=
  if s.utf8 then host.utf8Nsyms str else str.length

/-- `pos_add_string` with the size of the window. -/
def addString (s : State) (host : Host) (pos : Pos) (str : List UInt8) : Except Fault Pos :=
  posAddString s.cols (s.nsyms host) pos str

/-! ## The display -/

/-- `display_output_string`. -/
def displayOutputString (s : State) (host : Host) (str : List UInt8) : Except Fault State := do
  let pos ← s.addString host s.cursorPos str
  pure { s with cursorPos := pos }

/-- The prompt of a line, and the position behind it. -/
def displayPrompt (s : State) (host : Host) (line : LineBuf) (pos : Pos) :
    Except Fault (State × LineBuf × Pos) :=
  if s.fullUpdate then do
    let s ← s.displayOutputString host (line.prompt.getD [])
    pure (s, { line with updatePos := 0 }, s.cursorPos)
  else do
    let pos ← s.addString host pos (line.prompt.getD [])
    pure (s, line, pos)

/-- `display_update_line`. -/
def displayUpdateLine (s : State) (host : Host) (line : LineBuf) (pos : Pos) :
    Except Fault (State × LineBuf × Pos) := do
  let (s, line, pos) ← s.displayPrompt host line pos
  let shown ← line.slice 0 line.updatePos
  let updatePos ← s.addString host pos shown
  let s := { s with cursorPos := updatePos }
  let text ← line.slice line.updatePos line.len
  let s ← s.displayOutputString host text
  pure (s, { line with updatePos := line.len }, pos)

/-- The second line, on a line of the screen of its own. -/
def displayLine2 (s : State) (host : Host) (base : Pos) :
    Except Fault (State × LineBuf × Pos) :=
  match s.line2 with
  | none => .ok (s, s.line, base)
  | some line2 => do
      let cursorPos := if s.cursorPos.x ≠ 0 then posAddNewline s.cursorPos else s.cursorPos
      let s := { s with cursorPos := cursorPos }
      let (s, line2, base) ← s.displayUpdateLine host line2 cursorPos
      pure ({ s with line2 := some line2 }, line2, base)

/-- `display_update`. -/
def displayUpdate (s : State) (host : Host) : Except Fault State := do
  let s := if s.fullUpdate then { s with cursorPos := Pos.zero } else s
  let (s, line, base) ← s.displayUpdateLine host s.line Pos.zero
  let s := { s with line := line }
  let (s, line, base) ← s.displayLine2 host base
  let before ← line.slice 0 line.pos
  let editPos ← s.addString host base before
  pure { s with endPos := s.cursorPos, cursorPos := editPos, fullUpdate := false }

/-- The size the terminal driver reports, if it does: columns and rows. -/
def windowSize (ioctlWinsize : Bool) (ws : Winsize) : Option (ℕ × ℕ) :=
  match ioctlWinsize, ws with
  | true, some (col, row) => if col ≠ 0 ∧ row ≠ 0 then some (col.toNat, row.toNat) else none
  | _, _ => none

/-- `update_window_size`, and whether the window has changed. -/
def updateWindowSize (s : State) (ws : Winsize) : State × Bool :=
  let size := windowSize s.ioctlWinsize ws
  let (cols, rows) := size.getD (80, 25)
  let s := { s with ioctlWinsize := size.isSome }
  if s.cols = cols ∧ s.rows = rows then (s, false)
  else ({ s with cols := cols, rows := rows, fullUpdate := true }, true)

/-! ## The functions of the program -/

/-- A call of the program: the parts of `set_state` and the other functions. -/
inductive Api
  | setPrompt (str : List UInt8)
  | setLine (str : List UInt8) (heap : Heap)
  | setCursor (pos : ℕ)
  | setLine2Prompt (str : Option (List UInt8))
  | setLine2 (str : List UInt8) (heap : Heap)
  | setLine2Cursor (pos : ℕ)
  | setHint (str : List UInt8)
  | hidePrompt
  | refreshPrompt
  | pollStop
  | getLine
  | getLine2

/-- The string up to a zero byte. -/
def cString (str : List UInt8) : List UInt8 :=
  str.takeWhile (· ≠ 0)

/-- `uline_set_line2_prompt`. -/
def setLine2Prompt (s : State) : Option (List UInt8) → State
  | none => { s with line2 := none }
  | some str =>
    let line2 := s.line2.getD LineBuf.empty
    if line2.prompt = some str then { s with line2 := some line2 }
    else { s with line2 := some { line2 with prompt := some str }, fullUpdate := true }

/-- `uline_set_hint`. -/
def setHint (s : State) (host : Host) (str : List UInt8) : Except Fault State := do
  let start := if str = [] then s.cursorPos else posAddNewline s.cursorPos
  let pos ← s.addString host start str
  if pos.y ≥ int16 s.rows then pure { s with cursorPos := Pos.zero, fullUpdate := true }
  else pure s

def runApi (s : State) (host : Host) : Api → Except Fault State
  | .setPrompt str =>
    if s.line.prompt = some (cString str) then .ok s
    else .ok { s with line := { s.line with prompt := some (cString str) }, fullUpdate := true }
  | .setLine str heap => do
      let line ← LineBuf.setLine s.utf8 heap s.line str
      pure { s with line := line }
  | .setCursor pos => .ok { s with line := s.line.setCursor pos }
  | .setLine2Prompt str => .ok (s.setLine2Prompt (str.map cString))
  | .setLine2 str heap =>
    match s.line2 with
    | none => .ok s
    | some line2 => do
        let line2 ← LineBuf.setLine s.utf8 heap line2 str
        pure { s with line2 := some line2 }
  | .setLine2Cursor pos => .ok { s with line2 := s.line2.map fun line2 => line2.setCursor pos }
  | .setHint str => s.setHint host str
  | .hidePrompt => .ok { s with cursorPos := Pos.zero, fullUpdate := true }
  | .refreshPrompt => s.displayUpdate host
  | .pollStop => .ok { s with stop := true }
  | .getLine => do
      let _ ← s.line.slice 0 s.line.len
      pure s
  | .getLine2 =>
    match s.line2 with
    | none => .ok s
    | some line2 => do
        let _ ← line2.slice 0 line2.len
        pure s

/-! ## Keys and escape sequences -/

/-- An operation on one of the lines; the second one may have gone in the meantime. -/
def onLine (s : State) (second : Bool) (op : LineBuf → Except Fault (LineBuf × Bool)) :
    Except Fault (State × Bool) :=
  if second then
    match s.line2 with
    | none => .error .memory
    | some line2 => do
        let (line2, done) ← op line2
        pure ({ s with line2 := some line2 }, done)
  else do
    let (line, done) ← op s.line
    pure ({ s with line := line }, done)

/-- The end of `process_char`. -/
def finish (s : State) (host : Host) : Except Fault State :=
  if s.stop then .ok s else s.displayUpdate host

/-- An operation that is followed by an update of the display if it has done something. -/
def edit (s : State) (host : Host) (second : Bool)
    (op : LineBuf → Except Fault (LineBuf × Bool)) : Except Fault State := do
  let (s, done) ← s.onLine second op
  if done then s.finish host else pure s

/-- `process_esc` for the line that was chosen. -/
def processEsc (s : State) (host : Host) (second : Bool) (esc : Escape) (data : ℕ) :
    Except Fault State :=
  match esc with
  | .cursorLeft => s.edit host second (LineBuf.moveLeft s.utf8)
  | .cursorWordLeft => s.edit host second (LineBuf.moveWordLeft s.utf8)
  | .cursorRight => s.edit host second (LineBuf.moveRight s.utf8)
  | .cursorWordRight => s.edit host second LineBuf.moveWordRight
  | .cursorPos =>
    if s.rows = data % 2 ^ 16 ∧ s.cols = data / 2 ^ 16 then .ok s
    else .ok { s with
      rows := data % 2 ^ 16, cols := data / 2 ^ 16, fullUpdate := true, pending := some .event }
  | .home => s.edit host second fun line => .ok ({ line with pos := 0 }, true)
  | .end_ => s.edit host second fun line => .ok ({ line with pos := line.len }, true)
  | .cursorUp => .ok { s with pending := some .event }
  | .cursorDown => .ok { s with pending := some .event }
  | .delete => s.edit host second (LineBuf.deleteSymbol s.utf8)
  | _ => .ok s

/-- The beginning of `process_esc`: with a second line open the program is asked for which of
the lines the key is, unless it deletes. -/
def beginEsc (s : State) (host : Host) (esc : Escape) (data : ℕ) : Except Fault State :=
  if s.line2.isSome ∧ esc ≠ .delete then
    .ok { s with pending := some (.line2Cursor esc data) }
  else s.processEsc host s.line2.isSome esc data

/-- The program is told of the line. -/
def submit (s : State) : Except Fault State := do
  let _ ← s.line.slice 0 s.line.len
  pure { s with pending := some .line }

/-- `process_newline` up to its first callback. -/
def processNewline (s : State) : Except Fault State :=
  match s.line2 with
  | none => s.submit
  | some line2 => do
      let _ ← line2.slice 0 line2.len
      pure { s with pending := some .line2Newline }

/-- The end of `process_newline`: the line is dropped. -/
def dropLine (s : State) : Except Fault State :=
  if s.line.len = 0 then .ok { s with cursorPos := Pos.zero, fullUpdate := true }
  else do
    let line ← LineBuf.linebufReset s.line
    pure { s with line := line, cursorPos := Pos.zero, fullUpdate := true }

/-- After a change of the line that is edited: the program is told if it is the second one. -/
def changed (s : State) (host : Host) : Except Fault State :=
  match s.line2 with
  | none => s.finish host
  | some line2 => do
      let _ ← line2.slice 0 line2.len
      pure { s with pending := some .line2Update }

def backspace (s : State) (host : Host) : Except Fault State := do
  let (s, moved) ← s.onLine s.line2.isSome (LineBuf.moveLeft s.utf8)
  if moved = false then pure s
  else do
    let (s, _) ← s.onLine s.line2.isSome (LineBuf.deleteSymbol s.utf8)
    s.changed host

/-- `process_ctrl`. -/
def processCtrl (s : State) (host : Host) (c : UInt8) : Except Fault State :=
  if c = KEY_LF ∨ c = KEY_CR then s.processNewline
  else if c = KEY_ETX then .ok { s with pending := some .interrupt }
  else if c = KEY_EOT then
    if s.line.len ≠ 0 then .ok s else .ok { s with pending := some .eofKey }
  else if c = KEY_BS ∨ c = KEY_DEL then s.backspace host
  else if c = KEY_FF then { s with fullUpdate := true }.finish host
  else if c = KEY_NAK then
    s.edit host s.line2.isSome fun line => do
      let line ← LineBuf.linebufReset line
      pure (line, true)
  else if c = KEY_SOH then s.beginEsc host .home 0
  else if c = KEY_ENQ then s.beginEsc host .end_ 0
  else if c = KEY_ETB then s.edit host s.line2.isSome (LineBuf.processBackword s.utf8)
  else if c = KEY_ESC then .ok { s with escSeq := some [] }
  else .ok s

/-- `check_utf8`. -/
def checkUtf8 (s : State) (c : UInt8) : Bool :=
  s.utf8 && (s.utf8Cont != 0 || c &&& 0xc0 == 0xc0)

/-- The number of continuation bytes that a first byte announces. -/
def utf8Expected (c : UInt8) : ℕ :=
  if 0xf0 ≤ c then 3 else if 0xe0 ≤ c then 2 else 1

/-- `handle_utf8`, and whether the symbol is incomplete. -/
def handleUtf8 (s : State) (c : UInt8) : State × Bool :=
  if s.utf8 = false then (s, false)
  else if s.utf8Cont = 0 then
    if c &&& 0xc0 ≠ 0xc0 then (s, false) else ({ s with utf8Cont := utf8Expected c }, true)
  else if c &&& 0xc0 ≠ 0x80 then ({ s with utf8Cont := 0 }, false)
  else ({ s with utf8Cont := s.utf8Cont - 1 }, decide (s.utf8Cont - 1 ≠ 0))

def typeChar (s : State) (host : Host) (heap : Heap) (c : UInt8) : Except Fault State := do
  let (s, inserted) ← s.onLine s.line2.isSome fun line => LineBuf.linebufInsert heap line [c]
  if inserted = false then pure s
  else
    let (s, incomplete) := s.handleUtf8 c
    if incomplete then pure s else s.changed host

/-- A byte that the program did not take. -/
def handleKey (s : State) (host : Host) (heap : Heap) (c : UInt8) : Except Fault State :=
  if c < 32 ∨ c = KEY_DEL then s.processCtrl host c else s.typeChar host heap c

/-- `process_char` up to its first callback. -/
def processChar (s : State) (host : Host) (heap : Heap) (c : UInt8) : Except Fault State :=
  match s.escSeq with
  | some seq =>
    let seq := seq ++ [c]
    let (esc, data) := vt100EscDecode host seq
    if esc = .incomplete ∧ seq.length < 31 then .ok { s with escSeq := some seq }
    else { s with escSeq := none }.beginEsc host esc data
  | none =>
    if s.checkUtf8 c then s.handleKey host heap c
    else .ok { s with pending := some (.keyInput c) }

/-- What is left to do when the callback returns. -/
def resume (s : State) (host : Host) (heap : Heap) (result : Bool) :
    Pending → Except Fault State
  | .windowChanged none => .ok s
  | .windowChanged (some c) => s.processChar host heap c
  | .keyInput c => if result then s.finish host else s.handleKey host heap c
  | .line2Cursor esc data => s.processEsc host result esc data
  | .event => s.finish host
  | .interrupt => do
      let s ← s.dropLine
      pure { s with stop := true }
  | .eofKey => .ok { s with stop := true }
  | .eof => .ok s
  | .line2Newline => if result then s.finish host else { s with line2 := none }.submit
  | .line =>
    if result then do
      let s ← { s with stop := true }.dropLine
      s.finish host
    else do
      let (line, _) ← LineBuf.linebufInsert heap s.line [newline]
      { s with line := line, stop := false }.finish host
  | .line2Update => s.finish host

/-! ## Steps -/

inductive Event
  | api (call : Api)
  /-- `uline_poll` is called. -/
  | poll
  /-- A byte is read, after a change of the window size if there was one. -/
  | byte (c : UInt8) (winch : Option Winsize) (heap : Heap)
  /-- The end of the input. -/
  | eof
  /-- The callback the editor waits for returns. -/
  | ret (result : Bool) (heap : Heap)

/-- What `uline_init` sets before it asks for the size of the window. -/
def start (utf8 : Bool) : State where
  line := LineBuf.empty
  line2 := none
  rows := 0
  cols := 0
  cursorPos := Pos.zero
  endPos := Pos.zero
  ioctlWinsize := true
  fullUpdate := true
  stop := false
  utf8 := utf8
  escSeq := none
  utf8Cont := 0
  pending := some (.windowChanged none)

/-- The editor after `uline_init`, while the program is told the size of the window. -/
def init (utf8 : Bool) (ws : Winsize) : State :=
  ((start utf8).updateWindowSize ws).1

/-- One step. While the editor waits for a callback it reads nothing. -/
def step (host : Host) (s : State) : Event → Except Fault State
  | .api call => s.runApi host call
  | .poll =>
    match s.pending with
    | some _ => .ok s
    | none => do
        let s ← s.displayUpdate host
        pure { s with stop := false }
  | .byte c winch heap =>
    if s.pending.isSome ∨ s.stop then .ok s
    else
      match winch with
      | none => s.processChar host heap c
      | some ws =>
        let (s, windowChanged) := s.updateWindowSize ws
        if windowChanged then .ok { s with pending := some (.windowChanged (some c)) }
        else s.processChar host heap c
  | .eof =>
    if s.pending.isSome ∨ s.stop then .ok s else .ok { s with pending := some .eof }
  | .ret result heap =>
    match s.pending with
    | none => .ok s
    | some pending => { s with pending := none }.resume host heap result pending

def run (host : Host) (utf8 : Bool) (ws : Winsize) (events : List Event) : Except Fault State :=
  events.foldlM (step host) (init utf8 ws)

end State

end OpenWrt.Uline
