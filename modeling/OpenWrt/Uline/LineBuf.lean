/-
# The line buffer of the line editor

A `linebuf` is a block that `realloc` extends in chunks, the length of the text in it
and the cursor. Every access is checked against the block: one outside of it, or any
through a null pointer, is a fault. The new bytes of an extended block are arbitrary.
-/

import OpenWrt.Lib.Fault
import OpenWrt.Uline.Args

namespace OpenWrt.Uline

/-- What can go wrong: an access outside of a line buffer, a text whose measuring runs past
its end, and a division by zero. -/
inductive Fault
  | memory | overread | division
  deriving DecidableEq

/-- `struct linebuf`; the size of the buffer is that of the block. -/
structure LineBuf where
  buf : Option (List UInt8)
  len : ℕ
  prompt : Option (List UInt8)
  pos : ℕ
  updatePos : ℕ
  deriving DecidableEq

/-- What `realloc` does: it fails, or it returns a block with new bytes. -/
abbrev Heap := Option (ℕ → UInt8)

def LINEBUF_CHUNK : ℕ := 64

/-- `memcpy` into a block that has room for it. -/
def overwrite (block : List UInt8) (dst : ℕ) (str : List UInt8) : List UInt8 :=
  block.take dst ++ str ++ block.drop (dst + str.length)

namespace LineBuf

/-- A line after `calloc`. -/
def empty : LineBuf where
  buf := none
  len := 0
  prompt := none
  pos := 0
  updatePos := 0

/-- The bytes that may be accessed. -/
def block (line : LineBuf) : List UInt8 :=
  line.buf.getD []

def bufsize (line : LineBuf) : ℕ :=
  line.block.length

/-! ## Accesses -/

def peek (line : LineBuf) (i : ℕ) : Except Fault UInt8 :=
  match line.block[i]? with
  | some c => .ok c
  | none => .error .memory

def poke (line : LineBuf) (i : ℕ) (c : UInt8) : Except Fault LineBuf :=
  if i < line.bufsize then .ok { line with buf := some (line.block.set i c) }
  else .error .memory

/-- `memcpy` from a string into the buffer. -/
def copyIn (line : LineBuf) (dst : ℕ) (str : List UInt8) : Except Fault LineBuf :=
  if str = [] then .ok line
  else if dst + str.length ≤ line.bufsize then
    .ok { line with buf := some (overwrite line.block dst str) }
  else .error .memory

/-- `memmove` within the buffer. -/
def move (line : LineBuf) (dst src n : ℕ) : Except Fault LineBuf :=
  if n = 0 then .ok line
  else if src + n ≤ line.bufsize then line.copyIn dst ((line.block.drop src).take n)
  else .error .memory

/-- The text between two offsets, as a callback or the display reads it. -/
def slice (line : LineBuf) (start stop : ℕ) : Except Fault (List UInt8) :=
  if stop ≤ start then .ok []
  else if stop ≤ line.bufsize then .ok ((line.block.drop start).take (stop - start))
  else .error .memory

/-! ## Editing -/

/-- `linebuf_extend`, and whether it returned a pointer. -/
def linebufExtend (heap : Heap) (line : LineBuf) (size : ℕ) : LineBuf × Bool :=
  let tailroom := line.bufsize - line.len
  if line.buf.isSome ∧ tailroom > size then (line, true)
  else
    let size := size - tailroom + (LINEBUF_CHUNK - 1)
    let size := size - size % LINEBUF_CHUNK
    match heap with
    | none => (line, false)
    | some fresh =>
      ({ line with buf := some (line.block ++ (List.range size).map fresh) }, true)

/-- The part of `linebuf_insert` that moves what is behind the cursor. -/
def shiftTail (line : LineBuf) (len : ℕ) : Except Fault LineBuf :=
  let tail := line.len - line.pos
  if tail > 0 then line.move (line.pos + len) line.pos tail
  else line.poke (line.pos + len) 0

/-- `linebuf_insert`. -/
def linebufInsert (heap : Heap) (line : LineBuf) (c : List UInt8) :
    Except Fault (LineBuf × Bool) :=
  let (line, extended) := linebufExtend heap line (c.length + 1)
  if extended = false then .ok (line, false)
  else do
    let line ← line.shiftTail c.length
    let line := { line with updatePos := min line.updatePos line.pos }
    let line ← line.copyIn line.pos c
    let line := { line with len := line.len + c.length, pos := line.pos + c.length }
    let line ← line.poke line.len 0
    pure (line, true)

/-- `linebuf_delete`. -/
def linebufDelete (line : LineBuf) (len : ℕ) : Except Fault LineBuf := do
  let tail := line.len - line.pos
  let line := { line with updatePos := min line.updatePos line.pos }
  let len := min len tail
  let line ← line.move line.pos (line.pos + len) (tail + 1)
  pure { line with len := line.len - len }

/-- `linebuf_reset`. -/
def linebufReset (line : LineBuf) : Except Fault LineBuf :=
  { line with pos := 0, len := 0, updatePos := 0 }.poke 0 0

/-! ## Moving -/

def isUtf8Cont (c : UInt8) : Bool :=
  c &&& 0xc0 == 0x80

/-- The loop that moves to the left while the byte under the cursor is of the kind. -/
def backWhile (kind : UInt8 → Bool) (line : LineBuf) : ℕ → Except Fault ℕ
  | 0 => .ok 0
  | pos + 1 => do
      let c ← line.peek (pos + 1)
      if kind c then backWhile kind line pos else .ok (pos + 1)

/-- The loop that moves to the right while the byte under the cursor is of the kind, with the
number of bytes before the end of the text; the byte there is read as well. -/
def forwardWhile (kind : UInt8 → Bool) (line : LineBuf) : ℕ → ℕ → Except Fault ℕ
  | 0, pos => do
      let _ ← line.peek pos
      .ok pos
  | left + 1, pos => do
      let c ← line.peek pos
      if kind c then forwardWhile kind line left (pos + 1) else .ok pos

/-- `utf8_move_left`. -/
def utf8MoveLeft (line : LineBuf) : ℕ → Except Fault ℕ
  | 0 => .ok 0
  | pos + 1 => backWhile isUtf8Cont line pos

/-- The rest of a symbol: its continuation bytes, with the number of bytes before the end. -/
def skipCont (line : LineBuf) : ℕ → ℕ → Except Fault ℕ
  | 0, pos => .ok pos
  | left + 1, pos => do
      let c ← line.peek pos
      if isUtf8Cont c then skipCont line left (pos + 1) else .ok pos

/-- `utf8_move_right`. -/
def utf8MoveRight (line : LineBuf) (pos len : ℕ) : Except Fault ℕ :=
  if pos = len then .ok pos else skipCont line (len - (pos + 1)) (pos + 1)

/-- The offset of the symbol before the cursor. -/
def leftPos (utf8 : Bool) (line : LineBuf) : Except Fault ℕ :=
  if utf8 then utf8MoveLeft line line.pos else .ok (line.pos - 1)

/-- The offset behind the symbol under the cursor. -/
def rightPos (utf8 : Bool) (line : LineBuf) : Except Fault ℕ :=
  if utf8 then utf8MoveRight line line.pos line.len else .ok (line.pos + 1)

/-- `move_left`. -/
def moveLeft (utf8 : Bool) (line : LineBuf) : Except Fault (LineBuf × Bool) :=
  if line.pos = 0 then .ok (line, false)
  else do
    let pos ← leftPos utf8 line
    pure ({ line with pos := pos }, true)

/-- `move_right`. -/
def moveRight (utf8 : Bool) (line : LineBuf) : Except Fault (LineBuf × Bool) :=
  if line.pos ≥ line.len then .ok (line, false)
  else do
    let pos ← rightPos utf8 line
    pure ({ line with pos := pos }, true)

/-- `move_word_left`. -/
def moveWordLeft (utf8 : Bool) (line : LineBuf) : Except Fault (LineBuf × Bool) := do
  let (line, moved) ← moveLeft utf8 line
  if moved = false then pure (line, false)
  else do
    let pos ← backWhile isSpace line line.pos
    let pos ← backWhile (fun c => !isSpace c) line pos
    let c ← line.peek pos
    let pos := if isSpace c then pos + 1 else pos
    pure ({ line with pos := pos }, true)

/-- `move_word_right`. -/
def moveWordRight (line : LineBuf) : Except Fault (LineBuf × Bool) :=
  if line.pos = line.len then .ok (line, false)
  else do
    let pos ← forwardWhile (fun c => !isSpace c) line (line.len - line.pos) line.pos
    let pos ← forwardWhile isSpace line (line.len - pos) pos
    pure ({ line with pos := pos }, true)

/-- The number of bytes of the symbol under the cursor. -/
def symbolLength (utf8 : Bool) (line : LineBuf) : Except Fault ℕ :=
  if utf8 then do
    let next ← utf8MoveRight line line.pos line.len
    pure (next - line.pos)
  else pure 1

/-- `delete_symbol`. -/
def deleteSymbol (utf8 : Bool) (line : LineBuf) : Except Fault (LineBuf × Bool) :=
  if line.pos = line.len then .ok (line, false)
  else do
    let len ← symbolLength utf8 line
    let line ← linebufDelete line len
    pure (line, true)

/-- `process_backword`. -/
def processBackword (utf8 : Bool) (line : LineBuf) : Except Fault (LineBuf × Bool) := do
  let pos := line.pos
  let (line, moved) ← moveWordLeft utf8 line
  if moved = false then pure (line, false)
  else do
    let line ← linebufDelete line (pos - line.pos)
    pure (line, true)

/-! ## The text set from outside -/

/-- The loop of `__uline_set_line` over the text that the old and the new line share. -/
def sharedLength (line : LineBuf) (prevLen : ℕ) : ℕ → List UInt8 → Except Fault ℕ
  | i, [] => .ok i
  | i, c :: str =>
    if i < prevLen then do
      let old ← line.peek i
      if old ≠ c then .ok i else sharedLength line prevLen (i + 1) str
    else .ok i

/-- Back to the beginning of the symbol in the new text, which ends with a zero byte. -/
def symbolStart (str : List UInt8) : ℕ → ℕ
  | 0 => 0
  | i + 1 => if isUtf8Cont (str.getD (i + 1) 0) then symbolStart str i else i + 1

/-- Where the display has to begin, from the length of the text the lines share. -/
def updateMark (utf8 : Bool) (prevLen : ℕ) (str : List UInt8) (i : ℕ) : ℕ :=
  let i := if i > prevLen then i - 1 else i
  if utf8 then symbolStart str i else i

/-- `__uline_set_line`. -/
def setLine (utf8 : Bool) (heap : Heap) (line : LineBuf) (str : List UInt8) :
    Except Fault LineBuf := do
  let prevLen := line.len
  let (line, _) := linebufExtend heap { line with len := 0 } str.length
  let i ← sharedLength line prevLen 0 str
  let line := { line with updatePos := updateMark utf8 prevLen str i }
  let line ← line.copyIn 0 str
  pure { line with len := str.length, pos := min line.pos str.length }

/-- `uline_set_cursor`. -/
def setCursor (line : LineBuf) (pos : ℕ) : LineBuf :=
  { line with pos := min pos line.len }

end LineBuf

end OpenWrt.Uline
