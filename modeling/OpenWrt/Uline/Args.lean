/-
# The argument parser and the escaper of the line editor

`uc_uline_parse_args` splits a line into arguments: a loop with a state for quoting,
that takes a chunk of plain characters or one special character a turn.
`uc_uline_argp_escape` writes a string so that it can be put into a line, in the
style of a reference quote. Strings are lists of bytes; what the parser reads ends at
a zero byte, as it does in the source.
-/

import Mathlib.Data.Nat.Notation
import Mathlib.Logic.Basic
import Mathlib.Tactic.SplitIfs

namespace OpenWrt.Uline

/-! ## Characters -/

abbrev tab : UInt8 := 9
abbrev newline : UInt8 := 10
abbrev carriageReturn : UInt8 := 13
abbrev space : UInt8 := 32
abbrev doubleQuote : UInt8 := 34
abbrev singleQuote : UInt8 := 39
abbrev backslash : UInt8 := 92

/-- `isspace`: the space and the characters from tab to carriage return. -/
def isSpace (c : UInt8) : Bool :=
  c == space || (tab ≤ c && c ≤ carriageReturn)

/-- The characters of `unquote_tok`, with the line separator if there is one. -/
def isUnquoteTok (sep c : UInt8) : Bool :=
  [space, tab, carriageReturn, newline, singleQuote, doubleQuote, backslash].contains c ||
    (sep != 0 && c == sep)

/-- `strcspn`: the text before the first of the stop characters or its end. -/
def chunk (stop : UInt8 → Bool) (str : List UInt8) : List UInt8 :=
  str.takeWhile fun c => !(stop c || c == 0)

/-- What `strcspn` leaves. -/
def afterChunk (stop : UInt8 → Bool) (str : List UInt8) : List UInt8 :=
  str.dropWhile fun c => !(stop c || c == 0)

/-! ## The parser -/

inductive ParseState
  | unquoted | backslash | singleQuote | doubleQuote | doubleQuoteBackslash
  deriving DecidableEq

/-- `state_str`. -/
def ParseState.missing : ParseState → Option (List UInt8)
  | .unquoted => none
  | .backslash => some [Uline.backslash]
  | .singleQuote => some [Uline.singleQuote]
  | .doubleQuote => some [Uline.doubleQuote]
  | .doubleQuoteBackslash => some [Uline.backslash, Uline.doubleQuote]

/-- The variables of the loop. `list` and `posList` are those of the current line; the
earlier lines are in `lines` and `posLines`. -/
structure ArgParse where
  state : ParseState
  buf : Option (List UInt8)
  list : List (List UInt8)
  posList : List (Int × Int)
  lines : List (List (List UInt8))
  posLines : List (List (Int × Int))
  startIdx : Int
  endIdx : Int

def ArgParse.start : ArgParse where
  state := .unquoted
  buf := none
  list := []
  posList := []
  lines := []
  posLines := []
  startIdx := -1
  endIdx := 0

namespace ArgParse

/-- `add_str`: nothing is done for an empty piece. -/
def addStr (buf : Option (List UInt8)) (piece : List UInt8) : Option (List UInt8) :=
  if piece = [] then buf else some (buf.getD [] ++ piece)

/-- `if (start_idx < 0) start_idx = str - start`. -/
def markStart (p : ArgParse) (idx : Int) : ArgParse :=
  if p.startIdx < 0 then { p with startIdx := idx } else p

/-- The pending argument, if there is one, joins the list with its position. -/
def finishArg (p : ArgParse) : ArgParse :=
  match p.buf with
  | none => p
  | some arg =>
    { p with
      list := p.list ++ [arg], posList := p.posList ++ [(p.startIdx, p.endIdx)],
      startIdx := -1, buf := none }

/-- The state after a quote or a backslash outside of quotes. -/
def openWith (p : ArgParse) (state : ParseState) : ArgParse :=
  { p with state := state, buf := some (p.buf.getD []) }

def endLine (p : ArgParse) : ArgParse :=
  let p := p.finishArg
  { p with
    lines := p.lines ++ [p.list], posLines := p.posLines ++ [p.posList],
    list := [], posList := [] }

/-- The turn in the state `UNQUOTED`, after the white space. -/
def unquotedTurn (sep : UInt8) (total : ℕ) (p : ArgParse) (str : List UInt8) :
    ArgParse × List UInt8 :=
  let p := p.markStart (total - str.length)
  let next := afterChunk (isUnquoteTok sep) str
  let p := { p with
    buf := addStr p.buf (chunk (isUnquoteTok sep) str), endIdx := total - next.length }
  match next with
  | [] => (p, [])
  | c :: rest =>
    if c = 0 then (p, c :: rest)
    else if c = singleQuote then (p.openWith .singleQuote, rest)
    else if c = doubleQuote then (p.openWith .doubleQuote, rest)
    else if c = backslash then (p.openWith .backslash, rest)
    else if sep ≠ 0 ∧ c = sep then (p.endLine, rest)
    else (p, c :: rest)

/-- The turn after a backslash; an escaped newline is dropped. -/
def backslashTurn (total : ℕ) (after : ParseState) (p : ArgParse) (c : UInt8)
    (rest : List UInt8) : ArgParse × List UInt8 :=
  let p := p.markStart (total - (rest.length + 1))
  ({ p with
    buf := if c = newline then p.buf else addStr p.buf [c], state := after,
    endIdx := total - rest.length }, rest)

/-- The turn in the state `SINGLE_QUOTE`. -/
def singleQuoteTurn (total : ℕ) (p : ArgParse) (str : List UInt8) : ArgParse × List UInt8 :=
  let p := p.markStart (total - str.length)
  let p := { p with buf := addStr p.buf (chunk (· == singleQuote) str) }
  match afterChunk (· == singleQuote) str with
  | [] => ({ p with endIdx := total }, [])
  | c :: rest =>
    if c = singleQuote then
      ({ p with state := .unquoted, endIdx := total - rest.length }, rest)
    else ({ p with endIdx := total - (rest.length + 1) }, c :: rest)

/-- The turn in the state `DOUBLE_QUOTE`. -/
def doubleQuoteTurn (total : ℕ) (p : ArgParse) (str : List UInt8) : ArgParse × List UInt8 :=
  let p := p.markStart (total - str.length)
  let stop := fun c => c == doubleQuote || c == backslash
  let p := { p with buf := addStr p.buf (chunk stop str) }
  match afterChunk stop str with
  | [] => ({ p with endIdx := total }, [])
  | c :: rest =>
    if c = doubleQuote then
      ({ p with state := .unquoted, endIdx := total - rest.length }, rest)
    else if c = backslash then
      ({ p with state := .doubleQuoteBackslash, endIdx := total - rest.length }, rest)
    else ({ p with endIdx := total - (rest.length + 1) }, c :: rest)

/-- One turn of the loop on the text that begins with `c`. -/
def turn (sep : UInt8) (total : ℕ) (p : ArgParse) (c : UInt8) (rest : List UInt8) :
    ArgParse × List UInt8 :=
  match p.state with
  | .unquoted =>
    if isSpace c then (p.finishArg, (c :: rest).dropWhile isSpace)
    else p.unquotedTurn sep total (c :: rest)
  | .backslash => p.backslashTurn total .unquoted c rest
  | .doubleQuoteBackslash => p.backslashTurn total .doubleQuote c rest
  | .singleQuote => p.singleQuoteTurn total (c :: rest)
  | .doubleQuote => p.doubleQuoteTurn total (c :: rest)

end ArgParse

/-! ## Every turn takes something -/

theorem chunk_append_afterChunk (stop : UInt8 → Bool) (str : List UInt8) :
    chunk stop str ++ afterChunk stop str = str :=
  List.takeWhile_append_dropWhile

theorem length_chunk_add (stop : UInt8 → Bool) (str : List UInt8) :
    (chunk stop str).length + (afterChunk stop str).length = str.length := by
  rw [← List.length_append, chunk_append_afterChunk]

theorem stop_of_afterChunk {stop : UInt8 → Bool} {str : List UInt8} {c : UInt8}
    {rest : List UInt8} (h : afterChunk stop str = c :: rest) : stop c = true ∨ c = 0 := by
  have hnot := List.head?_dropWhile_not (fun c => !(stop c || c == 0)) str
  rw [show str.dropWhile (fun c => !(stop c || c == 0)) = c :: rest from h] at hnot
  simpa [Bool.or_eq_true, or_iff_not_imp_left] using hnot

theorem length_afterChunk_le (stop : UInt8 → Bool) (str : List UInt8) :
    (afterChunk stop str).length ≤ str.length := by
  have := length_chunk_add stop str
  omega

/-- What is left after a chunk from `c` on is shorter, but where `c` ends the chunk. -/
theorem afterChunk_lt_or (stop : UInt8 → Bool) (c : UInt8) (rest : List UInt8) :
    (afterChunk stop (c :: rest)).length ≤ rest.length ∨
      afterChunk stop (c :: rest) = c :: rest := by
  by_cases h : (!(stop c || c == 0)) = true
  · left
    have hdrop : afterChunk stop (c :: rest) = afterChunk stop rest :=
      List.dropWhile_cons_of_pos h
    rw [hdrop]
    exact length_afterChunk_le stop rest
  · right
    exact List.dropWhile_cons_of_neg h

namespace ArgParse

variable {sep : UInt8} {total : ℕ} {p : ArgParse} {c : UInt8} {rest : List UInt8}

theorem length_unquotedTurn_lt (hc : c ≠ 0) (hspace : isSpace c = false) :
    (p.unquotedTurn sep total (c :: rest)).2.length < (c :: rest).length := by
  unfold unquotedTurn
  dsimp only
  rcases afterChunk_lt_or (isUnquoteTok sep) c rest with hle | hsame
  · split
    case h_1 => exact Nat.succ_pos _
    case h_2 d ds hnext =>
      rw [hnext, List.length_cons] at hle
      split_ifs <;> simp only [List.length_cons] <;> omega
  · rw [hsame]
    dsimp only
    rw [if_neg hc]
    split_ifs with h1 h2 h3 h4
    · exact Nat.lt_succ_self _
    · exact Nat.lt_succ_self _
    · exact Nat.lt_succ_self _
    · exact Nat.lt_succ_self _
    · -- A chunk that stops at once stops at a token, and a space was dealt with before.
      exfalso
      rcases stop_of_afterChunk hsame with htok | hzero
      · simp [isUnquoteTok, h1, h2, h3] at htok
        rcases htok with (rfl | rfl | rfl | rfl) | htok
        · exact absurd hspace (by decide)
        · exact absurd hspace (by decide)
        · exact absurd hspace (by decide)
        · exact absurd hspace (by decide)
        · exact h4 htok
      · exact hc hzero

theorem length_singleQuoteTurn_lt (hc : c ≠ 0) :
    (p.singleQuoteTurn total (c :: rest)).2.length < (c :: rest).length := by
  unfold singleQuoteTurn
  dsimp only
  rcases afterChunk_lt_or (· == singleQuote) c rest with hle | hsame
  · split
    case h_1 => exact Nat.succ_pos _
    case h_2 d ds hnext =>
      rw [hnext, List.length_cons] at hle
      split_ifs <;> simp only [List.length_cons] <;> omega
  · rw [hsame]
    dsimp only
    rw [if_pos]
    · exact Nat.lt_succ_self _
    · rcases stop_of_afterChunk hsame with hquote | hzero
      · exact eq_of_beq hquote
      · exact absurd hzero hc

theorem length_doubleQuoteTurn_lt (hc : c ≠ 0) :
    (p.doubleQuoteTurn total (c :: rest)).2.length < (c :: rest).length := by
  unfold doubleQuoteTurn
  dsimp only
  rcases afterChunk_lt_or (fun c => c == doubleQuote || c == backslash) c rest with hle | hsame
  · split
    case h_1 => exact Nat.succ_pos _
    case h_2 d ds hnext =>
      rw [hnext, List.length_cons] at hle
      split_ifs <;> simp only [List.length_cons] <;> omega
  · rw [hsame]
    dsimp only
    split_ifs with h1 h2
    · exact Nat.lt_succ_self _
    · exact Nat.lt_succ_self _
    · exfalso
      rcases stop_of_afterChunk hsame with hstop | hzero
      · simp [h1, h2] at hstop
      · exact hc hzero

theorem length_turn_lt (hc : c ≠ 0) :
    (p.turn sep total c rest).2.length < (c :: rest).length := by
  unfold turn
  split
  case h_1 =>
    split
    case isTrue hspace =>
      rw [List.dropWhile_cons_of_pos hspace]
      exact Nat.lt_succ_of_le (List.dropWhile_sublist _).length_le
    case isFalse hspace => exact length_unquotedTurn_lt hc (by simpa using hspace)
  case h_2 => exact Nat.lt_succ_self _
  case h_3 => exact Nat.lt_succ_self _
  case h_4 => exact length_singleQuoteTurn_lt hc
  case h_5 => exact length_doubleQuoteTurn_lt hc

/-- The loop: it ends with the text or at a zero byte. -/
def loop (sep : UInt8) (total : ℕ) (p : ArgParse) : List UInt8 → ArgParse
  | [] => p
  | c :: rest =>
    if hc : c = 0 then p
    else
      have : (p.turn sep total c rest).2.length < (c :: rest).length := length_turn_lt hc
      loop sep total (p.turn sep total c rest).1 (p.turn sep total c rest).2
termination_by str => str.length
decreasing_by exact this

end ArgParse

/-- `args` of the result: a list of arguments, or one list a line with a separator. -/
inductive Args
  | flat (list : List (List UInt8))
  | lines (lines : List (List (List UInt8)))
  deriving DecidableEq

/-- The object that `parse` returns. -/
structure ParseResult where
  args : Args
  pos : List (List (Int × Int))
  missing : Option (List UInt8)

/-- `uc_uline_parse_args` for a string; the separator zero is none. -/
def parseArgs (sep : UInt8) (str : List UInt8) : ParseResult :=
  let p := ((ArgParse.start).loop sep str.length (str.dropWhile isSpace))
  let q := p.finishArg
  { args := if sep = 0 then .flat q.list else .lines (q.lines ++ [q.list])
    pos := q.posLines ++ [q.posList]
    missing := p.state.missing }

/-! ## The escaper -/

/-- The characters that make `uc_uline_argp_escape` quote. -/
def needsQuote (c : UInt8) : Bool :=
  [newline, tab, space, singleQuote, doubleQuote].contains c

/-- The text between the quotes: the quote itself is replaced. -/
def escapeBody (ref : UInt8) : List UInt8 → List UInt8
  | [] => []
  | c :: rest =>
    if c = ref then
      (if ref = singleQuote then [singleQuote, backslash, singleQuote, singleQuote]
        else [backslash, doubleQuote]) ++ escapeBody ref rest
    else c :: escapeBody ref rest

/-- `uc_uline_argp_escape` with the first character of the reference, or zero. -/
def escape (ref : UInt8) (str : List UInt8) : List UInt8 :=
  let ref :=
    if ref ≠ doubleQuote ∧ ref ≠ singleQuote ∧ str.any needsQuote = true then doubleQuote else ref
  if ref ≠ doubleQuote ∧ ref ≠ singleQuote then str
  else ref :: escapeBody ref str ++ [ref]

end OpenWrt.Uline
