/-
# The positions of the arguments, byte by byte

The parser notes where an argument begins and where it ends. Here an automaton takes one byte at
a time and keeps the same notes, for any line separator. What a byte does depends on the mode
alone, so that a text is read in the same way wherever it stands. The loop of the source refines
the automaton up to the first zero byte.
-/

import OpenWrt.Uline.ArgsBytes

namespace OpenWrt.Uline

/-! ## The automaton -/

/-- What a byte does. -/
inductive Act
  /-- White space outside of an argument, or behind one. -/
  | space
  /-- The line separator. -/
  | line
  /-- A quote or a backslash outside of quotes. -/
  | opens (mode : Mode)
  /-- The byte joins the argument. -/
  | adds (mode : Mode)
  /-- The byte is part of the argument, and leaves nothing in it. -/
  | passes (mode : Mode)
  deriving DecidableEq

/-- A byte outside of quotes that is not white space. -/
def plainAct (sep c : UInt8) : Act :=
  if c = singleQuote then .opens .singleQuote
  else if c = doubleQuote then .opens .doubleQuote
  else if c = backslash then .opens .backslash
  else if sep ≠ 0 ∧ c = sep then .line
  else .adds .plain

/-- What a byte does in a mode. -/
def act (sep : UInt8) (mode : Mode) (c : UInt8) : Act :=
  match mode with
  | .start => if isSpace c then .space else plainAct sep c
  | .plain => if isBreak c ∧ ¬ (sep ≠ 0 ∧ c = sep) then .space else plainAct sep c
  | .backslash => if c = newline then .passes .start else .adds .start
  | .doubleQuoteBackslash => if c = newline then .passes .doubleQuote else .adds .doubleQuote
  | .singleQuote => if c = singleQuote then .passes .start else .adds .singleQuote
  | .doubleQuote =>
    if c = doubleQuote then .passes .start
    else if c = backslash then .passes .doubleQuoteBackslash
    else .adds .doubleQuote

/-- An argument and where it stands. -/
structure Found where
  arg : List UInt8
  start : ℕ
  stop : ℕ

/-- The notes: how many bytes were read, the pending argument, the start of one and the end so
far, the arguments of the line and the earlier lines. -/
structure Track where
  mode : Mode
  count : ℕ
  buf : Option (List UInt8)
  startIdx : Option ℕ
  endIdx : ℕ
  found : List Found
  lines : List (List Found)

namespace Track

def empty : Track where
  mode := .start
  count := 0
  buf := none
  startIdx := none
  endIdx := 0
  found := []
  lines := []

/-- The pending argument, if there is one, is found. -/
def finish (t : Track) : Track :=
  match t.buf with
  | none => t
  | some arg =>
    { t with
      found := t.found ++ [⟨arg, t.startIdx.getD 0, t.endIdx⟩], startIdx := none, buf := none }

/-- An argument begins here, if none has begun. -/
def mark (t : Track) : Track :=
  { t with startIdx := some (t.startIdx.getD t.count) }

def endLine (t : Track) : Track :=
  let t := t.finish
  { t with lines := t.lines ++ [t.found], found := [] }

/-- One byte that does this. -/
def apply (t : Track) (c : UInt8) : Act → Track
  | .space => { t.finish with mode := .start, count := t.count + 1 }
  | .line => { { t.mark with endIdx := t.count }.endLine with mode := .start, count := t.count + 1 }
  | .opens mode =>
    { t.mark with mode, endIdx := t.count, buf := some (t.buf.getD []), count := t.count + 1 }
  | .adds mode =>
    { t.mark with
      mode, endIdx := t.count + 1, buf := some (t.buf.getD [] ++ [c]), count := t.count + 1 }
  | .passes mode => { t.mark with mode, endIdx := t.count + 1, count := t.count + 1 }

def feed (sep : UInt8) (t : Track) (c : UInt8) : Track := t.apply c (act sep t.mode c)

def run (sep : UInt8) (t : Track) (text : List UInt8) : Track := text.foldl (feed sep) t

@[simp] theorem run_nil (sep : UInt8) (t : Track) : t.run sep [] = t := rfl

@[simp] theorem run_cons (sep : UInt8) (t : Track) (c : UInt8) (text : List UInt8) :
    t.run sep (c :: text) = (t.feed sep c).run sep text := rfl

theorem run_append (sep : UInt8) (t : Track) (one two : List UInt8) :
    t.run sep (one ++ two) = (t.run sep one).run sep two :=
  List.foldl_append

theorem run_concat (sep : UInt8) (t : Track) (text : List UInt8) (c : UInt8) :
    t.run sep (text ++ [c]) = (t.run sep text).feed sep c := by
  rw [run_append, run_cons, run_nil]

end Track

/-! ## The notes as the source keeps them -/

namespace Found

/-- The pair of the position. -/
def pos (f : Found) : Int × Int := (f.start, f.stop)

end Found

namespace Track

/-- The variables of the loop. -/
def parse (t : Track) : ArgParse where
  state := t.mode.state
  buf := t.buf
  list := t.found.map Found.arg
  posList := t.found.map Found.pos
  lines := t.lines.map (List.map Found.arg)
  posLines := t.lines.map (List.map Found.pos)
  startIdx := t.startIdx.elim (-1) fun s => (s : Int)
  endIdx := t.endIdx

/-- A pending argument has begun somewhere. -/
def Marked (t : Track) : Prop := t.buf.isSome → t.startIdx.isSome

variable {t : Track} {sep c : UInt8}

theorem marked_empty : empty.Marked := nofun

theorem finish_buf (t : Track) : t.finish.buf = none := by
  unfold finish
  split
  · assumption
  · rfl

theorem marked_apply (t : Track) (c : UInt8) (a : Act) : (t.apply c a).Marked := by
  cases a with
  | space =>
    intro hbuf
    rw [show (t.apply c .space).buf = t.finish.buf from rfl, finish_buf] at hbuf
    cases hbuf
  | line =>
    intro hbuf
    rw [show (t.apply c .line).buf = { t.mark with endIdx := t.count }.finish.buf from rfl,
      finish_buf] at hbuf
    cases hbuf
  | opens mode => exact fun _ => rfl
  | adds mode => exact fun _ => rfl
  | passes mode => exact fun _ => rfl

theorem marked_run (h : t.Marked) (text : List UInt8) : (t.run sep text).Marked := by
  induction text generalizing t with
  | nil => exact h
  | cons c text ih => exact ih (marked_apply t c _)

theorem parse_finish (h : t.Marked) : t.finish.parse = t.parse.finishArg := by
  unfold finish ArgParse.finishArg
  rw [show t.parse.buf = t.buf from rfl]
  cases hbuf : t.buf with
  | none => rfl
  | some arg =>
    obtain ⟨s, hs⟩ := Option.isSome_iff_exists.mp (h (by rw [hbuf]; rfl))
    simp [parse, hs, Found.pos]

theorem parse_mark (t : Track) : t.mark.parse = t.parse.markStart t.count := by
  unfold mark ArgParse.markStart
  cases hs : t.startIdx with
  | none => simp [parse, hs]
  | some s =>
    have hnot : ¬ (s : Int) < 0 := by omega
    simp [parse, hs, hnot]

theorem parse_endLine (h : t.Marked) : t.endLine.parse = t.parse.endLine := by
  unfold ArgParse.endLine
  rw [← parse_finish h]
  simp [endLine, parse]

end Track

/-! ## Runs of bytes -/

namespace Track

/-- Bytes that all join the argument. -/
def adding (t : Track) (mode : Mode) (piece : List UInt8) : Track :=
  { t.mark with
    mode
    count := t.count + piece.length
    buf := some (t.buf.getD [] ++ piece)
    endIdx := t.count + piece.length }

variable {t : Track} {sep c : UInt8}

theorem run_adding {mode : Mode} {piece : List UInt8} (hfirst : act sep t.mode c = .adds mode)
    (hrest : ∀ d ∈ piece, act sep mode d = .adds mode) :
    t.run sep (c :: piece) = t.adding mode (c :: piece) := by
  have hfeed : t.feed sep c = t.adding mode [c] := by
    rw [feed, hfirst]
    rfl
  induction piece generalizing t c with
  | nil => exact hfeed
  | cons d piece ih =>
    rw [run_cons, hfeed]
    have hd : act sep (t.adding mode [c]).mode d = .adds mode := hrest d List.mem_cons_self
    rw [ih hd (fun e he => hrest e (List.mem_cons_of_mem _ he)) (by rw [feed, hd]; rfl)]
    simp [adding, mark, Nat.add_assoc, Nat.add_comm]

/-- White space where no argument is pending. -/
theorem run_spaces (hmode : t.mode = .start) (hbuf : t.buf = none) {piece : List UInt8}
    (h : ∀ c ∈ piece, isSpace c = true) :
    t.run sep piece = { t with count := t.count + piece.length } := by
  induction piece generalizing t with
  | nil => rfl
  | cons c piece ih =>
    have hact : act sep t.mode c = .space := by
      rw [hmode]
      exact if_pos (h c List.mem_cons_self)
    have hfeed : t.feed sep c = { t with count := t.count + 1 } := by
      rw [feed, hact]
      simp [apply, finish, hbuf, ← hmode]
    rw [run_cons, hfeed, @ih { t with count := t.count + 1 } hmode hbuf
      fun d hd => h d (List.mem_cons_of_mem _ hd), List.length_cons, Nat.add_assoc,
      Nat.add_comm 1]

end Track

/-! ## Stop characters -/

section Stops

variable {sep c : UInt8}

theorem isUnquoteTok_eq_true_iff : isUnquoteTok sep c = true ↔
    isBreak c = true ∨ c = singleQuote ∨ c = doubleQuote ∨ c = backslash ∨ (sep ≠ 0 ∧ c = sep) := by
  simp [isUnquoteTok, isBreak, or_assoc]

theorem plainAct_of_not_tok (h : isUnquoteTok sep c = false) : plainAct sep c = .adds .plain := by
  have hnot := mt isUnquoteTok_eq_true_iff.mpr (ne_true_of_eq_false h)
  simp only [not_or] at hnot
  obtain ⟨-, hsingle, hdouble, hbackslash, hsep⟩ := hnot
  rw [plainAct, if_neg hsingle, if_neg hdouble, if_neg hbackslash, if_neg hsep]

theorem act_plain_of_not_tok (h : isUnquoteTok sep c = false) : act sep .plain c = .adds .plain := by
  have hnot := mt isUnquoteTok_eq_true_iff.mpr (ne_true_of_eq_false h)
  have hbreak : ¬ (isBreak c = true ∧ ¬ (sep ≠ 0 ∧ c = sep)) := fun hc => hnot (Or.inl hc.1)
  rw [act, if_neg hbreak, plainAct_of_not_tok h]

theorem act_start (h : isSpace c = false) : act sep .start c = plainAct sep c := by
  rw [act, if_neg (ne_true_of_eq_false h)]

theorem act_plain_of_break (h : isBreak c = true) (hsep : ¬ (sep ≠ 0 ∧ c = sep)) :
    act sep .plain c = .space := if_pos ⟨h, hsep⟩

theorem act_plain_of_not_break (h : ¬ (isBreak c = true ∧ ¬ (sep ≠ 0 ∧ c = sep))) :
    act sep .plain c = plainAct sep c := if_neg h

/-- White space behind a chunk is white space. -/
theorem isSpace_of_act (h : act sep .plain c = .space) : isSpace c = true := by
  by_cases hbreak : isBreak c = true ∧ ¬ (sep ≠ 0 ∧ c = sep)
  · exact isSpace_of_isBreak hbreak.1
  · rw [act_plain_of_not_break hbreak] at h
    unfold plainAct at h
    split at h
    · cases h
    · split at h
      · cases h
      · split at h
        · cases h
        · split at h
          · cases h
          · cases h

end Stops

/-! ## The loop refines the automaton -/

namespace Track

/-- A turn that begins within a chunk begins at the white space after it, or at a zero byte. -/
def Ready (sep : UInt8) (t : Track) (str : List UInt8) : Prop :=
  t.mode = .plain → ∀ c ∈ str.head?, c = 0 ∨ act sep .plain c = .space

/-- The text a turn takes makes the same of the automaton. -/
def Refines (sep : UInt8) (t : Track) (str : List UInt8) (after : ArgParse × List UInt8) : Prop :=
  ∃ eaten, eaten ++ after.2 = str ∧ (0 : UInt8) ∉ eaten ∧ after.1 = (t.run sep eaten).parse ∧
    (t.run sep eaten).Ready sep after.2

/-- The notes of a turn that has taken a chunk: an argument has begun, and ends here so far. -/
def noted (t : Track) : Track :=
  { t.mark with endIdx := t.count }

section Chunks

variable {t : Track} {sep c : UInt8} {mode : Mode} {piece : List UInt8}

theorem run_count (t : Track) (text : List UInt8) :
    (t.run sep text).count = t.count + text.length := by
  induction text generalizing t with
  | nil => rfl
  | cons c text ih =>
    have hcount : (t.feed sep c).count = t.count + 1 := by
      unfold feed
      cases act sep t.mode c <;> rfl
    rw [run_cons, ih, hcount, List.length_cons]
    omega

theorem Ready.of_mode (h : t.mode ≠ .plain) (str : List UInt8) : t.Ready sep str :=
  fun hplain => absurd hplain h

theorem zero_notMem_chunk (stop : UInt8 → Bool) (str : List UInt8) :
    (0 : UInt8) ∉ chunk stop str := by
  intro hmem
  have hkept := List.mem_takeWhile_imp hmem
  simp at hkept

theorem zero_notMem_concat (hpiece : (0 : UInt8) ∉ piece) (hc : c ≠ 0) :
    (0 : UInt8) ∉ piece ++ [c] := by
  intro hmem
  rcases List.mem_append.mp hmem with hmem | hmem
  · exact hpiece hmem
  · exact hc (List.mem_singleton.mp hmem).symm

/-- The bytes of the piece join the argument, from the mode of the notes on. -/
def Joins (sep : UInt8) (t : Track) (mode : Mode) (piece : List UInt8) : Prop :=
  (∀ c ∈ piece.head?, act sep t.mode c = .adds mode) ∧ ∀ c ∈ piece, act sep mode c = .adds mode

theorem run_joins (h : t.Joins sep mode piece) (hne : piece ≠ []) :
    t.run sep piece = t.adding mode piece := by
  cases piece with
  | nil => exact absurd rfl hne
  | cons c piece =>
    exact run_adding (h.1 c rfl) fun d hd => h.2 d (List.mem_cons_of_mem _ hd)

theorem noted_run (h : t.Joins sep mode piece) (hne : piece ≠ []) :
    (t.run sep piece).noted = t.run sep piece := by
  rw [run_joins h hne]
  rfl

theorem parse_chunk (h : t.Joins sep mode piece) (hstate : mode.state = t.mode.state) :
    { t.parse.markStart t.count with
      buf := ArgParse.addStr (t.parse.markStart t.count).buf piece
      endIdx := ((t.run sep piece).count : Int) } = (t.run sep piece).noted.parse := by
  rw [← parse_mark]
  cases piece with
  | nil => rfl
  | cons c piece =>
    rw [run_joins h (List.cons_ne_nil _ _)]
    simp [parse, noted, adding, mark, ArgParse.addStr, hstate]

end Chunks

section Turns

variable {t : Track} {sep c : UInt8} {rest : List UInt8} {total : ℕ}

theorem refines_spaceTurn (ht : t.Marked) (hmode : t.mode.state = .unquoted)
    (hact : act sep t.mode c = .space) (hspace : isSpace c = true) :
    t.Refines sep (c :: rest) (t.parse.finishArg, (c :: rest).dropWhile isSpace) := by
  have hfirst : t.feed sep c = { t.finish with mode := .start, count := t.count + 1 } := by
    rw [feed, hact]
    rfl
  have hrun : t.run sep (c :: rest.takeWhile isSpace) =
      { t.finish with mode := .start, count := t.count + 1 + (rest.takeWhile isSpace).length } := by
    rw [run_cons, hfirst]
    exact @run_spaces { t.finish with mode := .start, count := t.count + 1 } sep rfl (finish_buf t) _
      fun d hd => List.mem_takeWhile_imp hd
  refine ⟨c :: rest.takeWhile isSpace, ?_, ?_, ?_, ?_⟩
  · rw [List.dropWhile_cons_of_pos hspace, List.cons_append, List.takeWhile_append_dropWhile]
  · intro hmem
    have hzero : isSpace 0 = true := by
      rcases List.mem_cons.mp hmem with heq | hmem
      · rw [heq]
        exact hspace
      · exact List.mem_takeWhile_imp hmem
    exact absurd hzero (by decide)
  · rw [hrun, ← parse_finish ht]
    have hstate : t.finish.mode = t.mode := by
      unfold finish
      split <;> rfl
    unfold parse
    dsimp only
    rw [hstate, hmode]
    rfl
  · rw [hrun]
    exact Ready.of_mode (fun h => by cases h) _

/-- A chunk and the quote or backslash behind it. -/
theorem refines_opens (mode : Mode) {str : List UInt8} {piece ds : List UInt8} {d : UInt8}
    (happend : piece ++ d :: ds = str) (hpiece : (0 : UInt8) ∉ piece) (hd : d ≠ 0)
    (hact : act sep (t.run sep piece).mode d = .opens mode) (hplain : mode ≠ .plain) :
    t.Refines sep str ((t.run sep piece).noted.parse.openWith mode.state, ds) := by
  have hrun : t.run sep (piece ++ [d]) = (t.run sep piece).apply d (.opens mode) := by
    rw [run_concat, feed, hact]
  refine ⟨piece ++ [d], ?_, ?_, ?_, ?_⟩
  · rw [List.append_assoc, List.singleton_append, happend]
  · exact zero_notMem_concat hpiece hd
  · rw [hrun]
    rfl
  · rw [hrun]
    exact Ready.of_mode hplain ds

theorem refines_chunk {str piece next : List UInt8} {mode : Mode} (h : t.Joins sep mode piece)
    (hne : piece ≠ []) (happend : piece ++ next = str) (hpiece : (0 : UInt8) ∉ piece)
    (hready : (t.run sep piece).Ready sep next) :
    t.Refines sep str ((t.run sep piece).noted.parse, next) := by
  refine ⟨piece, happend, hpiece, ?_, hready⟩
  rw [noted_run h hne]

/-- The chunk of a turn that begins outside of quotes joins the argument. -/
theorem joins_plain (hmode : t.mode = .start) (hspace : isSpace c = false) :
    t.Joins sep .plain (chunk (isUnquoteTok sep) (c :: rest)) := by
  constructor
  · intro d hd
    have hmem : d ∈ chunk (isUnquoteTok sep) (c :: rest) := List.mem_of_mem_head? hd
    have heq : d = c := by
      have happend := chunk_append_afterChunk (isUnquoteTok sep) (c :: rest)
      cases hchunk : chunk (isUnquoteTok sep) (c :: rest) with
      | nil =>
        rw [hchunk] at hd
        cases hd
      | cons e piece =>
        rw [hchunk] at hd happend
        rw [← Option.some.inj hd]
        exact (List.cons.inj happend).1
    rw [hmode, heq, act_start hspace]
    apply plainAct_of_not_tok
    rw [← heq]
    exact mem_chunk hmem
  · intro d hd
    exact act_plain_of_not_tok (mem_chunk hd)

/-- A chunk and the separator behind it. -/
theorem refines_line {str : List UInt8} {piece ds : List UInt8} {d : UInt8}
    (happend : piece ++ d :: ds = str) (hpiece : (0 : UInt8) ∉ piece) (hd : d ≠ 0)
    (hact : act sep (t.run sep piece).mode d = .line)
    (hstate : (t.run sep piece).mode.state = .unquoted) :
    t.Refines sep str ((t.run sep piece).noted.parse.endLine, ds) := by
  have hrun : t.run sep (piece ++ [d]) = (t.run sep piece).apply d .line := by
    rw [run_concat, feed, hact]
  have hmarked : (t.run sep piece).noted.Marked := fun _ => rfl
  refine ⟨piece ++ [d], ?_, ?_, ?_, ?_⟩
  · rw [List.append_assoc, List.singleton_append, happend]
  · exact zero_notMem_concat hpiece hd
  · rw [hrun, ← parse_endLine hmarked]
    have hmode : (t.run sep piece).noted.endLine.mode = (t.run sep piece).mode := by
      unfold endLine finish
      dsimp only
      split <;> rfl
    unfold parse
    rw [hmode, hstate]
    rfl
  · rw [hrun]
    exact Ready.of_mode (fun h => by cases h) ds

/-- What the byte behind the chunk of a turn does: it is white space, and the chunk is not
empty, or it does what it does at the beginning of a turn. -/
theorem act_behind (hmode : t.mode = .start) (hspace : isSpace c = false) {d : UInt8}
    {ds : List UInt8} (hnext : afterChunk (isUnquoteTok sep) (c :: rest) = d :: ds) :
    (chunk (isUnquoteTok sep) (c :: rest) ≠ [] ∧ isBreak d = true ∧ ¬ (sep ≠ 0 ∧ d = sep)) ∨
      act sep (t.run sep (chunk (isUnquoteTok sep) (c :: rest))).mode d = plainAct sep d := by
  by_cases hnil : chunk (isUnquoteTok sep) (c :: rest) = []
  · right
    rw [hnil, run_nil, hmode]
    apply act_start
    rw [chunk_eq_nil hnil] at hnext
    rw [← (List.cons.inj hnext).1]
    exact hspace
  · by_cases hbreak : isBreak d = true ∧ ¬ (sep ≠ 0 ∧ d = sep)
    · exact Or.inl ⟨hnil, hbreak⟩
    · right
      rw [run_joins (joins_plain hmode hspace) hnil]
      exact act_plain_of_not_break hbreak

theorem refines_unquotedTurn (hmode : t.mode = .start) (hc : c ≠ 0)
    (hspace : isSpace c = false) (hcount : t.count + (c :: rest).length = total) :
    t.Refines sep (c :: rest) (t.parse.unquotedTurn sep total (c :: rest)) := by
  have hjoins := @joins_plain t sep c rest hmode hspace
  have happend := chunk_append_afterChunk (isUnquoteTok sep) (c :: rest)
  have hpiece := zero_notMem_chunk (isUnquoteTok sep) (c :: rest)
  have hstart : ((total : Int) - (c :: rest).length) = t.count := by omega
  have hend : ((total : Int) - (afterChunk (isUnquoteTok sep) (c :: rest)).length) =
      ((t.run sep (chunk (isUnquoteTok sep) (c :: rest))).count : Int) := by
    have hlength := length_chunk_add (isUnquoteTok sep) (c :: rest)
    rw [run_count]
    omega
  have hempty : chunk (isUnquoteTok sep) (c :: rest) = [] →
      afterChunk (isUnquoteTok sep) (c :: rest) = c :: rest := chunk_eq_nil
  unfold ArgParse.unquotedTurn
  dsimp only
  rw [hstart, hend, parse_chunk hjoins (by rw [hmode]; rfl)]
  generalize hpieceEq : chunk (isUnquoteTok sep) (c :: rest) = piece at *
  cases hnext : afterChunk (isUnquoteTok sep) (c :: rest) with
  | nil =>
    rw [hnext] at happend hempty
    apply refines_chunk hjoins (fun hnil => nomatch hempty hnil) happend hpiece
    exact fun _ d hd => nomatch hd
  | cons d ds =>
    rw [hnext] at happend hempty
    have hstop := stop_of_afterChunk hnext
    have hact := @act_behind t sep c rest hmode hspace d ds hnext
    have hstate : (t.run sep piece).mode.state = .unquoted := by
      by_cases hnil : piece = []
      · rw [hnil, run_nil, hmode]
        rfl
      · rw [run_joins hjoins hnil]
        rfl
    rw [hpieceEq] at hact
    dsimp only
    split_ifs with h0 h1 h2 h3 h4
    · -- The text ends here for the source.
      apply refines_chunk hjoins _ happend hpiece
      · exact fun _ e he => Or.inl (Option.some.inj he ▸ h0)
      · intro hnil
        exact hc ((List.cons.inj (hempty hnil)).1 ▸ h0)
    · apply refines_opens .singleQuote happend hpiece h0 _ (by decide)
      rcases hact with ⟨-, hbreak, -⟩ | hact
      · rw [h1] at hbreak
        exact absurd hbreak (by decide)
      · rw [hact, plainAct, if_pos h1]
    · apply refines_opens .doubleQuote happend hpiece h0 _ (by decide)
      rcases hact with ⟨-, hbreak, -⟩ | hact
      · rw [h2] at hbreak
        exact absurd hbreak (by decide)
      · rw [hact, plainAct, if_neg h1, if_pos h2]
    · apply refines_opens .backslash happend hpiece h0 _ (by decide)
      rcases hact with ⟨-, hbreak, -⟩ | hact
      · rw [h3] at hbreak
        exact absurd hbreak (by decide)
      · rw [hact, plainAct, if_neg h1, if_neg h2, if_pos h3]
    · apply refines_line happend hpiece h0 _ hstate
      rcases hact with ⟨-, -, hsep⟩ | hact
      · exact absurd h4 hsep
      · rw [hact, plainAct, if_neg h1, if_neg h2, if_neg h3, if_pos h4]
    · -- White space ends the chunk, which is not empty.
      have hbreak : isBreak d = true := by
        rcases isUnquoteTok_eq_true_iff.mp (hstop.resolve_right h0) with h | h | h | h | h
        · exact h
        · exact absurd h h1
        · exact absurd h h2
        · exact absurd h h3
        · exact absurd h h4
      have hne : piece ≠ [] := by
        intro hnil
        rw [(List.cons.inj (hempty hnil)).1] at hbreak
        rw [isSpace_of_isBreak hbreak] at hspace
        cases hspace
      apply refines_chunk hjoins hne happend hpiece
      exact fun _ e he => Or.inr (Option.some.inj he ▸ act_plain_of_break hbreak h4)

/-- A chunk and the byte behind it that is part of the argument. -/
theorem refines_passes (mode : Mode) {str : List UInt8} {piece ds : List UInt8} {d : UInt8}
    (happend : piece ++ d :: ds = str) (hpiece : (0 : UInt8) ∉ piece) (hd : d ≠ 0)
    (hact : act sep (t.run sep piece).mode d = .passes mode) (hplain : mode ≠ .plain) :
    t.Refines sep str
      ({ (t.run sep piece).noted.parse with
        state := mode.state
        endIdx := (((t.run sep piece).count + 1 : ℕ) : Int) }, ds) := by
  have hrun : t.run sep (piece ++ [d]) = (t.run sep piece).apply d (.passes mode) := by
    rw [run_concat, feed, hact]
  refine ⟨piece ++ [d], ?_, ?_, ?_, ?_⟩
  · rw [List.append_assoc, List.singleton_append, happend]
  · exact zero_notMem_concat hpiece hd
  · rw [hrun]
    rfl
  · rw [hrun]
    exact Ready.of_mode hplain ds

/-- After a backslash; an escaped newline leaves nothing in the argument. -/
theorem refines_backslashTurn (mode : Mode) (hc : c ≠ 0) (hplain : mode ≠ .plain)
    (hact : act sep t.mode c = if c = newline then .passes mode else .adds mode)
    (hcount : t.count + (rest.length + 1) = total) :
    t.Refines sep (c :: rest) (t.parse.backslashTurn total mode.state c rest) := by
  have hstart : ((total : Int) - (rest.length + 1)) = t.count := by omega
  have hend : ((total : Int) - rest.length) = ((t.count + 1 : ℕ) : Int) := by omega
  refine ⟨[c], rfl, ?_, ?_, ?_⟩
  · intro hmem
    exact hc (List.mem_singleton.mp hmem).symm
  · unfold ArgParse.backslashTurn
    dsimp only
    rw [hstart, hend, ← parse_mark, run_cons, run_nil, feed, hact]
    by_cases hnewline : c = newline
    · rw [if_pos hnewline, if_pos hnewline]
      rfl
    · rw [if_neg hnewline, if_neg hnewline]
      rfl
  · rw [run_cons, run_nil, feed, hact]
    apply Ready.of_mode
    split <;> exact hplain

/-- A chunk within quotes that the text or a zero byte ends. -/
theorem refines_quotedEnd {str piece next : List UInt8} {mode : Mode} (h : t.Joins sep mode piece)
    (hstate : mode.state = t.mode.state) (hne : piece ≠ []) (happend : piece ++ next = str)
    (hpiece : (0 : UInt8) ∉ piece) (hplain : mode ≠ .plain) (hcount : t.count + str.length = total) :
    t.Refines sep str
      ({ t.parse.markStart t.count with
        buf := ArgParse.addStr (t.parse.markStart t.count).buf piece
        endIdx := (total : Int) - next.length }, next) := by
  have hend : ((total : Int) - next.length) = ((t.run sep piece).count : Int) := by
    have hlength := congrArg List.length happend
    rw [List.length_append] at hlength
    rw [run_count]
    omega
  rw [hend, parse_chunk h hstate]
  apply refines_chunk h hne happend hpiece
  rw [run_joins h hne]
  exact Ready.of_mode hplain next

/-- A chunk within quotes and the quote or backslash that ends it. -/
theorem refines_quotedPasses (after : Mode) {str piece ds : List UInt8} {d : UInt8} {mode : Mode}
    (h : t.Joins sep mode piece) (hmode : t.mode = mode) (happend : piece ++ d :: ds = str)
    (hpiece : (0 : UInt8) ∉ piece) (hd : d ≠ 0) (hact : act sep mode d = .passes after)
    (hplain : after ≠ .plain) (hcount : t.count + str.length = total) :
    t.Refines sep str
      ({ t.parse.markStart t.count with
        buf := ArgParse.addStr (t.parse.markStart t.count).buf piece
        state := after.state
        endIdx := (total : Int) - ds.length }, ds) := by
  have hend : ((total : Int) - ds.length) = (((t.run sep piece).count + 1 : ℕ) : Int) := by
    have hlength := congrArg List.length happend
    rw [List.length_append, List.length_cons] at hlength
    rw [run_count]
    omega
  have hrunMode : (t.run sep piece).mode = mode := by
    by_cases hnil : piece = []
    · rw [hnil]
      exact hmode
    · rw [run_joins h hnil]
      rfl
  have hpasses := @refines_passes t sep after str piece ds d happend hpiece hd
    (by rw [hrunMode, hact]) hplain
  rw [← parse_chunk h (congrArg Mode.state hmode.symm)] at hpasses
  rw [hend]
  exact hpasses

theorem refines_singleQuoteTurn (hmode : t.mode = .singleQuote) (hc : c ≠ 0)
    (hcount : t.count + (c :: rest).length = total) :
    t.Refines sep (c :: rest) (t.parse.singleQuoteTurn total (c :: rest)) := by
  have happend := chunk_append_afterChunk (· == singleQuote) (c :: rest)
  have hpiece := zero_notMem_chunk (· == singleQuote) (c :: rest)
  have hempty : chunk (· == singleQuote) (c :: rest) = [] →
      afterChunk (· == singleQuote) (c :: rest) = c :: rest := chunk_eq_nil
  have hadds : ∀ d ∈ chunk (· == singleQuote) (c :: rest),
      act sep .singleQuote d = .adds .singleQuote := by
    intro d hd
    apply if_neg
    simpa using mem_chunk hd
  have hjoins : t.Joins sep .singleQuote (chunk (· == singleQuote) (c :: rest)) :=
    ⟨fun d hd => hmode ▸ hadds d (List.mem_of_mem_head? hd), hadds⟩
  have hstate : Mode.singleQuote.state = t.mode.state := by rw [hmode]
  have hstart : ((total : Int) - (c :: rest).length) = t.count := by omega
  unfold ArgParse.singleQuoteTurn
  dsimp only
  rw [hstart]
  cases hnext : afterChunk (· == singleQuote) (c :: rest) with
  | nil =>
    rw [hnext] at happend hempty
    have hend := refines_quotedEnd hjoins hstate (fun hnil => nomatch hempty hnil) happend hpiece
      (by decide) hcount
    rw [List.length_nil, Int.natCast_zero, Int.sub_zero] at hend
    exact hend
  | cons d ds =>
    rw [hnext] at happend hempty
    dsimp only
    split_ifs with hd
    · exact refines_quotedPasses .start hjoins hmode happend hpiece (by rw [hd]; decide)
        (if_pos hd) (by decide) hcount
    · have hzero : d = 0 := (stop_of_afterChunk hnext).resolve_left fun h => hd (eq_of_beq h)
      exact refines_quotedEnd hjoins hstate
        (fun hnil => hc ((List.cons.inj (hempty hnil)).1 ▸ hzero)) happend hpiece (by decide) hcount

theorem refines_doubleQuoteTurn (hmode : t.mode = .doubleQuote) (hc : c ≠ 0)
    (hcount : t.count + (c :: rest).length = total) :
    t.Refines sep (c :: rest) (t.parse.doubleQuoteTurn total (c :: rest)) := by
  have hempty := @chunk_eq_nil (fun c => c == doubleQuote || c == backslash) c rest
  have hpiece := zero_notMem_chunk (fun c => c == doubleQuote || c == backslash) (c :: rest)
  have happend := chunk_append_afterChunk (fun c => c == doubleQuote || c == backslash) (c :: rest)
  have hadds : ∀ d ∈ chunk (fun c => c == doubleQuote || c == backslash) (c :: rest),
      act sep .doubleQuote d = .adds .doubleQuote := by
    intro d hd
    have hnot := mem_chunk hd
    simp only [Bool.or_eq_false_iff, beq_eq_false_iff_ne] at hnot
    rw [act, if_neg hnot.1, if_neg hnot.2]
  have hjoins : t.Joins sep .doubleQuote _ :=
    ⟨fun d hd => hmode ▸ hadds d (List.mem_of_mem_head? hd), hadds⟩
  have hstate : Mode.doubleQuote.state = t.mode.state := by rw [hmode]
  have hstart : ((total : Int) - (c :: rest).length) = t.count := by omega
  unfold ArgParse.doubleQuoteTurn
  dsimp only
  rw [hstart]
  cases hnext : afterChunk (fun c => c == doubleQuote || c == backslash) (c :: rest) with
  | nil =>
    rw [hnext] at happend hempty
    have hend := refines_quotedEnd hjoins hstate (fun hnil => nomatch hempty hnil) happend hpiece
      (by decide) hcount
    rw [List.length_nil, Int.natCast_zero, Int.sub_zero] at hend
    exact hend
  | cons d ds =>
    rw [hnext] at happend hempty
    dsimp only
    split_ifs with h1 h2
    · exact refines_quotedPasses .start hjoins hmode happend hpiece (by rw [h1]; decide)
        (if_pos h1) (by decide) hcount
    · exact refines_quotedPasses .doubleQuoteBackslash hjoins hmode happend hpiece
        (by rw [h2]; decide) (by rw [act, if_neg h1, if_pos h2]) (by decide) hcount
    · have hzero : d = 0 := by
        apply (stop_of_afterChunk hnext).resolve_left
        simp [h1, h2]
      exact refines_quotedEnd hjoins hstate
        (fun hnil => hc ((List.cons.inj (hempty hnil)).1 ▸ hzero)) happend hpiece (by decide) hcount

/-- One turn of the loop refines the automaton. -/
theorem refines_turn (ht : t.Marked) (hready : t.Ready sep (c :: rest)) (hc : c ≠ 0)
    (hcount : t.count + (c :: rest).length = total) :
    t.Refines sep (c :: rest) (t.parse.turn sep total c rest) := by
  unfold ArgParse.turn
  rw [show t.parse.state = t.mode.state from rfl]
  cases hmode : t.mode with
  | start =>
    dsimp only [Mode.state]
    split
    case isTrue hspace =>
      apply refines_spaceTurn ht (by rw [hmode]; rfl) _ hspace
      rw [hmode]
      exact if_pos hspace
    case isFalse hspace => exact refines_unquotedTurn hmode hc (by simpa using hspace) hcount
  | plain =>
    have hact : act sep .plain c = .space := (hready hmode c rfl).resolve_left hc
    dsimp only [Mode.state]
    rw [if_pos (isSpace_of_act hact)]
    exact refines_spaceTurn ht (by rw [hmode]; rfl) (hmode ▸ hact) (isSpace_of_act hact)
  | backslash =>
    exact refines_backslashTurn .start hc (by decide) (by rw [hmode]; rfl) hcount
  | doubleQuoteBackslash =>
    exact refines_backslashTurn .doubleQuote hc (by decide) (by rw [hmode]; rfl) hcount
  | singleQuote => exact refines_singleQuoteTurn hmode hc hcount
  | doubleQuote => exact refines_doubleQuoteTurn hmode hc hcount

end Turns

/-- The part of a text that the parser reads: a zero byte ends it. -/
def body (str : List UInt8) : List UInt8 := str.takeWhile (· != 0)

theorem body_append {eaten next : List UInt8} (h : (0 : UInt8) ∉ eaten) :
    body (eaten ++ next) = eaten ++ body next := by
  apply List.takeWhile_append_of_pos
  intro c hc
  exact bne_iff_ne.mpr fun hzero => h (hzero ▸ hc)

/-- The loop computes what the automaton does. -/
theorem loop_parse (total : ℕ) (sep : UInt8) (str : List UInt8) (t : Track) (ht : t.Marked)
    (hready : t.Ready sep str) (hcount : t.count + str.length = total) :
    t.parse.loop sep total str = (t.run sep (body str)).parse := by
  induction hn : str.length using Nat.strong_induction_on generalizing str t with
  | _ n ih =>
    cases str with
    | nil =>
      rw [ArgParse.loop]
      rfl
    | cons c rest =>
      rw [ArgParse.loop]
      split
      case isTrue hc =>
        rw [hc]
        rfl
      case isFalse hc =>
        obtain ⟨eaten, happend, hzero, hparse, hready'⟩ := refines_turn ht hready hc hcount
        have hlt : (t.parse.turn sep total c rest).2.length < n := hn ▸ ArgParse.length_turn_lt hc
        have hcount' : (t.run sep eaten).count + (t.parse.turn sep total c rest).2.length = total := by
          have hlength := congrArg List.length happend
          rw [List.length_append] at hlength
          rw [run_count]
          omega
        rw [hparse, ih _ hlt _ (t.run sep eaten) (marked_run ht eaten) hready' hcount' rfl,
          ← run_append, ← body_append hzero, happend]

/-- What the parser returns, in terms of the automaton. -/
theorem parseArgs_eq_run (sep : UInt8) (str : List UInt8) :
    parseArgs sep str =
      { args :=
          if sep = 0 then .flat ((empty.run sep (body str)).finish.found.map Found.arg)
          else .lines (((empty.run sep (body str)).finish.lines ++
            [(empty.run sep (body str)).finish.found]).map (List.map Found.arg))
        pos := ((empty.run sep (body str)).finish.lines ++
            [(empty.run sep (body str)).finish.found]).map (List.map Found.pos)
        missing := (empty.run sep (body str)).mode.state.missing } := by
  have hspaces : empty.run sep (str.takeWhile isSpace) =
      { empty with count := (str.takeWhile isSpace).length } := by
    rw [run_spaces rfl rfl fun c hc => List.mem_takeWhile_imp hc]
    rw [show empty.count = 0 from rfl, Nat.zero_add]
  have hzero : (0 : UInt8) ∉ str.takeWhile isSpace := by
    intro hmem
    exact absurd (List.mem_takeWhile_imp hmem) (by decide)
  have hloop : ArgParse.start.loop sep str.length (str.dropWhile isSpace) =
      (empty.run sep (body str)).parse := by
    have hcount : (empty.run sep (str.takeWhile isSpace)).count + (str.dropWhile isSpace).length =
        str.length := by
      rw [run_count, show empty.count = 0 from rfl, Nat.zero_add, ← List.length_append,
        List.takeWhile_append_dropWhile]
    have hready : (empty.run sep (str.takeWhile isSpace)).Ready sep (str.dropWhile isSpace) := by
      rw [hspaces]
      exact Ready.of_mode (fun h => by cases h) _
    have hparse : ArgParse.start = (empty.run sep (str.takeWhile isSpace)).parse := by
      rw [hspaces]
      rfl
    rw [hparse, loop_parse _ _ _ _ (marked_run marked_empty _) hready hcount, ← run_append,
      ← body_append hzero, List.takeWhile_append_dropWhile]
  have hfinish : (empty.run sep (body str)).parse.finishArg =
      (empty.run sep (body str)).finish.parse :=
    (parse_finish (marked_run marked_empty _)).symm
  unfold parseArgs
  dsimp only
  rw [hloop, hfinish]
  simp [parse]

end Track

end OpenWrt.Uline
