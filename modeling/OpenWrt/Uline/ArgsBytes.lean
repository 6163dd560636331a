/-
# The argument parser byte by byte

The parser takes a whole chunk of plain characters in one turn of its loop. What it
computes is described here by an automaton that takes one byte at a time, with one
mode more: within a chunk a vertical tab or a form feed is an ordinary character, at
its beginning it is white space. The loop of the source refines the automaton.
-/

import OpenWrt.Uline.Args
import Mathlib.Data.List.TakeWhile

namespace OpenWrt.Uline

/-! ## The automaton -/

/-- The modes: `start` and `plain` are the state `UNQUOTED` before and within a chunk. -/
inductive Mode
  | start | plain | backslash | singleQuote | doubleQuote | doubleQuoteBackslash
  deriving DecidableEq

def Mode.state : Mode → ParseState
  | .start => .unquoted
  | .plain => .unquoted
  | .backslash => .backslash
  | .singleQuote => .singleQuote
  | .doubleQuote => .doubleQuote
  | .doubleQuoteBackslash => .doubleQuoteBackslash

/-- The mode, the pending argument and the finished ones. -/
structure Scan where
  mode : Mode
  buf : Option (List UInt8)
  list : List (List UInt8)

/-- The white space that ends a chunk. -/
def isBreak (c : UInt8) : Bool :=
  [space, tab, carriageReturn, newline].contains c

namespace Scan

def go (s : Scan) (mode : Mode) : Scan :=
  { s with mode := mode }

def add (s : Scan) (mode : Mode) (c : UInt8) : Scan :=
  { s with mode := mode, buf := some (s.buf.getD [] ++ [c]) }

def openWith (s : Scan) (mode : Mode) : Scan :=
  { s with mode := mode, buf := some (s.buf.getD []) }

def finish (s : Scan) : Scan where
  mode := .start
  buf := none
  list := s.list ++ s.buf.toList

/-- A byte outside of quotes that is not white space. -/
def feedPlain (s : Scan) (c : UInt8) : Scan :=
  if c = singleQuote then s.openWith .singleQuote
  else if c = doubleQuote then s.openWith .doubleQuote
  else if c = backslash then s.openWith .backslash
  else s.add .plain c

def feed (s : Scan) (c : UInt8) : Scan :=
  match s.mode with
  | .start => if isSpace c then s.finish else s.feedPlain c
  | .plain => if isBreak c then s.finish else s.feedPlain c
  | .backslash => if c = newline then s.go .start else s.add .start c
  | .doubleQuoteBackslash => if c = newline then s.go .doubleQuote else s.add .doubleQuote c
  | .singleQuote => if c = singleQuote then s.go .start else s.add .singleQuote c
  | .doubleQuote =>
    if c = doubleQuote then s.go .start
    else if c = backslash then s.go .doubleQuoteBackslash
    else s.add .doubleQuote c

def run (s : Scan) (text : List UInt8) : Scan :=
  text.foldl feed s

def empty : Scan where
  mode := .start
  buf := none
  list := []

@[simp] theorem run_nil (s : Scan) : s.run [] = s := rfl

@[simp] theorem run_cons (s : Scan) (c : UInt8) (text : List UInt8) :
    s.run (c :: text) = (s.feed c).run text := rfl

theorem run_append (s : Scan) (one two : List UInt8) :
    s.run (one ++ two) = (s.run one).run two :=
  List.foldl_append

end Scan

/-! ## Characters -/

theorem isSpace_of_isBreak {c : UInt8} (h : isBreak c = true) : isSpace c = true := by
  simp only [isBreak, List.contains_cons, List.contains_nil, Bool.or_eq_true, beq_iff_eq,
    Bool.false_eq_true, or_false] at h
  rcases h with rfl | rfl | rfl | rfl <;> decide

theorem isUnquoteTok_iff (c : UInt8) : isUnquoteTok 0 c = true ↔
    isBreak c = true ∨ c = singleQuote ∨ c = doubleQuote ∨ c = backslash := by
  simp [isUnquoteTok, isBreak, or_assoc]

theorem mem_chunk {stop : UInt8 → Bool} {str : List UInt8} {c : UInt8}
    (h : c ∈ chunk stop str) : stop c = false := by
  have hkept := List.mem_takeWhile_imp h
  simp only [Bool.not_eq_true', Bool.or_eq_false_iff] at hkept
  exact hkept.1

theorem chunk_eq_nil {stop : UInt8 → Bool} {c : UInt8} {rest : List UInt8}
    (h : chunk stop (c :: rest) = []) : afterChunk stop (c :: rest) = c :: rest := by
  have happend := chunk_append_afterChunk stop (c :: rest)
  rwa [h, List.nil_append] at happend

theorem isStop_of_afterChunk {stop : UInt8 → Bool} {str : List UInt8} {c : UInt8}
    {rest : List UInt8} (hzero : (0 : UInt8) ∉ str) (h : afterChunk stop str = c :: rest) :
    stop c = true := by
  rcases stop_of_afterChunk h with hstop | rfl
  · exact hstop
  · exfalso
    apply hzero
    rw [← chunk_append_afterChunk stop str, h]
    simp

namespace ArgParse

theorem addStr_cons (buf : Option (List UInt8)) (c : UInt8) (piece : List UInt8) :
    addStr (some (buf.getD [] ++ [c])) piece = addStr buf (c :: piece) := by
  by_cases h : piece = [] <;> simp [addStr, h]

variable (p : ArgParse)

theorem finishArg_state : p.finishArg.state = p.state := by
  unfold finishArg
  split <;> rfl

theorem finishArg_buf : p.finishArg.buf = none := by
  unfold finishArg
  split
  · assumption
  · rfl

theorem finishArg_list : p.finishArg.list = p.list ++ p.buf.toList := by
  unfold finishArg
  split
  case h_1 h => simp [h]
  case h_2 arg h => simp [h]

@[simp] theorem markStart_state (idx : Int) : (p.markStart idx).state = p.state := by
  unfold markStart
  split <;> rfl

@[simp] theorem markStart_buf (idx : Int) : (p.markStart idx).buf = p.buf := by
  unfold markStart
  split <;> rfl

@[simp] theorem markStart_list (idx : Int) : (p.markStart idx).list = p.list := by
  unfold markStart
  split <;> rfl

end ArgParse

/-! ## A chunk in the automaton -/

open ArgParse

theorem run_adds {mode : Mode} {list : List (List UInt8)} :
    ∀ (piece : List UInt8) (buf : Option (List UInt8)),
      (∀ c ∈ piece, ∀ b, Scan.feed ⟨mode, b, list⟩ c = ⟨mode, some (b.getD [] ++ [c]), list⟩) →
      Scan.run ⟨mode, buf, list⟩ piece = ⟨mode, addStr buf piece, list⟩
  | [], _, _ => rfl
  | c :: piece, buf, hadds => by
      rw [Scan.run_cons, hadds c (List.mem_cons_self ..),
        run_adds piece _ fun d hd => hadds d (List.mem_cons_of_mem _ hd), addStr_cons]

variable {piece : List UInt8} (buf : Option (List UInt8))

theorem run_singleQuote (list : List (List UInt8)) (h : ∀ c ∈ piece, c ≠ singleQuote) :
    Scan.run ⟨.singleQuote, buf, list⟩ piece = ⟨.singleQuote, addStr buf piece, list⟩ :=
  run_adds piece buf fun c hc b => by simp [Scan.feed, Scan.add, h c hc]

theorem run_doubleQuote (list : List (List UInt8))
    (h : ∀ c ∈ piece, c ≠ doubleQuote ∧ c ≠ backslash) :
    Scan.run ⟨.doubleQuote, buf, list⟩ piece = ⟨.doubleQuote, addStr buf piece, list⟩ :=
  run_adds piece buf fun c hc b => by simp [Scan.feed, Scan.add, h c hc]

theorem feedPlain_of_not_stop {c : UInt8} (h : isUnquoteTok 0 c = false) (s : Scan) :
    s.feedPlain c = s.add .plain c := by
  have hnot : ¬ (isBreak c = true ∨ c = singleQuote ∨ c = doubleQuote ∨ c = backslash) := by
    rw [← isUnquoteTok_iff, h]
    exact Bool.false_ne_true
  unfold Scan.feedPlain
  rw [if_neg fun hc => hnot (.inr (.inl hc)), if_neg fun hc => hnot (.inr (.inr (.inl hc))),
    if_neg fun hc => hnot (.inr (.inr (.inr hc)))]

theorem isBreak_of_not_stop {c : UInt8} (h : isUnquoteTok 0 c = false) : isBreak c = false := by
  cases hbreak : isBreak c with
  | false => rfl
  | true => exact absurd ((isUnquoteTok_iff c).mpr (.inl hbreak)) (by simp [h])

theorem run_plain (list : List (List UInt8)) (h : ∀ c ∈ piece, isUnquoteTok 0 c = false) :
    Scan.run ⟨.plain, buf, list⟩ piece = ⟨.plain, addStr buf piece, list⟩ :=
  run_adds piece buf fun c hc b => by
    simp [Scan.feed, isBreak_of_not_stop (h c hc), feedPlain_of_not_stop (h c hc), Scan.add]

theorem run_start {c : UInt8} (list : List (List UInt8)) (hspace : isSpace c = false)
    (h : ∀ d ∈ c :: piece, isUnquoteTok 0 d = false) :
    Scan.run ⟨.start, buf, list⟩ (c :: piece) = ⟨.plain, addStr buf (c :: piece), list⟩ := by
  have hfirst : Scan.feed ⟨.start, buf, list⟩ c = ⟨.plain, some (buf.getD [] ++ [c]), list⟩ := by
    simp [Scan.feed, hspace, feedPlain_of_not_stop (h c (List.mem_cons_self ..)), Scan.add]
  rw [Scan.run_cons, hfirst, run_plain _ _ fun d hd => h d (List.mem_cons_of_mem _ hd),
    addStr_cons]

theorem run_space (list : List (List UInt8)) (h : ∀ c ∈ piece, isSpace c = true) :
    Scan.run ⟨.start, none, list⟩ piece = ⟨.start, none, list⟩ := by
  induction piece with
  | nil => rfl
  | cons c piece ih =>
    have hfirst : Scan.feed ⟨.start, none, list⟩ c = ⟨.start, none, list⟩ := by
      simp [Scan.feed, h c (List.mem_cons_self ..), Scan.finish]
    rw [Scan.run_cons, hfirst]
    exact ih fun d hd => h d (List.mem_cons_of_mem _ hd)

/-! ## The loop refines the automaton -/

/-- What the variables of the loop and the automaton have in common. -/
structure Shows (p : ArgParse) (s : Scan) : Prop where
  state : p.state = s.mode.state
  buf : p.buf = s.buf
  list : p.list = s.list

/-- A turn that begins within a chunk begins at the white space after it. -/
def Ready (s : Scan) (str : List UInt8) : Prop :=
  s.mode = .plain → ∀ c ∈ str.head?, isBreak c = true

/-- The text a turn takes makes the same of the automaton. -/
def Refines (s : Scan) (str : List UInt8) (after : ArgParse × List UInt8) : Prop :=
  ∃ eaten, eaten ++ after.2 = str ∧ Shows after.1 (s.run eaten) ∧ Ready (s.run eaten) after.2

section

variable {p : ArgParse} {s : Scan} {total : ℕ} {c : UInt8} {rest : List UInt8}

theorem refines_space (hp : Shows p s) (hmode : s.mode = .start ∨ s.mode = .plain)
    (hready : Ready s (c :: rest)) (hspace : isSpace c = true) :
    Refines s (c :: rest) (p.finishArg, (c :: rest).dropWhile isSpace) := by
  have hfirst : s.feed c = s.finish := by
    rcases hmode with hmode | hmode
    · simp [Scan.feed, hmode, hspace]
    · simp [Scan.feed, hmode, hready hmode c (by simp)]
  have hrun : s.run (c :: rest.takeWhile isSpace) = s.finish := by
    rw [Scan.run_cons, hfirst]
    exact run_space _ fun d hd => List.mem_takeWhile_imp hd
  refine ⟨c :: rest.takeWhile isSpace, ?_, ?_, ?_⟩
  · rw [List.dropWhile_cons_of_pos hspace, List.cons_append, List.takeWhile_append_dropWhile]
  · rw [hrun]
    refine ⟨?_, finishArg_buf p, ?_⟩
    · rw [finishArg_state, hp.state]
      rcases hmode with hmode | hmode <;> rw [hmode] <;> rfl
    · rw [finishArg_list, hp.list, hp.buf]
      rfl
  · rw [hrun]
    exact fun hplain => nomatch hplain

/-- The automaton on the chunk of a turn that begins outside of quotes. -/
theorem run_chunk (s : Scan) (hmode : s.mode = .start) (hspace : isSpace c = false) :
    s.run (chunk (isUnquoteTok 0) (c :: rest)) =
      ⟨if chunk (isUnquoteTok 0) (c :: rest) = [] then .start else .plain,
        addStr s.buf (chunk (isUnquoteTok 0) (c :: rest)), s.list⟩ := by
  obtain ⟨mode, buf, list⟩ := s
  subst hmode
  cases hchunk : chunk (isUnquoteTok 0) (c :: rest) with
  | nil => rfl
  | cons d piece =>
    have hhead : d = c := by
      have happend := chunk_append_afterChunk (isUnquoteTok 0) (c :: rest)
      rw [hchunk, List.cons_append] at happend
      exact (List.cons.inj happend).1
    subst hhead
    rw [if_neg (List.cons_ne_nil _ _)]
    exact run_start buf list hspace fun e he => mem_chunk (hchunk ▸ he)

theorem feed_open {d : UInt8} (hd : d = singleQuote ∨ d = doubleQuote ∨ d = backslash)
    (hmode : s.mode = .start ∨ s.mode = .plain) : s.feed d = s.feedPlain d := by
  rcases hmode with hmode | hmode <;> rcases hd with rfl | rfl | rfl <;>
    simp only [Scan.feed, hmode] <;> rfl

theorem refines_unquotedTurn (hp : Shows p s) (hmode : s.mode = .start)
    (hzero : (0 : UInt8) ∉ c :: rest) (hspace : isSpace c = false) :
    Refines s (c :: rest) (p.unquotedTurn 0 total (c :: rest)) := by
  have hrun : s.run (chunk (isUnquoteTok 0) (c :: rest)) = _ := run_chunk s hmode hspace
  have happend := chunk_append_afterChunk (isUnquoteTok 0) (c :: rest)
  have hstate : p.state = .unquoted := by rw [hp.state, hmode]; rfl
  unfold unquotedTurn
  dsimp only
  cases hnext : afterChunk (isUnquoteTok 0) (c :: rest) with
  | nil =>
    rw [hnext] at happend
    refine ⟨chunk (isUnquoteTok 0) (c :: rest), happend, ?_, ?_⟩
    · rw [hrun]
      refine ⟨?_, by simp [hp.buf], by simp [hp.list]⟩
      simp only [markStart_state, hstate]
      split <;> rfl
    · exact fun _ d hd => nomatch hd
  | cons d ds =>
    rw [hnext] at happend
    have hd : isUnquoteTok 0 d = true := isStop_of_afterChunk hzero hnext
    have hd0 : d ≠ 0 := by
      rintro rfl
      exact absurd hd (by decide)
    dsimp only
    rw [if_neg hd0]
    rcases (isUnquoteTok_iff d).mp hd with hbreak | hopen
    · -- White space: the chunk is not empty, since it does not begin with white space.
      have hne : chunk (isUnquoteTok 0) (c :: rest) ≠ [] := by
        intro hnil
        rw [chunk_eq_nil hnil] at hnext
        rw [(List.cons.inj hnext).1, isSpace_of_isBreak hbreak] at hspace
        exact Bool.noConfusion hspace
      have h1 : d ≠ singleQuote := by rintro rfl; exact absurd hbreak (by decide)
      have h2 : d ≠ doubleQuote := by rintro rfl; exact absurd hbreak (by decide)
      have h3 : d ≠ backslash := by rintro rfl; exact absurd hbreak (by decide)
      rw [if_neg h1, if_neg h2, if_neg h3, if_neg fun h => h.1 rfl]
      refine ⟨chunk (isUnquoteTok 0) (c :: rest), happend, ?_, ?_⟩
      · rw [hrun, if_neg hne]
        exact ⟨by simp [hstate, Mode.state], by simp [hp.buf], by simp [hp.list]⟩
      · exact fun _ e he => by simpa [← Option.some.inj he] using hbreak
    · have hmode' : (s.run (chunk (isUnquoteTok 0) (c :: rest))).mode = .start ∨
          (s.run (chunk (isUnquoteTok 0) (c :: rest))).mode = .plain := by
        rw [hrun]
        dsimp only
        split
        · exact .inl rfl
        · exact .inr rfl
      have hfeed := feed_open hopen hmode'
      have heaten : chunk (isUnquoteTok 0) (c :: rest) ++ [d] ++ ds = c :: rest := by
        rw [List.append_assoc, List.singleton_append, happend]
      have hrun' : s.run (chunk (isUnquoteTok 0) (c :: rest) ++ [d]) =
          (s.run (chunk (isUnquoteTok 0) (c :: rest))).feedPlain d := by
        rw [Scan.run_append, Scan.run_cons, Scan.run_nil, hfeed]
      have hopened : ∀ (q : ArgParse) (mode : Mode), mode ≠ .plain →
          (∀ t : Scan, t.feedPlain d = t.openWith mode) →
          q.buf = addStr s.buf (chunk (isUnquoteTok 0) (c :: rest)) → q.list = s.list →
          Refines s (c :: rest) (q.openWith mode.state, ds) := by
        intro q mode hplain hto hbuf hlist
        refine ⟨_, heaten, ?_, ?_⟩
        · rw [hrun', hto, hrun]
          exact ⟨rfl, by simp [openWith, Scan.openWith, hbuf], hlist⟩
        · rw [hrun', hto]
          exact fun h => absurd h hplain
      rcases hopen with rfl | rfl | rfl
      · rw [if_pos rfl]
        exact hopened _ .singleQuote (by decide) (fun t => rfl) (by simp [hp.buf])
          (by simp [hp.list])
      · rw [if_neg (by decide), if_pos rfl]
        exact hopened _ .doubleQuote (by decide) (fun t => rfl) (by simp [hp.buf])
          (by simp [hp.list])
      · rw [if_neg (by decide), if_neg (by decide), if_pos rfl]
        exact hopened _ .backslash (by decide) (fun t => rfl) (by simp [hp.buf])
          (by simp [hp.list])

theorem refines_backslashTurn {after : ParseState} (mode : Mode) (hp : Shows p s)
    (hmode : mode.state = after) (hplain : mode ≠ .plain)
    (hfeed : s.feed c = if c = newline then s.go mode else s.add mode c) :
    Refines s (c :: rest) (p.backslashTurn total after c rest) := by
  refine ⟨[c], rfl, ?_, ?_⟩
  · rw [Scan.run_cons, Scan.run_nil, hfeed]
    by_cases hc : c = newline
    · simp only [backslashTurn, if_pos hc]
      exact ⟨hmode.symm, by simp [hp.buf, Scan.go], by simp [hp.list, Scan.go]⟩
    · simp only [backslashTurn, if_neg hc]
      exact ⟨hmode.symm, by simp [hp.buf, Scan.add, addStr], by simp [hp.list, Scan.add]⟩
  · rw [Scan.run_cons, Scan.run_nil, hfeed]
    intro h
    split at h <;> exact absurd h hplain

theorem refines_singleQuoteTurn (hp : Shows p s) (hmode : s.mode = .singleQuote)
    (hzero : (0 : UInt8) ∉ c :: rest) :
    Refines s (c :: rest) (p.singleQuoteTurn total (c :: rest)) := by
  have happend := chunk_append_afterChunk (· == singleQuote) (c :: rest)
  have hstate : p.state = .singleQuote := by rw [hp.state, hmode]; rfl
  obtain ⟨mode, buf, list⟩ := s
  subst hmode
  have hrun : Scan.run ⟨.singleQuote, buf, list⟩ (chunk (· == singleQuote) (c :: rest)) = _ :=
    run_singleQuote buf list fun d hd => by simpa using mem_chunk hd
  unfold singleQuoteTurn
  dsimp only
  cases hnext : afterChunk (· == singleQuote) (c :: rest) with
  | nil =>
    rw [hnext] at happend
    refine ⟨chunk (· == singleQuote) (c :: rest), happend, ?_, ?_⟩
    · rw [hrun]
      exact ⟨by simp [hstate, Mode.state], by simp [hp.buf], by simp [hp.list]⟩
    · exact fun _ d hd => nomatch hd
  | cons d ds =>
    rw [hnext] at happend
    have hd : d = singleQuote :=
      eq_of_beq (@isStop_of_afterChunk (· == singleQuote) _ _ _ hzero hnext)
    subst hd
    dsimp only
    rw [if_pos rfl]
    have hrun' : Scan.run ⟨.singleQuote, buf, list⟩
        (chunk (· == singleQuote) (c :: rest) ++ [singleQuote]) =
        ⟨.start, addStr buf (chunk (· == singleQuote) (c :: rest)), list⟩ := by
      rw [Scan.run_append, hrun]
      rfl
    refine ⟨chunk (· == singleQuote) (c :: rest) ++ [singleQuote], ?_, ?_, ?_⟩
    · rw [List.append_assoc, List.singleton_append, happend]
    · rw [hrun']
      exact ⟨rfl, by simp [hp.buf], by simp [hp.list]⟩
    · rw [hrun']
      exact fun hplain => nomatch hplain

theorem refines_doubleQuoteTurn (hp : Shows p s) (hmode : s.mode = .doubleQuote)
    (hzero : (0 : UInt8) ∉ c :: rest) :
    Refines s (c :: rest) (p.doubleQuoteTurn total (c :: rest)) := by
  have hstate : p.state = .doubleQuote := by rw [hp.state, hmode]; rfl
  obtain ⟨mode, buf, list⟩ := s
  subst hmode
  unfold doubleQuoteTurn
  dsimp only
  generalize hstop : (fun c : UInt8 => c == doubleQuote || c == backslash) = stop
  have happend := chunk_append_afterChunk stop (c :: rest)
  have hrun : Scan.run ⟨.doubleQuote, buf, list⟩ (chunk stop (c :: rest)) = _ :=
    run_doubleQuote buf list fun d hd => by
      have hnot : stop d = false := mem_chunk hd
      rw [← hstop] at hnot
      simpa using hnot
  cases hnext : afterChunk stop (c :: rest) with
  | nil =>
    rw [hnext] at happend
    refine ⟨chunk stop (c :: rest), happend, ?_, ?_⟩
    · rw [hrun]
      exact ⟨by simp [hstate, Mode.state], by simp [hp.buf], by simp [hp.list]⟩
    · exact fun _ d hd => nomatch hd
  | cons d ds =>
    rw [hnext] at happend
    have hd : d = doubleQuote ∨ d = backslash := by
      have htok : stop d = true := isStop_of_afterChunk hzero hnext
      rw [← hstop] at htok
      simpa using htok
    have heaten : chunk stop (c :: rest) ++ [d] ++ ds = c :: rest := by
      rw [List.append_assoc, List.singleton_append, happend]
    dsimp only
    rcases hd with rfl | rfl
    · rw [if_pos rfl]
      have hrun' : Scan.run ⟨.doubleQuote, buf, list⟩ (chunk stop (c :: rest) ++ [doubleQuote]) =
          ⟨.start, addStr buf (chunk stop (c :: rest)), list⟩ := by
        rw [Scan.run_append, hrun]
        rfl
      refine ⟨_, heaten, ?_, ?_⟩
      · rw [hrun']
        exact ⟨rfl, by simp [hp.buf], by simp [hp.list]⟩
      · rw [hrun']
        exact fun hplain => nomatch hplain
    · rw [if_neg (by decide), if_pos rfl]
      have hrun' : Scan.run ⟨.doubleQuote, buf, list⟩ (chunk stop (c :: rest) ++ [backslash]) =
          ⟨.doubleQuoteBackslash, addStr buf (chunk stop (c :: rest)), list⟩ := by
        rw [Scan.run_append, hrun]
        rfl
      refine ⟨_, heaten, ?_, ?_⟩
      · rw [hrun']
        exact ⟨rfl, by simp [hp.buf], by simp [hp.list]⟩
      · rw [hrun']
        exact fun hplain => nomatch hplain

/-- One turn of the loop refines the automaton. -/
theorem refines_turn (hp : Shows p s) (hready : Ready s (c :: rest))
    (hzero : (0 : UInt8) ∉ c :: rest) : Refines s (c :: rest) (p.turn 0 total c rest) := by
  have hstate := hp.state
  unfold turn
  cases hmode : s.mode with
  | start =>
    rw [hmode] at hstate
    simp only [hstate, Mode.state]
    split
    case isTrue hspace => exact refines_space hp (.inl hmode) hready hspace
    case isFalse hspace => exact refines_unquotedTurn hp hmode hzero (by simpa using hspace)
  | plain =>
    rw [hmode] at hstate
    simp only [hstate, Mode.state]
    have hspace : isSpace c = true := isSpace_of_isBreak (hready hmode c rfl)
    rw [if_pos hspace]
    exact refines_space hp (.inr hmode) hready hspace
  | backslash =>
    rw [hmode] at hstate
    simp only [hstate, Mode.state]
    exact refines_backslashTurn .start hp rfl (by decide) (by simp [Scan.feed, hmode])
  | doubleQuoteBackslash =>
    rw [hmode] at hstate
    simp only [hstate, Mode.state]
    exact refines_backslashTurn .doubleQuote hp rfl (by decide)
      (by simp [Scan.feed, hmode])
  | singleQuote =>
    rw [hmode] at hstate
    simp only [hstate, Mode.state]
    exact refines_singleQuoteTurn hp hmode hzero
  | doubleQuote =>
    rw [hmode] at hstate
    simp only [hstate, Mode.state]
    exact refines_doubleQuoteTurn hp hmode hzero

end

/-- The loop computes what the automaton does. -/
theorem shows_loop (total : ℕ) (p : ArgParse) (str : List UInt8) (s : Scan) (hp : Shows p s)
    (hready : Ready s str) (hzero : (0 : UInt8) ∉ str) :
    Shows (p.loop 0 total str) (s.run str) := by
  induction hn : str.length using Nat.strong_induction_on generalizing p str s with
  | _ n ih =>
    cases str with
    | nil =>
      rw [loop]
      exact hp
    | cons c rest =>
      have hc : c ≠ 0 := by
        rintro rfl
        exact hzero (List.mem_cons_self ..)
      have hturn : Refines s (c :: rest) (p.turn 0 total c rest) :=
        refines_turn hp hready hzero
      obtain ⟨eaten, heaten, hshows, hready'⟩ := hturn
      have hlt : (p.turn 0 total c rest).2.length < n := hn ▸ length_turn_lt hc
      have hzero' : (0 : UInt8) ∉ (p.turn 0 total c rest).2 := by
        intro hmem
        rw [← heaten] at hzero
        exact hzero (List.mem_append_right _ hmem)
      have hrun : s.run (c :: rest) = (s.run eaten).run (p.turn 0 total c rest).2 := by
        rw [← Scan.run_append, heaten]
      rw [loop, dif_neg hc, hrun]
      exact ih _ hlt _ _ _ hshows hready' hzero' rfl

/-- What the default parser returns, in terms of the automaton. -/
theorem parseArgs_eq_run {str : List UInt8} (hzero : (0 : UInt8) ∉ str) :
    (parseArgs 0 str).args = .flat ((Scan.empty.run str).finish.list) ∧
      (parseArgs 0 str).missing = (Scan.empty.run str).mode.state.missing := by
  have hskip : Scan.empty.run str = Scan.empty.run (str.dropWhile isSpace) := by
    have hspaces : Scan.empty.run (str.takeWhile isSpace) = Scan.empty :=
      run_space [] fun c hc => List.mem_takeWhile_imp hc
    rw [← congrArg Scan.empty.run (List.takeWhile_append_dropWhile (p := isSpace) (l := str)),
      Scan.run_append, hspaces]
  have hshows : Shows (ArgParse.start.loop 0 str.length (str.dropWhile isSpace))
      (Scan.empty.run str) := by
    rw [hskip]
    refine shows_loop _ _ _ _ ⟨rfl, rfl, rfl⟩ (fun hplain => nomatch hplain) ?_
    exact fun hmem => hzero ((List.dropWhile_sublist _).subset hmem)
  constructor
  · simp only [parseArgs, if_pos]
    rw [finishArg_list, hshows.list, hshows.buf]
    rfl
  · simp only [parseArgs]
    rw [hshows.state]

end OpenWrt.Uline
