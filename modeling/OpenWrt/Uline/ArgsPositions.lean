/-
# The positions of the arguments

A completion replaces the text of an argument by the positions that the parser returns. They are
always in order and inside the line. That the text between them is the argument, and nothing else,
holds exactly if no separator outside of an argument has an argument behind it, whose start would
be noted at the separator, and if the text does not end with a quote or a backslash that begins an
argument, whose end is noted before it.
-/

import OpenWrt.Uline.ArgsTrack
import Mathlib.Data.List.Forall2
import Mathlib.Data.List.Induction

namespace OpenWrt.Uline

/-! ## The property -/

def Args.byLine : Args → List (List (List UInt8))
  | .flat list => [list]
  | .lines rows => rows

/-- The text of a position. -/
def slice (str : List UInt8) (pos : Int × Int) : List UInt8 :=
  (str.drop pos.1.toNat).take (pos.2 - pos.1).toNat

/-- What `parse` returns in `args` for one argument and no other. -/
def oneArg (sep : UInt8) (arg : List UInt8) : Args :=
  if sep = 0 then .flat [arg] else .lines [[arg]]

/-- The positions are inside the line, in order and disjoint, and the text of each is read as the
argument it belongs to. -/
structure PositionsSound (sep : UInt8) (str : List UInt8) : Prop where
  inside : ∀ pos ∈ (parseArgs sep str).pos.flatten,
    0 ≤ pos.1 ∧ pos.1 ≤ pos.2 ∧ pos.2 ≤ str.length
  ordered : (parseArgs sep str).pos.flatten.Pairwise fun one two => one.2 ≤ two.1
  reparsed : List.Forall₂
    (List.Forall₂ fun arg pos => (parseArgs sep (slice str pos)).args = oneArg sep arg)
    (parseArgs sep str).args.byLine (parseArgs sep str).pos

/-! ## The condition -/

def Act.mode : Act → Mode
  | .space => .start
  | .line => .start
  | .opens mode => mode
  | .adds mode => mode
  | .passes mode => mode

def modeAfter (sep : UInt8) (text : List UInt8) : Mode :=
  text.foldl (fun mode c => (act sep mode c).mode) .start

/-- White space or a separator outside of an argument. -/
def Act.Outer : Act → Prop
  | .space => True
  | .line => True
  | _ => False

/-- The text ends outside of an argument: it is empty, or its last byte is white space or a
separator that is not quoted. -/
def Outside (sep : UInt8) (text : List UInt8) : Prop :=
  ∀ before c, text = before ++ [c] → (act sep (modeAfter sep before) c).Outer

/-- No separator outside of an argument has an argument behind it, and the text does not end with
a quote or a backslash that begins an argument. -/
structure Settled (sep : UInt8) (text : List UInt8) : Prop where
  separator : ∀ before c behind, text = before ++ c :: behind → Outside sep before →
    act sep .start c = .line → ∀ d ∈ behind, (act sep .start d).Outer
  opener : ∀ before c mode, text = before ++ [c] → Outside sep before →
    act sep .start c ≠ .opens mode

/-! ## The automaton outside of arguments -/

namespace Track

variable {t : Track} {sep c : UInt8} {text : List UInt8}

theorem apply_mode (t : Track) (c : UInt8) (a : Act) : (t.apply c a).mode = a.mode := by
  cases a <;> rfl

theorem outer_cases {a : Act} (h : a.Outer) : a = .space ∨ a = .line := by
  cases a with
  | space => exact Or.inl rfl
  | line => exact Or.inr rfl
  | opens mode => exact h.elim
  | adds mode => exact h.elim
  | passes mode => exact h.elim

theorem run_mode (sep : UInt8) (text : List UInt8) :
    (empty.run sep text).mode = modeAfter sep text := by
  induction text using List.reverseRecOn with
  | nil => rfl
  | append_singleton text c ih =>
    rw [run_concat, feed, apply_mode, ih]
    unfold modeAfter
    rw [List.foldl_concat]

theorem outside_nil : Outside sep [] := fun _ _ h => by simp at h

theorem outside_concat : Outside sep (text ++ [c]) ↔ (act sep (modeAfter sep text) c).Outer := by
  constructor
  · exact fun h => h text c rfl
  · intro h before d heq
    obtain ⟨htext, hc⟩ := List.append_inj' heq rfl
    rw [← htext, ← (List.cons.inj hc).1]
    exact h

theorem plainAct_cases (sep c : UInt8) :
    plainAct sep c = .line ∨ plainAct sep c = .adds .plain ∨
      ∃ mode, plainAct sep c = .opens mode ∧ mode ≠ .start ∧ mode ≠ .plain := by
  unfold plainAct
  split_ifs
  · exact Or.inr (Or.inr ⟨_, rfl, by decide, by decide⟩)
  · exact Or.inr (Or.inr ⟨_, rfl, by decide, by decide⟩)
  · exact Or.inr (Or.inr ⟨_, rfl, by decide, by decide⟩)
  · exact Or.inl rfl
  · exact Or.inr (Or.inl rfl)

/-- What a byte can do in a mode: white space, a separator and the beginning of a quoted text are
outside of quotes, and the mode of a quoted text is another one. -/
theorem act_cases (sep : UInt8) (mode : Mode) (c : UInt8) :
    ((mode = .start ∨ mode = .plain) ∧
        (act sep mode c = .space ∨ act sep mode c = .line ∨ act sep mode c = .adds .plain ∨
          ∃ after, act sep mode c = .opens after ∧ after ≠ .start ∧ after ≠ .plain)) ∨
      ((mode ≠ .start ∧ mode ≠ .plain) ∧
        ((∃ after, act sep mode c = .adds after) ∨ ∃ after, act sep mode c = .passes after)) := by
  cases mode with
  | start =>
    refine Or.inl ⟨Or.inl rfl, ?_⟩
    by_cases hspace : isSpace c = true
    · exact Or.inl (if_pos hspace)
    · rw [act_start (by simpa using hspace)]
      exact Or.inr (plainAct_cases sep c)
  | plain =>
    refine Or.inl ⟨Or.inr rfl, ?_⟩
    by_cases hbreak : isBreak c = true ∧ ¬ (sep ≠ 0 ∧ c = sep)
    · exact Or.inl (if_pos hbreak)
    · rw [act_plain_of_not_break hbreak]
      exact Or.inr (plainAct_cases sep c)
  | backslash =>
    refine Or.inr ⟨⟨by decide, by decide⟩, ?_⟩
    by_cases hc : c = newline
    · exact Or.inr ⟨_, if_pos hc⟩
    · exact Or.inl ⟨_, if_neg hc⟩
  | doubleQuoteBackslash =>
    refine Or.inr ⟨⟨by decide, by decide⟩, ?_⟩
    by_cases hc : c = newline
    · exact Or.inr ⟨_, if_pos hc⟩
    · exact Or.inl ⟨_, if_neg hc⟩
  | singleQuote =>
    refine Or.inr ⟨⟨by decide, by decide⟩, ?_⟩
    by_cases hc : c = singleQuote
    · exact Or.inr ⟨_, if_pos hc⟩
    · exact Or.inl ⟨_, if_neg hc⟩
  | doubleQuote =>
    refine Or.inr ⟨⟨by decide, by decide⟩, ?_⟩
    by_cases hquote : c = doubleQuote
    · exact Or.inr ⟨_, if_pos hquote⟩
    · by_cases hbackslash : c = backslash
      · exact Or.inr ⟨.doubleQuoteBackslash, by rw [act, if_neg hquote, if_pos hbackslash]⟩
      · exact Or.inl ⟨.doubleQuote, by rw [act, if_neg hquote, if_neg hbackslash]⟩

theorem mode_of_outer {mode : Mode} (h : (act sep mode c).Outer) :
    mode = .start ∨ mode = .plain := by
  rcases act_cases sep mode c with ⟨hmode, -⟩ | ⟨-, ⟨after, hact⟩ | ⟨after, hact⟩⟩
  · exact hmode
  · rw [hact] at h
    exact h.elim
  · rw [hact] at h
    exact h.elim

theorem opens_mode {mode after : Mode} (h : act sep mode c = .opens after) :
    after ≠ .start ∧ after ≠ .plain := by
  rcases act_cases sep mode c with ⟨-, hact | hact | hact | ⟨other, hact, hother⟩⟩ |
    ⟨-, ⟨other, hact⟩ | ⟨other, hact⟩⟩
  · rw [h] at hact
    cases hact
  · rw [h] at hact
    cases hact
  · rw [h] at hact
    cases hact
  · rw [h] at hact
    cases hact
    exact hother
  · rw [h] at hact
    cases hact
  · rw [h] at hact
    cases hact

/-- Within quotes an argument is pending. -/
theorem mode_of_none (sep : UInt8) (text : List UInt8)
    (hbuf : (empty.run sep text).buf = none) : (empty.run sep text).mode = .start := by
  induction text using List.reverseRecOn with
  | nil => rfl
  | append_singleton text c ih =>
    rw [run_concat, feed] at hbuf ⊢
    rcases act_cases sep (empty.run sep text).mode c with
      ⟨-, hact | hact | hact | ⟨after, hact, -⟩⟩ | ⟨hmode, ⟨after, hact⟩ | ⟨after, hact⟩⟩
    · rw [hact]
      rfl
    · rw [hact]
      rfl
    · rw [hact] at hbuf
      cases hbuf
    · rw [hact] at hbuf
      cases hbuf
    · rw [hact] at hbuf
      cases hbuf
    · rw [hact] at hbuf
      exact absurd (ih hbuf) hmode.1

/-- No argument is pending exactly where the text ends outside of one. -/
theorem outside_iff (sep : UInt8) (text : List UInt8) :
    Outside sep text ↔ (empty.run sep text).buf = none := by
  induction text using List.reverseRecOn with
  | nil => exact iff_of_true outside_nil rfl
  | append_singleton text c ih =>
    rw [outside_concat, run_concat, feed, run_mode]
    have hmode := mode_of_none sep text
    rw [run_mode] at hmode
    rcases act_cases sep (modeAfter sep text) c with
      ⟨-, hact | hact | hact | ⟨after, hact, -⟩⟩ | ⟨hquoted, ⟨after, hact⟩ | ⟨after, hact⟩⟩
    · rw [hact]
      exact iff_of_true trivial (finish_buf _)
    · rw [hact]
      exact iff_of_true trivial (finish_buf _)
    · rw [hact]
      exact iff_of_false id (Option.some_ne_none _)
    · rw [hact]
      exact iff_of_false id (Option.some_ne_none _)
    · rw [hact]
      exact iff_of_false id (Option.some_ne_none _)
    · rw [hact]
      exact iff_of_false id fun hbuf => hquoted.1 (hmode hbuf)

/-! ## The positions are in order -/

def rows (t : Track) : List (List Found) := t.lines ++ [t.found]

/-- All arguments found so far. -/
def all (t : Track) : List Found := t.rows.flatten

theorem all_eq (t : Track) : t.all = t.lines.flatten ++ t.found := by
  simp [all, rows]

theorem all_finish {arg : List UInt8} {s : ℕ} (hbuf : t.buf = some arg)
    (hs : t.startIdx = some s) : t.finish.all = t.all ++ [⟨arg, s, t.endIdx⟩] := by
  unfold finish
  rw [hbuf]
  simp [all_eq, hs]

theorem finish_of_none (hbuf : t.buf = none) : t.finish = t := by
  unfold finish
  rw [hbuf]

theorem all_endLine (t : Track) : t.endLine.all = t.finish.all := by
  simp [all_eq, endLine]

/-- What is found is in order and before the pending argument. -/
structure Ordered (t : Track) : Prop where
  endIdx_le : t.endIdx ≤ t.count
  pending : ∀ s ∈ t.startIdx, s ≤ t.count ∧ (t.buf.isSome → s ≤ t.endIdx)
  before : ∀ s ∈ t.startIdx, ∀ f ∈ t.all, f.stop ≤ s
  inside : ∀ f ∈ t.all, f.start ≤ f.stop ∧ f.stop ≤ t.count
  pairwise : t.all.Pairwise fun f g => f.stop ≤ g.start

namespace Ordered

theorem empty : Ordered empty where
  endIdx_le := Nat.le_refl 0
  pending := fun _ hs => nomatch hs
  before := fun _ hs => nomatch hs
  inside := fun _ hf => nomatch hf
  pairwise := List.Pairwise.nil

theorem finish (h : t.Ordered) (ht : t.Marked) : t.finish.Ordered := by
  cases hbuf : t.buf with
  | none =>
    rw [finish_of_none hbuf]
    exact h
  | some arg =>
    obtain ⟨s, hs⟩ := Option.isSome_iff_exists.mp (ht (by rw [hbuf]; rfl))
    have hall := all_finish hbuf hs
    have hle : s ≤ t.endIdx := (h.pending s hs).2 (by rw [hbuf]; rfl)
    have hfinish : t.finish = { t with
        found := t.found ++ [⟨arg, s, t.endIdx⟩], startIdx := none, buf := none } := by
      unfold Track.finish
      rw [hbuf, hs]
      rfl
    have hstart : t.finish.startIdx = none := by rw [hfinish]
    have hcount : t.finish.count = t.count := by rw [hfinish]
    refine ⟨?_, ?_, ?_, ?_, ?_⟩
    · rw [hfinish]
      exact h.endIdx_le
    · intro r hr
      rw [hstart] at hr
      cases hr
    · intro r hr
      rw [hstart] at hr
      cases hr
    · intro f hf
      rw [hall] at hf
      rw [hcount]
      rcases List.mem_append.mp hf with hf | hf
      · exact h.inside f hf
      · rw [List.mem_singleton.mp hf]
        exact ⟨hle, h.endIdx_le⟩
    · rw [hall, List.pairwise_append]
      refine ⟨h.pairwise, List.pairwise_singleton _ _, ?_⟩
      intro f hf g hg
      rw [List.mem_singleton.mp hg]
      exact h.before s hs f hf

theorem mark (h : t.Ordered) (ht : t.Marked) : t.mark.Ordered := by
  cases hs : t.startIdx with
  | some s =>
    have hmark : t.mark = t := by
      unfold Track.mark
      rw [hs]
      cases t
      cases hs
      rfl
    rw [hmark]
    exact h
  | none =>
    have hmark : t.mark.startIdx = some t.count := by
      unfold Track.mark
      rw [hs]
      rfl
    refine ⟨h.endIdx_le, ?_, ?_, h.inside, h.pairwise⟩
    · intro s hmem
      rw [hmark] at hmem
      cases hmem
      refine ⟨Nat.le_refl _, fun hbuf => ?_⟩
      have hsome := ht hbuf
      rw [hs] at hsome
      cases hsome
    · intro s hmem f hf
      rw [hmark] at hmem
      cases hmem
      exact (h.inside f hf).2

theorem advance (h : t.Ordered) {endIdx : ℕ} (hle : t.count ≤ endIdx) (hend : endIdx ≤ t.count + 1)
    (mode : Mode) (buf : Option (List UInt8)) :
    Ordered { t with mode, buf, endIdx, count := t.count + 1 } where
  endIdx_le := hend
  pending := fun s hs => ⟨Nat.le_succ_of_le (h.pending s hs).1,
    fun _ => Nat.le_trans (h.pending s hs).1 hle⟩
  before := h.before
  inside := fun f hf => ⟨(h.inside f hf).1, Nat.le_succ_of_le (h.inside f hf).2⟩
  pairwise := h.pairwise

theorem noted (h : t.Ordered) (ht : t.Marked) : t.noted.Ordered where
  endIdx_le := Nat.le_refl _
  pending := fun s hs => ⟨((h.mark ht).pending s hs).1, fun _ => ((h.mark ht).pending s hs).1⟩
  before := (h.mark ht).before
  inside := (h.mark ht).inside
  pairwise := (h.mark ht).pairwise

theorem endLine (h : t.Ordered) (ht : t.Marked) : t.endLine.Ordered := by
  have hfinish := h.finish ht
  have hall := all_endLine t
  refine ⟨hfinish.endIdx_le, hfinish.pending, ?_, ?_, ?_⟩
  · rw [hall]
    exact hfinish.before
  · rw [hall]
    exact hfinish.inside
  · rw [hall]
    exact hfinish.pairwise

theorem step (h : t.Ordered) (mode : Mode) :
    Ordered { t with mode, count := t.count + 1 } where
  endIdx_le := Nat.le_succ_of_le h.endIdx_le
  pending := fun s hs => ⟨Nat.le_succ_of_le (h.pending s hs).1, (h.pending s hs).2⟩
  before := h.before
  inside := fun f hf => ⟨(h.inside f hf).1, Nat.le_succ_of_le (h.inside f hf).2⟩
  pairwise := h.pairwise

theorem apply (h : t.Ordered) (ht : t.Marked) (c : UInt8) (a : Act) : (t.apply c a).Ordered := by
  cases a with
  | space =>
    have hcount : t.finish.count = t.count := by
      unfold Track.finish
      split <;> rfl
    have hstep := (h.finish ht).step .start
    rw [hcount] at hstep
    exact hstep
  | line =>
    have hcount : t.noted.endLine.count = t.count := by
      unfold Track.endLine Track.finish
      dsimp only
      split <;> rfl
    have hstep := ((h.noted ht).endLine (fun _ => rfl)).step .start
    rw [hcount] at hstep
    exact hstep
  | opens mode => exact (h.mark ht).advance (Nat.le_refl _) (Nat.le_succ _) mode _
  | adds mode => exact (h.mark ht).advance (Nat.le_succ _) (Nat.le_refl _) mode _
  | passes mode => exact (h.mark ht).advance (Nat.le_succ _) (Nat.le_refl _) mode _

theorem run (sep : UInt8) (text : List UInt8) : (Track.empty.run sep text).Ordered := by
  induction text using List.reverseRecOn with
  | nil => exact Ordered.empty
  | append_singleton text c ih =>
    rw [run_concat]
    exact ih.apply (marked_run marked_empty text) c _

end Ordered

/-! ## A word by itself -/

/-- The text is read as one argument, which the end of the text ends. -/
def Word (sep : UInt8) (text arg : List UInt8) : Prop :=
  (empty.run sep text).buf = some arg ∧ (empty.run sep text).all = [] ∧
    (empty.run sep text).lines = []

theorem finish_lines (t : Track) : t.finish.lines = t.lines := by
  unfold finish
  split <;> rfl

theorem finish_found {arg : List UInt8} (hbuf : t.buf = some arg) :
    t.finish.found = t.found ++ [⟨arg, t.startIdx.getD 0, t.endIdx⟩] := by
  unfold finish
  rw [hbuf]

theorem body_of_notMem (h : (0 : UInt8) ∉ text) : body text = text := by
  apply List.takeWhile_eq_self_iff.mpr
  intro c hc
  exact bne_iff_ne.mpr fun hzero => h (hzero ▸ hc)

theorem Word.args {arg : List UInt8} (h : Word sep text arg) (hzero : (0 : UInt8) ∉ text) :
    (parseArgs sep text).args = oneArg sep arg := by
  obtain ⟨hbuf, hall, hlines⟩ := h
  have hfound : (empty.run sep text).found = [] := by
    rw [all_eq, hlines] at hall
    exact hall
  rw [parseArgs_eq_run, body_of_notMem hzero, oneArg, finish_lines, finish_found hbuf, hlines, hfound]
  rfl

theorem sep_of_line {mode : Mode} (h : act sep mode c = .line) : sep ≠ 0 := by
  have hplain : plainAct sep c = .line := by
    rcases act_cases sep mode c with ⟨hmode, -⟩ | ⟨-, ⟨after, hact⟩ | ⟨after, hact⟩⟩
    · rcases hmode with rfl | rfl
      · rw [← h]
        exact (act_start (Bool.eq_false_iff.mpr fun hspace => by
          rw [act, if_pos hspace] at h
          cases h)).symm
      · rw [← h]
        exact (act_plain_of_not_break fun hbreak => by
          rw [act, if_pos hbreak] at h
          cases h).symm
    · rw [h] at hact
      cases hact
    · rw [h] at hact
      cases hact
  unfold plainAct at hplain
  split_ifs at hplain with h1 h2 h3 hsep
  exact hsep.1

theorem lines_length_apply (t : Track) (c : UInt8) (a : Act) :
    t.lines.length ≤ (t.apply c a).lines.length := by
  cases a with
  | space => exact Nat.le_of_eq (congrArg List.length (finish_lines t).symm)
  | line =>
    have hlines : (t.apply c .line).lines = t.lines ++ [t.noted.finish.found] := by
      rw [show (t.apply c .line).lines = t.noted.finish.lines ++ [t.noted.finish.found] from rfl,
        finish_lines]
      rfl
    rw [hlines, List.length_append]
    exact Nat.le_add_right _ _
  | opens mode => exact Nat.le_refl _
  | adds mode => exact Nat.le_refl _
  | passes mode => exact Nat.le_refl _

theorem lines_length_run (t : Track) (text : List UInt8) :
    t.lines.length ≤ (t.run sep text).lines.length := by
  induction text generalizing t with
  | nil => exact Nat.le_refl _
  | cons c text ih => exact Nat.le_trans (lines_length_apply t c _) (ih _)

/-- Nothing is read as one argument, and neither is a text that begins with a separator. -/
theorem not_oneArg (hzero : (0 : UInt8) ∉ text) (h : ∀ c ∈ text.head?, act sep .start c = .line)
    (arg : List UInt8) : (parseArgs sep text).args ≠ oneArg sep arg := by
  rw [parseArgs_eq_run, body_of_notMem hzero, oneArg]
  cases text with
  | nil => split_ifs <;> exact fun heq => by cases heq
  | cons c text =>
    have hline : act sep .start c = .line := h c rfl
    have hlength := @lines_length_run sep (empty.feed sep c) text
    rw [show (empty.feed sep c).lines = [[]] by rw [feed, show empty.mode = .start from rfl, hline]; rfl,
      ← run_cons, ← finish_lines] at hlength
    dsimp only
    rw [if_neg (sep_of_line hline), if_neg (sep_of_line hline)]
    intro heq
    have hrows := congrArg List.length (Args.lines.inj heq)
    rw [List.length_map, List.length_append] at hrows
    simp only [List.length_cons, List.length_nil] at hrows hlength
    omega

/-! ## The arguments that are found are words -/

/-- The text from one place to another. -/
def cut (text : List UInt8) (start stop : ℕ) : List UInt8 := (text.drop start).take (stop - start)

theorem cut_append {start stop : ℕ} {read : List UInt8} (hstart : start ≤ stop)
    (hstop : stop ≤ read.length) (behind : List UInt8) :
    cut (read ++ behind) start stop = cut read start stop := by
  unfold cut
  rw [List.drop_append_of_le_length (Nat.le_trans hstart hstop), List.take_append_of_le_length]
  rw [List.length_drop]
  omega

theorem cut_word (before word : List UInt8) (stop : ℕ) :
    cut (before ++ word) before.length (before.length + stop) = word.take stop := by
  unfold cut
  rw [List.drop_left, Nat.add_sub_cancel_left]

/-- The end that is noted for a word: its end, or the quote or the backslash that ends it. -/
def Ends (sep : UInt8) (word arg : List UInt8) (stop : ℕ) : Prop :=
  stop = word.length ∨ ∃ front c mode, front ++ [c] = word ∧ stop = front.length ∧
    act sep (modeAfter sep front) c = .opens mode ∧ (front = [] ∨ Word sep front arg)

/-- The pending argument is that of a word. -/
structure Pending (sep : UInt8) (read : List UInt8) (t : Track) (arg before word : List UInt8) :
    Prop where
  append : before ++ word = read
  start : t.startIdx = some before.length
  outside : Outside sep before
  mode : modeAfter sep word = t.mode
  isWord : Word sep word arg
  ends : ∃ stop, t.endIdx = before.length + stop ∧ Ends sep word arg stop

/-- The invariant of a settled text: what is found are words, an argument is pending from where it
begins, and no start is noted before one begins. -/
structure Good (sep : UInt8) (read behind : List UInt8) (t : Track) : Prop where
  found : ∀ f ∈ t.all, Word sep (cut read f.start f.stop) f.arg
  closed : t.buf = none → t.startIdx = none ∨ ∀ d ∈ behind, (act sep .start d).Outer
  pending : ∀ arg, t.buf = some arg → ∃ before word, Pending sep read t arg before word

theorem all_apply {a : Act} (h : ¬ a.Outer) : (t.apply c a).all = t.all ∧
    (t.apply c a).lines = t.lines := by
  cases a with
  | space => exact absurd trivial h
  | line => exact absurd trivial h
  | opens mode => exact ⟨rfl, rfl⟩
  | adds mode => exact ⟨rfl, rfl⟩
  | passes mode => exact ⟨rfl, rfl⟩

theorem startIdx_apply {a : Act} (h : ¬ a.Outer) :
    (t.apply c a).startIdx = some (t.startIdx.getD t.count) := by
  cases a with
  | space => exact absurd trivial h
  | line => exact absurd trivial h
  | opens mode => rfl
  | adds mode => rfl
  | passes mode => rfl

theorem buf_apply {s : Track} {a : Act} (h : ¬ a.Outer) (hbuf : t.buf = s.buf) :
    (t.apply c a).buf = (s.apply c a).buf := by
  cases a with
  | space => exact absurd trivial h
  | line => exact absurd trivial h
  | opens mode => exact congrArg (fun buf => some (buf.getD [])) hbuf
  | adds mode => exact congrArg (fun buf => some (buf.getD [] ++ [c])) hbuf
  | passes mode => exact hbuf

theorem Word.concat {arg arg' : List UInt8} (h : Word sep text arg)
    (hact : ¬ (act sep (modeAfter sep text) c).Outer)
    (hbuf : ((empty.run sep text).apply c (act sep (modeAfter sep text) c)).buf = some arg') :
    Word sep (text ++ [c]) arg' := by
  have hall := @all_apply (empty.run sep text) c _ hact
  have hfeed : empty.run sep (text ++ [c]) =
      (empty.run sep text).apply c (act sep (modeAfter sep text) c) := by
    rw [run_concat, feed, run_mode]
  unfold Word
  rw [hfeed, hall.1, hall.2]
  exact ⟨hbuf, h.2.1, h.2.2⟩

section Steps

variable {read behind : List UInt8} {arg : List UInt8}

theorem endIdx_apply {a : Act} (h : ¬ a.Outer) :
    (t.apply c a).endIdx = t.count + 1 ∨
      ((t.apply c a).endIdx = t.count ∧ ∃ mode, a = .opens mode) := by
  cases a with
  | space => exact absurd trivial h
  | line => exact absurd trivial h
  | opens mode => exact Or.inr ⟨rfl, mode, rfl⟩
  | adds mode => exact Or.inl rfl
  | passes mode => exact Or.inl rfl

/-- The first byte of an argument. -/
theorem Pending.first (hread : t = empty.run sep read) (hbuf : t.buf = none)
    (hstart : t.startIdx = none) (hact : ¬ (act sep t.mode c).Outer)
    (harg : (t.feed sep c).buf = some arg) :
    Pending sep (read ++ [c]) (t.feed sep c) arg read [c] := by
  have hcount : t.count = read.length := by
    rw [hread, run_count]
    exact Nat.zero_add _
  have hmode : t.mode = .start := by
    rw [hread] at hbuf ⊢
    exact mode_of_none sep read hbuf
  rw [hmode] at hact
  rw [feed, hmode] at harg ⊢
  refine ⟨rfl, ?_, ?_, ?_, ?_, ?_⟩
  · rw [startIdx_apply hact, hstart, hcount]
    rfl
  · rw [outside_iff, ← hread]
    exact hbuf
  · rw [apply_mode]
    rfl
  · have hall := @all_apply empty c _ hact
    refine ⟨?_, hall.1, hall.2⟩
    rw [← harg]
    exact buf_apply hact hbuf.symm
  · rcases @endIdx_apply t c _ hact with hend | ⟨hend, mode, hopens⟩
    · exact ⟨1, by rw [hend, hcount], Or.inl rfl⟩
    · exact ⟨0, by rw [hend, hcount]; rfl, Or.inr ⟨[], c, mode, rfl, rfl, hopens, Or.inl rfl⟩⟩

/-- A further byte of an argument. -/
theorem Pending.concat {before word arg' : List UInt8} (hread : t = empty.run sep read)
    (h : Pending sep read t arg before word) (hbuf : t.buf = some arg)
    (hact : ¬ (act sep t.mode c).Outer) (harg : (t.feed sep c).buf = some arg') :
    Pending sep (read ++ [c]) (t.feed sep c) arg' before (word ++ [c]) := by
  have hcount : t.count = before.length + word.length := by
    rw [hread, run_count, ← h.append, List.length_append]
    exact Nat.zero_add _
  have hmode := h.mode
  rw [feed] at harg ⊢
  have hactWord : ¬ (act sep (modeAfter sep word) c).Outer := by
    rw [hmode]
    exact hact
  refine ⟨?_, ?_, h.outside, ?_, ?_, ?_⟩
  · rw [← h.append, List.append_assoc]
  · rw [startIdx_apply hact, h.start]
    rfl
  · rw [← run_mode, run_concat, feed, run_mode, hmode, apply_mode, apply_mode]
  · apply h.isWord.concat hactWord
    rw [hmode, ← harg]
    apply buf_apply hact
    rw [h.isWord.1, hbuf]
  · rcases @endIdx_apply t c _ hact with hend | ⟨hend, mode, hopens⟩
    · refine ⟨word.length + 1, ?_, Or.inl (by simp)⟩
      rw [hend, hcount, Nat.add_assoc]
    · have hsame : arg' = arg := by
        rw [hopens] at harg
        have hget : some (t.buf.getD []) = some arg' := harg
        rw [hbuf] at hget
        exact (Option.some.inj hget).symm
      refine ⟨word.length, ?_, Or.inr ⟨word, c, mode, rfl, rfl, ?_, Or.inr ?_⟩⟩
      · rw [hend, hcount]
      · rw [hmode, hopens]
      · rw [hsame]
        exact h.isWord

/-- White space or a separator behind a word: its end is noted. -/
theorem Pending.endIdx {before word : List UInt8} (h : Pending sep read t arg before word)
    (hmode : t.mode = .start ∨ t.mode = .plain) : t.endIdx = read.length := by
  obtain ⟨stop, hend, hstop | ⟨front, d, mode, happend, -, hopens, -⟩⟩ := h.ends
  · rw [hend, hstop, ← h.append, List.length_append]
  · exfalso
    have hafter : mode = t.mode := by
      rw [← h.mode, ← happend, ← run_mode, run_concat, feed, run_mode, hopens]
      rfl
    rcases hmode with hmode | hmode
    · exact (opens_mode hopens).1 (hafter.trans hmode)
    · exact (opens_mode hopens).2 (hafter.trans hmode)

theorem Pending.cut {before word : List UInt8} (h : Pending sep read t arg before word) :
    Word sep (cut read before.length read.length) arg := by
  have hlength : read.length = before.length + word.length := by
    rw [← h.append, List.length_append]
  rw [hlength, ← h.append, cut_word, List.take_length]
  exact h.isWord

theorem found_concat (hordered : t.Ordered) (hcount : t.count = read.length)
    (hfound : ∀ f ∈ t.all, Word sep (Track.cut read f.start f.stop) f.arg) (c : UInt8) :
    ∀ f ∈ t.all, Word sep (Track.cut (read ++ [c]) f.start f.stop) f.arg := by
  intro f hf
  obtain ⟨hstart, hstop⟩ := hordered.inside f hf
  rw [hcount] at hstop
  rw [cut_append hstart hstop]
  exact hfound f hf

theorem finish_count (t : Track) : t.finish.count = t.count := by
  unfold Track.finish
  split <;> rfl

/-- The end of an argument outside of quotes. -/
theorem Good.finish (h : Good sep read behind t)
    (hmode : t.mode = .start ∨ t.mode = .plain) (hstart : t.buf.isSome) :
    (∀ f ∈ t.finish.all, Word sep (Track.cut read f.start f.stop) f.arg) ∧
      t.finish.startIdx = none := by
  obtain ⟨arg, hbuf⟩ := Option.isSome_iff_exists.mp hstart
  obtain ⟨before, word, hpending⟩ := h.pending arg hbuf
  constructor
  · rw [all_finish hbuf hpending.start, hpending.endIdx hmode]
    intro f hf
    rcases List.mem_append.mp hf with hf | hf
    · exact h.found f hf
    · rw [List.mem_singleton.mp hf]
      exact hpending.cut
  · unfold Track.finish
    rw [hbuf]

theorem Pending.noted {before word : List UInt8} (hcount : t.count = read.length)
    (h : Pending sep read t arg before word) (hmode : t.mode = .start ∨ t.mode = .plain) :
    t.noted = t := by
  have hend : t.count = t.endIdx := hcount.trans (h.endIdx hmode).symm
  have hstart := h.start
  obtain ⟨mode, count, buf, startIdx, endIdx, found, lines⟩ := t
  cases hstart
  cases hend
  rfl

/-- White space or a separator outside of quotes. -/
theorem Good.outer {text : List UInt8} (htext : Settled sep text)
    (happend : read ++ c :: behind = text) (hread : t = empty.run sep read)
    (h : Good sep read (c :: behind) t) (hact : (act sep t.mode c).Outer) :
    Good sep (read ++ [c]) behind (t.feed sep c) := by
  have hordered : t.Ordered := hread ▸ Ordered.run sep read
  have hmarked : t.Marked := hread ▸ marked_run marked_empty read
  have hmode := mode_of_outer hact
  have hcount : t.count = read.length := by
    rw [hread, run_count]
    exact Nat.zero_add _
  have hnone : (t.feed sep c).buf = none := by
    rw [show t.feed sep c = empty.run sep (read ++ [c]) by rw [run_concat, ← hread], ← outside_iff,
      outside_concat, ← run_mode, ← hread]
    exact hact
  have hpending : ∀ arg, (t.feed sep c).buf = some arg →
      ∃ before word, Pending sep (read ++ [c]) (t.feed sep c) arg before word := by
    intro arg harg
    rw [hnone] at harg
    cases harg
  cases hbuf : t.buf with
  | none =>
    have hstart : t.mode = .start := by
      rw [hread] at hbuf ⊢
      exact mode_of_none sep read hbuf
    have hnoted : t.noted.finish = t.noted := finish_of_none hbuf
    have hall : (t.feed sep c).all = t.all := by
      unfold Track.feed
      rcases outer_cases hact with hdoes | hdoes
      · rw [hdoes]
        calc (t.apply c .space).all = t.finish.all := rfl
          _ = t.all := congrArg Track.all (finish_of_none hbuf)
      · rw [hdoes]
        calc (t.apply c .line).all = t.noted.finish.all := all_endLine t.noted
          _ = t.noted.all := congrArg Track.all hnoted
          _ = t.all := rfl
    refine ⟨?_, ?_, hpending⟩
    · rw [hall]
      exact found_concat hordered hcount h.found c
    · intro _
      unfold Track.feed
      rcases outer_cases hact with hdoes | hdoes
      · rcases h.closed hbuf with hidx | hblank
        · left
          rw [hdoes]
          exact (congrArg Track.startIdx (finish_of_none hbuf)).trans hidx
        · exact Or.inr fun d hd => hblank d (List.mem_cons_of_mem _ hd)
      · -- The start stays noted here, and nothing may follow that it would be taken for.
        right
        rw [hstart] at hdoes
        apply htext.separator read c behind happend.symm _ hdoes
        rw [outside_iff, ← hread]
        exact hbuf
  | some arg =>
    obtain ⟨hfound, hidx⟩ := h.finish hmode (by rw [hbuf]; rfl)
    obtain ⟨before, word, hword⟩ := h.pending arg hbuf
    have hnoted := hword.noted hcount hmode
    have hfeed : (t.feed sep c).all = t.finish.all ∧ (t.feed sep c).startIdx = none := by
      unfold Track.feed
      rcases outer_cases hact with hdoes | hdoes
      · rw [hdoes]
        exact ⟨rfl, hidx⟩
      · have hline : (t.apply c .line).all = t.noted.finish.all := all_endLine t.noted
        have hlineIdx : (t.apply c .line).startIdx = t.noted.finish.startIdx := rfl
        rw [hdoes, hline, hlineIdx, hnoted]
        exact ⟨rfl, hidx⟩
    refine ⟨?_, fun _ => Or.inl hfeed.2, hpending⟩
    rw [hfeed.1]
    exact found_concat (hordered.finish hmarked) (by rw [finish_count, hcount]) hfound c

theorem Good.feed {text : List UInt8} (htext : Settled sep text) (happend : read ++ c :: behind = text)
    (hread : t = empty.run sep read) (h : Good sep read (c :: behind) t) :
    Good sep (read ++ [c]) behind (t.feed sep c) := by
  have hread' : t.feed sep c = empty.run sep (read ++ [c]) := by
    rw [run_concat, ← hread]
  have hordered : t.Ordered := hread ▸ Ordered.run sep read
  have hcount : t.count = read.length := by
    rw [hread, run_count]
    exact Nat.zero_add _
  by_cases hact : (act sep t.mode c).Outer
  · exact h.outer htext happend hread hact
  · refine ⟨?_, ?_, ?_⟩
    · rw [Track.feed, (all_apply hact).1]
      exact found_concat hordered hcount h.found c
    · intro hbuf
      rw [hread', ← outside_iff, outside_concat, ← run_mode, ← hread] at hbuf
      exact absurd hbuf hact
    · intro arg' harg
      cases hbuf : t.buf with
      | none =>
        have hmode : t.mode = .start := by
          rw [hread] at hbuf ⊢
          exact mode_of_none sep read hbuf
        rcases h.closed hbuf with hstart | hblank
        · exact ⟨read, [c], Pending.first hread hbuf hstart hact harg⟩
        · rw [hmode] at hact
          exact absurd (hblank c List.mem_cons_self) hact
      | some arg =>
        obtain ⟨before, word, hpending⟩ := h.pending arg hbuf
        exact ⟨before, word ++ [c], hpending.concat hread hbuf hact harg⟩

theorem good_run {text : List UInt8} (htext : Settled sep text) (read behind : List UInt8)
    (happend : read ++ behind = text) : Good sep read behind (empty.run sep read) := by
  induction read using List.reverseRecOn generalizing behind with
  | nil => exact ⟨nofun, fun _ => Or.inl rfl, nofun⟩
  | append_singleton read c ih =>
    rw [List.append_assoc, List.singleton_append] at happend
    rw [run_concat]
    exact (ih (c :: behind) happend).feed htext happend rfl

end Steps

/-! ## A start that is noted at a separator -/

section Stale

variable {s : ℕ}

/-- The start of the pending argument, or of one that is found. -/
def Kept (s : ℕ) (t : Track) : Prop :=
  (t.buf.isSome ∧ t.startIdx = some s) ∨ ∃ f ∈ t.all, f.start = s

theorem Kept.finish (h : t.Kept s) : ∃ f ∈ t.finish.all, f.start = s := by
  cases hbuf : t.buf with
  | none =>
    rw [finish_of_none hbuf]
    rcases h with ⟨hsome, -⟩ | h
    · rw [hbuf] at hsome
      cases hsome
    · exact h
  | some arg =>
    rcases h with ⟨-, hstart⟩ | ⟨f, hf, hstart⟩
    · rw [all_finish hbuf hstart]
      exact ⟨⟨arg, s, t.endIdx⟩, by simp, rfl⟩
    · refine ⟨f, ?_, hstart⟩
      unfold Track.finish
      rw [hbuf]
      rw [all_eq] at hf ⊢
      rcases List.mem_append.mp hf with hf | hf
      · exact List.mem_append_left _ hf
      · exact List.mem_append_right _ (List.mem_append_left _ hf)

theorem Kept.mark (h : t.Kept s) : t.mark.Kept s := by
  rcases h with ⟨hbuf, hstart⟩ | h
  · left
    refine ⟨hbuf, ?_⟩
    unfold Track.mark
    rw [hstart]
    rfl
  · exact Or.inr h

theorem Kept.apply (h : t.Kept s) (c : UInt8) (a : Act) : (t.apply c a).Kept s := by
  cases a with
  | space => exact Or.inr h.finish
  | line =>
    have hnoted : t.noted.Kept s := h.mark
    right
    rw [show (t.apply c .line).all = t.noted.finish.all from all_endLine t.noted]
    exact hnoted.finish
  | opens mode => exact h.mark.imp (fun hpending => ⟨rfl, hpending.2⟩) id
  | adds mode => exact h.mark.imp (fun hpending => ⟨rfl, hpending.2⟩) id
  | passes mode => exact h.mark

theorem Kept.run (h : t.Kept s) (text : List UInt8) : (t.run sep text).Kept s := by
  induction text generalizing t with
  | nil => exact h
  | cons c text ih => exact ih (h.apply c _)

/-- A separator or white space where no argument is pending keeps a start that is noted. -/
theorem idle_outer {a : Act} (hact : a.Outer) (hbuf : t.buf = none) (hstart : t.startIdx = some s) :
    (t.apply c a).buf = none ∧ (t.apply c a).startIdx = some s := by
  cases a with
  | space =>
    constructor
    · exact finish_buf t
    · exact (congrArg Track.startIdx (finish_of_none hbuf)).trans hstart
  | line =>
    have hnoted : t.noted.finish = t.noted := finish_of_none hbuf
    constructor
    · exact finish_buf t.noted
    · calc (t.apply c .line).startIdx = t.noted.finish.startIdx := rfl
        _ = t.noted.startIdx := congrArg Track.startIdx hnoted
        _ = some (t.startIdx.getD t.count) := rfl
        _ = some s := by rw [hstart]; rfl
  | opens mode => exact hact.elim
  | adds mode => exact hact.elim
  | passes mode => exact hact.elim

/-- The next argument is taken to begin at the start that is noted. -/
theorem kept_of_behind (hmode : t.mode = .start) (hbuf : t.buf = none) (hstart : t.startIdx = some s)
    {behind : List UInt8} {d : UInt8} (hd : d ∈ behind) (hact : ¬ (act sep .start d).Outer) :
    (t.run sep behind).Kept s := by
  induction behind generalizing t with
  | nil => cases hd
  | cons c behind ih =>
    rw [run_cons, feed, hmode]
    by_cases hc : (act sep .start c).Outer
    · have hne : d ≠ c := by
        rintro rfl
        exact hact hc
      obtain ⟨hbuf', hstart'⟩ := @idle_outer t c s _ hc hbuf hstart
      apply ih _ hbuf' hstart' ((List.mem_cons.mp hd).resolve_left hne)
      rw [apply_mode]
      rcases outer_cases hc with hdoes | hdoes
      · rw [hdoes]
        rfl
      · rw [hdoes]
        rfl
    · apply Kept.run
      left
      rw [startIdx_apply hc, hstart]
      refine ⟨?_, rfl⟩
      rcases act_cases sep .start c with ⟨-, hdoes | hdoes | hdoes | ⟨after, hdoes, -⟩⟩ | ⟨hmode, -⟩
      · rw [hdoes] at hc
        exact absurd trivial hc
      · rw [hdoes] at hc
        exact absurd trivial hc
      · rw [hdoes]
        rfl
      · rw [hdoes]
        rfl
      · exact absurd rfl hmode.1

/-- A start that is noted while no argument is pending is that of a separator. -/
theorem stale (sep : UInt8) (read : List UInt8) (hbuf : (empty.run sep read).buf = none) :
    ∀ s ∈ (empty.run sep read).startIdx, ∃ c ∈ read[s]?, act sep .start c = .line := by
  induction read using List.reverseRecOn with
  | nil => exact nofun
  | append_singleton read c ih =>
    intro s hs
    have hact : (act sep (empty.run sep read).mode c).Outer := by
      rw [run_mode, ← outside_concat, outside_iff]
      exact hbuf
    rw [run_concat, feed] at hs
    generalize ht : empty.run sep read = t at *
    have hcount : t.count = read.length := by
      rw [← ht, run_count]
      exact Nat.zero_add _
    have hlonger : ∀ r : ℕ, (∃ d ∈ read[r]?, act sep .start d = .line) →
        ∃ d ∈ (read ++ [c])[r]?, act sep .start d = .line := by
      rintro r ⟨d, hd, hline⟩
      refine ⟨d, ?_, hline⟩
      obtain ⟨hlt, -⟩ := List.getElem?_eq_some_iff.mp hd
      rw [List.getElem?_append_left hlt]
      exact hd
    cases hpending : t.buf with
    | some arg =>
      exfalso
      have hfinish : t.finish.startIdx = none := by
        unfold Track.finish
        rw [hpending]
      have hnoted : t.noted.finish.startIdx = none := by
        unfold Track.finish
        rw [show t.noted.buf = some arg from hpending]
      rcases outer_cases hact with hdoes | hdoes
      · rw [hdoes, show (t.apply c .space).startIdx = t.finish.startIdx from rfl, hfinish] at hs
        cases hs
      · rw [hdoes, show (t.apply c .line).startIdx = t.noted.finish.startIdx from rfl, hnoted] at hs
        cases hs
    | none =>
      cases hstart : t.startIdx with
      | some r =>
        obtain ⟨-, hkept⟩ := @idle_outer t c r _ hact hpending hstart
        rw [hkept] at hs
        cases hs
        exact hlonger _ (ih hpending _ hstart)
      | none =>
        have hmode : t.mode = .start := by
          rw [← ht] at hpending ⊢
          exact mode_of_none sep read hpending
        rcases outer_cases hact with hdoes | hdoes
        · rw [hdoes, show (t.apply c .space).startIdx = t.finish.startIdx from rfl,
            finish_of_none hpending, hstart] at hs
          cases hs
        · have hnoted : t.noted.finish = t.noted := finish_of_none hpending
          rw [hdoes, show (t.apply c .line).startIdx = t.noted.finish.startIdx from rfl, hnoted,
            show t.noted.startIdx = some (t.startIdx.getD t.count) from rfl, hstart, hcount] at hs
          cases hs
          rw [hmode] at hdoes
          exact ⟨c, by simp, hdoes⟩

end Stale

/-! ## What the parser returns -/

section Result

variable {str : List UInt8}

/-- The notes at the end of the text, with the last argument. -/
def final (sep : UInt8) (str : List UInt8) : Track := (empty.run sep (body str)).finish

theorem zero_notMem_body (str : List UInt8) : (0 : UInt8) ∉ body str := by
  intro hmem
  have hkept := List.mem_takeWhile_imp hmem
  simp at hkept

theorem lines_nil (text : List UInt8) : (empty.run 0 text).lines = [] := by
  induction text using List.reverseRecOn with
  | nil => rfl
  | append_singleton text c ih =>
    rw [run_concat, feed]
    cases hdoes : act 0 (empty.run 0 text).mode c with
    | space => exact (finish_lines _).trans ih
    | line => exact absurd rfl (sep_of_line hdoes)
    | opens mode => exact ih
    | adds mode => exact ih
    | passes mode => exact ih

theorem byLine_parseArgs (sep : UInt8) (str : List UInt8) :
    (parseArgs sep str).args.byLine = (final sep str).rows.map (List.map Found.arg) := by
  rw [parseArgs_eq_run]
  by_cases hsep : sep = 0
  · subst hsep
    have hlines : (final 0 str).lines = [] := (finish_lines _).trans (lines_nil _)
    rw [rows, hlines]
    rfl
  · dsimp only
    rw [if_neg hsep]
    rfl

theorem pos_parseArgs (sep : UInt8) (str : List UInt8) :
    (parseArgs sep str).pos = (final sep str).rows.map (List.map Found.pos) := by
  rw [parseArgs_eq_run]
  rfl

theorem flatten_pos (sep : UInt8) (str : List UInt8) :
    (parseArgs sep str).pos.flatten = (final sep str).all.map Found.pos := by
  rw [pos_parseArgs, all, List.map_flatten]

theorem ordered_final (sep : UInt8) (str : List UInt8) : (final sep str).Ordered :=
  (Ordered.run sep (body str)).finish (marked_run marked_empty _)

theorem inside_final {f : Found} (hf : f ∈ (final sep str).all) :
    f.start ≤ f.stop ∧ f.stop ≤ (body str).length := by
  have hcount : (final sep str).count = (body str).length := by
    rw [final, finish_count, run_count]
    exact Nat.zero_add _
  rw [← hcount]
  exact (ordered_final sep str).inside f hf

theorem slice_pos {f : Found} (hf : f ∈ (final sep str).all) :
    slice str f.pos = Track.cut (body str) f.start f.stop := by
  obtain ⟨hstart, hstop⟩ := inside_final hf
  have happend : body str ++ str.dropWhile (· != 0) = str := List.takeWhile_append_dropWhile
  have hlength : (((f.stop : Int) - f.start)).toNat = f.stop - f.start := by omega
  calc slice str f.pos = Track.cut str f.start f.stop := by
        unfold slice Track.cut Found.pos
        dsimp only
        rw [hlength, Int.toNat_natCast]
    _ = Track.cut (body str ++ str.dropWhile (· != 0)) f.start f.stop := by rw [happend]
    _ = Track.cut (body str) f.start f.stop := cut_append hstart hstop _

theorem zero_notMem_cut (str : List UInt8) (start stop : ℕ) :
    (0 : UInt8) ∉ Track.cut (body str) start stop := by
  intro hmem
  exact zero_notMem_body str (List.mem_of_mem_drop (List.mem_of_mem_take hmem))

/-- The text of each position is read as its argument, in terms of the notes. -/
theorem reparsed_iff (sep : UInt8) (str : List UInt8) :
    List.Forall₂ (List.Forall₂ fun arg pos =>
      (parseArgs sep (slice str pos)).args = oneArg sep arg)
      (parseArgs sep str).args.byLine (parseArgs sep str).pos ↔
    ∀ f ∈ (final sep str).all,
      (parseArgs sep (Track.cut (body str) f.start f.stop)).args = oneArg sep f.arg := by
  rw [byLine_parseArgs, pos_parseArgs, List.forall₂_map_left_iff, List.forall₂_map_right_iff,
    List.forall₂_same]
  have hrow : ∀ row : List Found,
      List.Forall₂ (fun arg pos => (parseArgs sep (slice str pos)).args = oneArg sep arg)
        (row.map Found.arg) (row.map Found.pos) ↔
      ∀ f ∈ row, (parseArgs sep (slice str f.pos)).args = oneArg sep f.arg := by
    intro row
    rw [List.forall₂_map_left_iff, List.forall₂_map_right_iff, List.forall₂_same]
  constructor
  · intro h f hf
    obtain ⟨row, hmem, hfrow⟩ := List.mem_flatten.mp hf
    rw [← slice_pos hf]
    exact (hrow row).mp (h row hmem) f hfrow
  · intro h row hmem
    rw [hrow]
    intro f hfrow
    have hf : f ∈ (final sep str).all := List.mem_flatten.mpr ⟨row, hmem, hfrow⟩
    rw [slice_pos hf]
    exact h f hf

/-- In a settled text every argument that is returned is a word. -/
theorem word_final (htext : Settled sep (body str)) {f : Found} (hf : f ∈ (final sep str).all) :
    Word sep (Track.cut (body str) f.start f.stop) f.arg := by
  have hgood := good_run htext (body str) [] (List.append_nil _)
  unfold final at hf
  cases hbuf : (empty.run sep (body str)).buf with
  | none =>
    rw [finish_of_none hbuf] at hf
    exact hgood.found f hf
  | some arg =>
    obtain ⟨before, word, hpending⟩ := hgood.pending arg hbuf
    rw [all_finish hbuf hpending.start] at hf
    rcases List.mem_append.mp hf with hf | hf
    · exact hgood.found f hf
    · obtain ⟨stop, hend, hstop⟩ := hpending.ends
      rw [List.mem_singleton.mp hf]
      dsimp only
      rw [hend, ← hpending.append, cut_word]
      rcases hstop with hstop | ⟨front, c, mode, happend, hstop, hopens, hfront | hfront⟩
      · rw [hstop, List.take_length]
        exact hpending.isWord
      · exfalso
        rw [hfront] at happend hopens
        apply htext.opener before c mode _ hpending.outside hopens
        rw [← hpending.append, ← happend]
        rfl
      · rw [hstop, ← happend, List.take_left]
        exact hfront

/-- An argument whose start is noted at a separator, or that has no text, is not read again. -/
theorem not_reparsed {f : Found} (hf : f ∈ (final sep str).all)
    (hstart : f.start = f.stop ∨ ∃ c ∈ (body str)[f.start]?, act sep .start c = .line) :
    ¬ PositionsSound sep str := by
  intro hsound
  have hread := (reparsed_iff sep str).mp hsound.reparsed f hf
  refine not_oneArg (zero_notMem_cut str _ _) ?_ f.arg hread
  intro c hc
  unfold Track.cut at hc
  rcases hstart with hempty | ⟨d, hd, hline⟩
  · rw [hempty, Nat.sub_self, List.take_zero] at hc
    cases hc
  · rw [List.head?_take] at hc
    split at hc
    · cases hc
    · rw [List.head?_drop, hd] at hc
      rw [← Option.some.inj hc]
      exact hline

theorem settled_of_positionsSound (h : PositionsSound sep str) : Settled sep (body str) := by
  constructor
  · intro before c behind happend houtside hline d hd
    by_contra hact
    have hbuf := (outside_iff sep before).mp houtside
    have hmode := mode_of_none sep before hbuf
    have hfeed : (empty.run sep (before ++ [c])) = (empty.run sep before).apply c .line := by
      rw [run_concat, feed, hmode, hline]
    have hnone : (empty.run sep (before ++ [c])).buf = none := by
      rw [hfeed]
      exact finish_buf (empty.run sep before).noted
    obtain ⟨s, hs⟩ : ∃ s, (empty.run sep (before ++ [c])).startIdx = some s := by
      refine ⟨(empty.run sep before).startIdx.getD (empty.run sep before).count, ?_⟩
      have hnoted : (empty.run sep before).noted.finish = (empty.run sep before).noted :=
        finish_of_none hbuf
      rw [hfeed]
      exact congrArg Track.startIdx hnoted
    have hkept : (empty.run sep (body str)).Kept s := by
      have hsplit : body str = (before ++ [c]) ++ behind := by
        rw [happend, List.append_assoc, List.singleton_append]
      rw [hsplit, run_append]
      exact kept_of_behind (mode_of_none sep _ hnone) hnone hs hd hact
    obtain ⟨f, hf, hstart⟩ := hkept.finish
    apply not_reparsed hf _ h
    right
    obtain ⟨e, he, hsep⟩ := stale sep (before ++ [c]) hnone s hs
    refine ⟨e, ?_, hsep⟩
    obtain ⟨hlt, -⟩ := List.getElem?_eq_some_iff.mp he
    rw [hstart, happend, ← List.singleton_append, ← List.append_assoc, List.getElem?_append_left hlt]
    exact he
  · intro before c mode happend houtside hopens
    have hbuf := (outside_iff sep before).mp houtside
    have hmode := mode_of_none sep before hbuf
    have hcount : (empty.run sep before).count = before.length := by
      rw [run_count]
      exact Nat.zero_add _
    have hrun : empty.run sep (body str) = (empty.run sep before).apply c (.opens mode) := by
      rw [happend, run_concat, feed, hmode, hopens]
    obtain ⟨f, hf, hstart, hstop⟩ : ∃ f ∈ (final sep str).all,
        f.start = (empty.run sep before).startIdx.getD before.length ∧ f.stop = before.length := by
      refine ⟨⟨[], _, _⟩, ?_, rfl, rfl⟩
      have hsome : (empty.run sep (body str)).buf = some [] := by
        rw [hrun]
        exact congrArg (fun buf => some (buf.getD [])) hbuf
      have hnoted : (empty.run sep (body str)).startIdx =
          some ((empty.run sep before).startIdx.getD before.length) := by
        rw [hrun, ← hcount]
        rfl
      have hend : (empty.run sep (body str)).endIdx = before.length := by
        rw [hrun, ← hcount]
        rfl
      rw [final, all_finish hsome hnoted, hend]
      exact List.mem_append_right _ (List.mem_singleton.mpr rfl)
    apply not_reparsed hf _ h
    cases hidx : (empty.run sep before).startIdx with
    | none =>
      left
      rw [hstart, hstop, hidx]
      rfl
    | some s =>
      right
      obtain ⟨e, he, hsep⟩ := stale sep before hbuf s hidx
      refine ⟨e, ?_, hsep⟩
      obtain ⟨hlt, -⟩ := List.getElem?_eq_some_iff.mp he
      rw [hstart, hidx, happend, Option.getD_some, List.getElem?_append_left hlt]
      exact he

end Result

end Track

open Track

/-- The positions are sound exactly for a line whose text is settled. -/
theorem positionsSound_iff (sep : UInt8) (str : List UInt8) :
    PositionsSound sep str ↔ Settled sep (body str) := by
  constructor
  · exact settled_of_positionsSound
  · intro htext
    refine ⟨?_, ?_, ?_⟩
    · intro pos hpos
      rw [flatten_pos] at hpos
      obtain ⟨f, hf, rfl⟩ := List.mem_map.mp hpos
      obtain ⟨hstart, hstop⟩ := inside_final hf
      have hbody : (body str).length ≤ str.length := (List.takeWhile_sublist _).length_le
      unfold Found.pos
      dsimp only
      omega
    · rw [flatten_pos, List.pairwise_map]
      apply (ordered_final sep str).pairwise.imp
      intro f g hle
      exact Int.ofNat_le.mpr hle
    · rw [reparsed_iff]
      intro f hf
      exact (word_final htext hf).args (zero_notMem_cut str _ _)

/-- The argument of the second line of `; abc` is said to begin at the separator. -/
theorem not_positionsSound_separator : ¬ PositionsSound 59 [59, 32, 97, 98, 99] := by
  intro h
  have hline : act 59 .start 59 = .line := by decide
  have hplain : act 59 .start 97 = .adds .plain := by decide
  have houter := (settled_of_positionsSound h).separator [] 59 [32, 97, 98, 99] rfl outside_nil
    hline 97 (by decide)
  rw [hplain] at houter
  exact houter

end OpenWrt.Uline
