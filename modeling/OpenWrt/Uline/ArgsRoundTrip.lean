/-
# Reading an escaped argument back

Within single quotes every byte stands for itself, and the escaper replaces the only
one that does not: what it writes in that style is read back. In double quotes, and
without quotes, the parser treats a backslash as an escape, and the escaper leaves it as
it is. Whether an escaped string is read back is therefore decided by the backslashes
in it and, where nothing makes the escaper quote, by the white space it overlooks.
-/

import OpenWrt.Uline.ArgsBytes
import Mathlib.Tactic.Tauto

namespace OpenWrt.Uline

open Scan

/-- The default parser makes of the escaped string the one argument it came from. -/
def ReadsBack (ref : UInt8) (str : List UInt8) : Prop :=
  (parseArgs 0 (escape ref str)).args = .flat [str] ∧
    (parseArgs 0 (escape ref str)).missing = none

/-- When it does: in single quotes always, in double quotes without a backslash, and
without quotes where the string is also not empty, has no carriage return and does not
begin with white space. -/
def Denotes (ref : UInt8) (str : List UInt8) : Prop :=
  ref = singleQuote ∨
    backslash ∉ str ∧
      (ref = doubleQuote ∨ str.any needsQuote = true ∨
        str ≠ [] ∧ carriageReturn ∉ str ∧ ∀ c ∈ str.head?, isSpace c = false)

/-! ## What the escaper writes -/

def quoted (ref : UInt8) (str : List UInt8) : List UInt8 :=
  ref :: (escapeBody ref str ++ [ref])

theorem escape_singleQuote (str : List UInt8) :
    escape singleQuote str = quoted singleQuote str := by
  simp [escape, quoted]

variable {str : List UInt8}

theorem escape_doubleQuote {ref : UInt8} (hsingle : ref ≠ singleQuote)
    (h : ref = doubleQuote ∨ str.any needsQuote = true) :
    escape ref str = quoted doubleQuote str := by
  by_cases href : ref = doubleQuote
  · subst href
    simp [escape, quoted]
  · have hany : str.any needsQuote = true := h.resolve_left href
    simp [escape, quoted, href, hsingle, hany]

theorem escape_plain {ref : UInt8} (hsingle : ref ≠ singleQuote) (hdouble : ref ≠ doubleQuote)
    (h : str.any needsQuote = false) : escape ref str = str := by
  simp [escape, hsingle, hdouble, h]

theorem mem_escapeBody {ref c : UInt8} (h : c ∈ escapeBody ref str) :
    c ∈ str ∨ c = singleQuote ∨ c = doubleQuote ∨ c = backslash := by
  induction str with
  | nil => exact nomatch h
  | cons d rest ih =>
    unfold escapeBody at h
    split at h
    case isTrue =>
      rcases List.mem_append.mp h with hhead | hrest
      · right
        split at hhead <;> simp at hhead <;> tauto
      · exact (ih hrest).imp_left (List.mem_cons_of_mem _)
    case isFalse =>
      rcases List.mem_cons.mp h with rfl | hrest
      · exact .inl (List.mem_cons_self ..)
      · exact (ih hrest).imp_left (List.mem_cons_of_mem _)

/-- The escaper adds no zero byte. -/
theorem zero_notMem_escape (ref : UInt8) (h : (0 : UInt8) ∉ str) :
    (0 : UInt8) ∉ escape ref str := by
  have hquoted : ∀ q : UInt8, q = singleQuote ∨ q = doubleQuote → (0 : UInt8) ∉ quoted q str := by
    intro q hq hmem
    simp only [quoted, List.mem_cons, List.mem_append, List.not_mem_nil, or_false] at hmem
    rcases hmem with h0 | hbody | h0
    · rcases hq with rfl | rfl <;> exact absurd h0 (by decide)
    · rcases mem_escapeBody hbody with hin | h0 | h0 | h0
      · exact h hin
      · exact absurd h0 (by decide)
      · exact absurd h0 (by decide)
      · exact absurd h0 (by decide)
    · rcases hq with rfl | rfl <;> exact absurd h0 (by decide)
  by_cases hsingle : ref = singleQuote
  · subst hsingle
    rw [escape_singleQuote]
    exact hquoted _ (.inl rfl)
  by_cases hdouble : ref = doubleQuote ∨ str.any needsQuote = true
  · rw [escape_doubleQuote hsingle hdouble]
    exact hquoted _ (.inr rfl)
  · rw [escape_plain hsingle (fun h => hdouble (.inl h))
      (by simpa using fun h => hdouble (.inr h))]
    exact h

/-! ## What is read back -/

/-- In single quotes a quote is written by leaving them, and any other byte as it is. -/
theorem run_escapeBody_single (list : List (List UInt8)) :
    ∀ (str buf : List UInt8),
      Scan.run ⟨.singleQuote, some buf, list⟩ (escapeBody singleQuote str) =
        ⟨.singleQuote, some (buf ++ str), list⟩
  | [], buf => by simp [escapeBody]
  | c :: rest, buf => by
      have ih := run_escapeBody_single list rest (buf ++ [c])
      rw [List.append_assoc, List.singleton_append] at ih
      by_cases hc : c = singleQuote
      · subst hc
        rw [escapeBody, if_pos rfl, if_pos rfl, run_append, ← ih]
        rfl
      · have hfeed : Scan.feed ⟨.singleQuote, some buf, list⟩ c =
            ⟨.singleQuote, some (buf ++ [c]), list⟩ := by
          simp [feed, hc, add]
        rw [escapeBody, if_neg hc, run_cons, hfeed, ih]

/-- In double quotes that holds of the bytes that are no backslash. -/
theorem run_escapeBody_double (list : List (List UInt8)) :
    ∀ (str buf : List UInt8), backslash ∉ str →
      Scan.run ⟨.doubleQuote, some buf, list⟩ (escapeBody doubleQuote str) =
        ⟨.doubleQuote, some (buf ++ str), list⟩
  | [], buf, _ => by simp [escapeBody]
  | c :: rest, buf, hnot => by
      have hc' : c ≠ backslash := fun h => hnot (h ▸ List.mem_cons_self ..)
      have ih := run_escapeBody_double list rest (buf ++ [c])
        fun hmem => hnot (List.mem_cons_of_mem _ hmem)
      rw [List.append_assoc, List.singleton_append] at ih
      by_cases hc : c = doubleQuote
      · subst hc
        rw [escapeBody, if_pos rfl, if_neg (by decide), run_append, ← ih]
        rfl
      · have hfeed : Scan.feed ⟨.doubleQuote, some buf, list⟩ c =
            ⟨.doubleQuote, some (buf ++ [c]), list⟩ := by
          simp [feed, hc, hc', add]
        rw [escapeBody, if_neg hc, run_cons, hfeed, ih]

theorem run_quoted_single (str : List UInt8) :
    Scan.empty.run (quoted singleQuote str) = ⟨.start, some str, []⟩ := by
  have hbody := run_escapeBody_single [] str []
  have hopen : Scan.feed Scan.empty singleQuote = ⟨.singleQuote, some [], []⟩ := rfl
  rw [quoted, run_cons, hopen, run_append, hbody]
  rfl

theorem run_quoted_double (hnot : backslash ∉ str) :
    Scan.empty.run (quoted doubleQuote str) = ⟨.start, some str, []⟩ := by
  have hbody := run_escapeBody_double [] str [] hnot
  have hopen : Scan.feed Scan.empty doubleQuote = ⟨.doubleQuote, some [], []⟩ := rfl
  rw [quoted, run_cons, hopen, run_append, hbody]
  rfl

theorem run_unquoted (hne : str ≠ []) (hany : str.any needsQuote = false) (hback : backslash ∉ str)
    (hreturn : carriageReturn ∉ str) (hhead : ∀ c ∈ str.head?, isSpace c = false) :
    Scan.empty.run str = ⟨.plain, some str, []⟩ := by
  cases str with
  | nil => exact absurd rfl hne
  | cons c rest =>
    have hplain : ∀ d ∈ c :: rest, isUnquoteTok 0 d = false := by
      intro d hd
      have hquote : needsQuote d = false := by
        simpa using List.any_eq_false.mp hany d hd
      have h1 : d ≠ backslash := fun h => hback (h ▸ hd)
      have h2 : d ≠ carriageReturn := fun h => hreturn (h ▸ hd)
      simp only [needsQuote, List.contains_cons, List.contains_nil, Bool.or_eq_false_iff,
        beq_eq_false_iff_ne] at hquote
      simp [isUnquoteTok, hquote, h1, h2]
    rw [show Scan.empty = ⟨.start, none, []⟩ from rfl,
      run_start none [] (hhead c rfl) hplain]
    simp [ArgParse.addStr]

/-! ## What the parser can produce -/

/-- All the bytes of the arguments. -/
def produced (s : Scan) : List UInt8 :=
  s.list.flatten ++ s.buf.getD []

@[simp] theorem produced_go (s : Scan) (mode : Mode) : produced (s.go mode) = produced s := rfl

@[simp] theorem produced_openWith (s : Scan) (mode : Mode) :
    produced (s.openWith mode) = produced s := rfl

@[simp] theorem produced_add (s : Scan) (mode : Mode) (c : UInt8) :
    produced (s.add mode c) = produced s ++ [c] :=
  (List.append_assoc ..).symm

@[simp] theorem produced_finish (s : Scan) : produced s.finish = produced s := by
  obtain ⟨mode, buf, list⟩ := s
  cases buf <;> simp [produced, finish]

theorem produced_of_single {s : Scan} (h : s.finish.list = [str]) : produced s = str := by
  rw [← produced_finish, produced, h]
  simp [finish]

/-- An escape that has been begun. -/
def Mode.pending : Mode → ℕ
  | .backslash => 1
  | .doubleQuoteBackslash => 1
  | _ => 0

/-- What the quotes and backslashes of a text allow the parser to produce. Outside of single
quotes a double quote costs a backslash and a backslash two; within them both are free,
but entering and leaving them costs two single quotes that are not produced. -/
def Within (quotes escapes : ℕ) (s : Scan) (rest : List UInt8) : Prop :=
  if s.mode = .singleQuote then
    (produced s).count singleQuote + rest.count singleQuote + 1 ≤ quotes
  else
    (produced s).count singleQuote + rest.count singleQuote + 2 ≤ quotes ∨
      (produced s).count singleQuote + rest.count singleQuote ≤ quotes ∧
        2 * (produced s).count backslash + (produced s).count doubleQuote +
          rest.count backslash + s.mode.pending ≤ escapes

theorem count_cons_eq (x c : UInt8) (rest : List UInt8) :
    (c :: rest).count x = [c].count x + rest.count x := by
  rw [← List.count_append, List.singleton_append]

section

variable {quotes escapes : ℕ} {s s' : Scan} {c : UInt8} {rest : List UInt8}

/-- A byte that is not produced: it may begin an escape, if it is a backslash. -/
theorem within_drop (hs : s.mode ≠ .singleQuote) (hs' : s'.mode ≠ .singleQuote)
    (hproduced : produced s' = produced s)
    (hpending : s'.mode.pending ≤ s.mode.pending + [c].count backslash)
    (h : Within quotes escapes s (c :: rest)) : Within quotes escapes s' rest := by
  unfold Within at h ⊢
  rw [if_neg hs, count_cons_eq singleQuote, count_cons_eq backslash] at h
  rw [if_neg hs', hproduced]
  rcases h with h | ⟨h, hescape⟩
  · left
    omega
  · right
    constructor <;> omega

/-- A byte that is produced outside of single quotes, and paid for by what comes before. -/
theorem within_add (hs : s.mode ≠ .singleQuote) (hs' : s'.mode ≠ .singleQuote)
    (hproduced : produced s' = produced s ++ [c])
    (hcost : 2 * [c].count backslash + [c].count doubleQuote + s'.mode.pending ≤
      [c].count backslash + s.mode.pending)
    (h : Within quotes escapes s (c :: rest)) : Within quotes escapes s' rest := by
  unfold Within at h ⊢
  rw [if_neg hs, count_cons_eq singleQuote, count_cons_eq backslash] at h
  rw [if_neg hs', hproduced, List.count_append, List.count_append, List.count_append]
  rcases h with h | ⟨h, hescape⟩
  · left
    omega
  · right
    constructor <;> omega

theorem within_enter (hs : s.mode ≠ .singleQuote) (hs' : s'.mode = .singleQuote)
    (hproduced : produced s' = produced s)
    (h : Within quotes escapes s (singleQuote :: rest)) : Within quotes escapes s' rest := by
  unfold Within at h ⊢
  rw [if_neg hs, count_cons_eq singleQuote, List.count_singleton_self] at h
  rw [if_pos hs', hproduced]
  omega

theorem within_leave (hs : s.mode = .singleQuote) (hs' : s'.mode ≠ .singleQuote)
    (hproduced : produced s' = produced s)
    (h : Within quotes escapes s (singleQuote :: rest)) : Within quotes escapes s' rest := by
  unfold Within at h ⊢
  rw [if_pos hs, count_cons_eq singleQuote, List.count_singleton_self] at h
  rw [if_neg hs', hproduced]
  left
  omega

theorem within_stay (hs : s.mode = .singleQuote) (hs' : s'.mode = .singleQuote)
    (hproduced : produced s' = produced s ++ [c])
    (h : Within quotes escapes s (c :: rest)) : Within quotes escapes s' rest := by
  unfold Within at h ⊢
  rw [if_pos hs, count_cons_eq singleQuote] at h
  rw [if_pos hs', hproduced, List.count_append]
  omega

theorem within_feedPlain (hmode : s.mode = .start ∨ s.mode = .plain)
    (h : Within quotes escapes s (c :: rest)) : Within quotes escapes (s.feedPlain c) rest := by
  have hs : s.mode ≠ .singleQuote := by
    rcases hmode with hmode | hmode <;> rw [hmode] <;> decide
  unfold feedPlain
  split
  case isTrue hc =>
    subst hc
    exact within_enter hs rfl rfl h
  split
  case isTrue hc =>
    subst hc
    exact within_drop hs (fun h => nomatch h) rfl (Nat.zero_le _) h
  split
  case isTrue hc =>
    subst hc
    exact within_drop hs (fun h => nomatch h) rfl (Nat.le_add_left _ _) h
  case isFalse h1 h2 h3 =>
    refine within_add hs (fun h => nomatch h) (produced_add ..) ?_ h
    have hb : [c].count backslash = 0 := List.count_singleton.trans (by simp [h3])
    have hd : [c].count doubleQuote = 0 := List.count_singleton.trans (by simp [h2])
    simp [hb, hd, add, Mode.pending]

/-- The byte after a backslash is paid for by it. -/
theorem within_escaped {mode : Mode} (hs : s.mode.pending = 1) (hmode : mode.pending = 0)
    (hsingle : mode ≠ .singleQuote) (h : Within quotes escapes s (c :: rest)) :
    Within quotes escapes (if c = newline then s.go mode else s.add mode c) rest := by
  have hs' : s.mode ≠ .singleQuote := by
    intro h
    rw [h] at hs
    exact Nat.zero_ne_one hs
  split
  case isTrue =>
    refine within_drop hs' hsingle rfl ?_ h
    rw [show (s.go mode).mode = mode from rfl, hmode]
    exact Nat.zero_le _
  case isFalse =>
    refine within_add hs' hsingle (produced_add ..) ?_ h
    rw [show (s.add mode c).mode = mode from rfl, hmode, hs]
    have hcount : [c].count backslash + [c].count doubleQuote ≤ 1 := by
      by_cases hc : c = backslash
      · subst hc
        decide
      · have hb : [c].count backslash = 0 := List.count_singleton.trans (by simp [hc])
        rw [hb, Nat.zero_add]
        exact List.count_le_length
    omega

theorem within_feed (h : Within quotes escapes s (c :: rest)) :
    Within quotes escapes (s.feed c) rest := by
  unfold feed
  cases hmode : s.mode with
  | start =>
    dsimp only
    split
    case isTrue =>
      exact within_drop (by simp [hmode]) (fun h => nomatch h) (produced_finish s)
        (Nat.zero_le _) h
    case isFalse => exact within_feedPlain (.inl hmode) h
  | plain =>
    dsimp only
    split
    case isTrue =>
      exact within_drop (by simp [hmode]) (fun h => nomatch h) (produced_finish s)
        (Nat.zero_le _) h
    case isFalse => exact within_feedPlain (.inr hmode) h
  | backslash => exact within_escaped (by simp [hmode, Mode.pending]) rfl (by decide) h
  | doubleQuoteBackslash =>
    exact within_escaped (by simp [hmode, Mode.pending]) rfl (by decide) h
  | singleQuote =>
    dsimp only
    split
    case isTrue hc =>
      subst hc
      exact within_leave hmode (fun h => nomatch h) rfl h
    case isFalse => exact within_stay hmode rfl (produced_add ..) h
  | doubleQuote =>
    dsimp only
    split
    case isTrue =>
      exact within_drop (by simp [hmode]) (fun h => nomatch h) (produced_go s _)
        (Nat.zero_le _) h
    split
    case isTrue hc =>
      subst hc
      exact within_drop (by simp [hmode]) (fun h => nomatch h) (produced_go s _)
        (Nat.le_add_left _ _) h
    case isFalse h1 h2 =>
      refine within_add (by simp [hmode]) (fun h => nomatch h) (produced_add ..) ?_ h
      have hb : [c].count backslash = 0 := List.count_singleton.trans (by simp [h2])
      have hd : [c].count doubleQuote = 0 := List.count_singleton.trans (by simp [h1])
      simp [hb, hd, add, Mode.pending]

end

theorem within_run {quotes escapes : ℕ} {s : Scan} {text : List UInt8}
    (h : Within quotes escapes s text) : Within quotes escapes (s.run text) [] := by
  induction text generalizing s with
  | nil => exact h
  | cons c rest ih => exact ih (within_feed h)

/-- Where the text has the quotes of the argument it is read back to, every backslash in the
argument took two of the text and every double quote one. -/
theorem escapes_of_run {text str : List UInt8} (hlist : (Scan.empty.run text).finish.list = [str])
    (hmissing : (Scan.empty.run text).mode.state.missing = none)
    (hquotes : text.count singleQuote = str.count singleQuote) :
    2 * str.count backslash + str.count doubleQuote ≤ text.count backslash := by
  have hinit : Within (text.count singleQuote) (text.count backslash) Scan.empty text := by
    unfold Within
    rw [if_neg (by decide)]
    right
    simp [produced, Scan.empty, Mode.pending]
  have hend := within_run hinit
  have hmode : (Scan.empty.run text).mode ≠ .singleQuote := by
    intro h
    rw [h] at hmissing
    exact nomatch hmissing
  unfold Within at hend
  rw [if_neg hmode, produced_of_single hlist, hquotes] at hend
  simp only [List.count_nil, Nat.add_zero] at hend
  rcases hend with hend | ⟨-, hend⟩
  · omega
  · omega

theorem length_produced_feed (s : Scan) (c : UInt8) :
    (produced (s.feed c)).length ≤ (produced s).length + 1 := by
  unfold feed feedPlain
  split <;> repeat' split
  all_goals simp

theorem length_produced_run (s : Scan) (text : List UInt8) :
    (produced (s.run text)).length ≤ (produced s).length + text.length := by
  induction text generalizing s with
  | nil => exact Nat.le_refl _
  | cons c rest ih =>
    have hstep := length_produced_feed s c
    have hrest := ih (s.feed c)
    rw [run_cons, List.length_cons]
    omega

/-- Without quotes and backslashes a carriage return is white space wherever it stands. -/
theorem return_notMem_run (text : List UInt8)
    (hplain : ∀ c ∈ text, c ≠ singleQuote ∧ c ≠ doubleQuote ∧ c ≠ backslash) (s : Scan)
    (hmode : s.mode = .start ∨ s.mode = .plain) (h : carriageReturn ∉ produced s) :
    carriageReturn ∉ produced (s.run text) := by
  induction text generalizing s with
  | nil => exact h
  | cons c rest ih =>
    have hrest : ∀ d ∈ rest, d ≠ singleQuote ∧ d ≠ doubleQuote ∧ d ≠ backslash :=
      fun d hd => hplain d (List.mem_cons_of_mem _ hd)
    obtain ⟨h1, h2, h3⟩ := hplain c (List.mem_cons_self ..)
    have hadd : s.feedPlain c = s.add .plain c := by simp [feedPlain, h1, h2, h3]
    have hadded : c ≠ carriageReturn → carriageReturn ∉ produced (s.add .plain c) := by
      intro hc hmem
      rw [produced_add] at hmem
      rcases List.mem_append.mp hmem with hmem | hmem
      · exact h hmem
      · exact hc (List.mem_singleton.mp hmem).symm
    rw [run_cons]
    rcases hmode with hmode | hmode
    · by_cases hspace : isSpace c = true
      · have hfeed : s.feed c = s.finish := by simp [feed, hmode, hspace]
        rw [hfeed]
        exact ih hrest _ (.inl rfl) (by rwa [produced_finish])
      · have hfeed : s.feed c = s.add .plain c := by simp [feed, hmode, hspace, hadd]
        rw [hfeed]
        refine ih hrest _ (.inr rfl) (hadded ?_)
        rintro rfl
        exact hspace rfl
    · by_cases hbreak : isBreak c = true
      · have hfeed : s.feed c = s.finish := by simp [feed, hmode, hbreak]
        rw [hfeed]
        exact ih hrest _ (.inl rfl) (by rwa [produced_finish])
      · have hfeed : s.feed c = s.add .plain c := by simp [feed, hmode, hbreak, hadd]
        rw [hfeed]
        refine ih hrest _ (.inr rfl) (hadded ?_)
        rintro rfl
        exact hbreak rfl

/-! ## The round trip -/

theorem count_escapeBody_double (str : List UInt8) :
    (escapeBody doubleQuote str).count singleQuote = str.count singleQuote ∧
      (escapeBody doubleQuote str).count backslash =
        str.count backslash + str.count doubleQuote := by
  induction str with
  | nil => exact ⟨rfl, rfl⟩
  | cons c rest ih =>
    obtain ⟨hsingle, hback⟩ := ih
    by_cases hc : c = doubleQuote
    · subst hc
      rw [escapeBody, if_pos rfl, if_neg (by decide)]
      rw [List.cons_append, List.singleton_append]
      constructor
      · rw [List.count_cons_of_ne (by decide), List.count_cons_of_ne (by decide),
          List.count_cons_of_ne (by decide), hsingle]
      · rw [List.count_cons_self, List.count_cons_of_ne (by decide), hback,
          List.count_cons_of_ne (by decide), List.count_cons_self]
        omega
    · rw [escapeBody, if_neg hc]
      have hd : (c :: rest).count doubleQuote = rest.count doubleQuote :=
        List.count_cons_of_ne hc
      constructor
      · rw [List.count_cons, List.count_cons, hsingle]
      · rw [hd, List.count_cons, List.count_cons, hback]
        omega

theorem backslash_notMem_of_quoted {str : List UInt8}
    (hlist : (Scan.empty.run (quoted doubleQuote str)).finish.list = [str])
    (hmissing : (Scan.empty.run (quoted doubleQuote str)).mode.state.missing = none) :
    backslash ∉ str := by
  obtain ⟨hsingle, hback⟩ := count_escapeBody_double str
  have hquotes : (quoted doubleQuote str).count singleQuote = str.count singleQuote := by
    rw [quoted, List.count_cons_of_ne (by decide), List.count_append, hsingle]
    rfl
  have hbound := escapes_of_run hlist hmissing hquotes
  have hcount : (quoted doubleQuote str).count backslash =
      str.count backslash + str.count doubleQuote := by
    rw [quoted, List.count_cons_of_ne (by decide), List.count_append, hback]
    rfl
  rw [hcount] at hbound
  exact List.count_eq_zero.mp (by omega)

/-- What is read back where the escaper does not quote. -/
theorem plain_of_run {str : List UInt8} (hany : str.any needsQuote = false)
    (hlist : (Scan.empty.run str).finish.list = [str])
    (hmissing : (Scan.empty.run str).mode.state.missing = none) :
    backslash ∉ str ∧ str ≠ [] ∧ carriageReturn ∉ str ∧
      ∀ c ∈ str.head?, isSpace c = false := by
  have hback : backslash ∉ str := by
    have hbound := escapes_of_run hlist hmissing rfl
    exact List.count_eq_zero.mp (by omega)
  have hplain : ∀ c ∈ str, c ≠ singleQuote ∧ c ≠ doubleQuote ∧ c ≠ backslash := by
    intro c hc
    have hquote : needsQuote c = false := by simpa using List.any_eq_false.mp hany c hc
    refine ⟨?_, ?_, fun h => hback (h ▸ hc)⟩
    · rintro rfl
      exact absurd hquote (by decide)
    · rintro rfl
      exact absurd hquote (by decide)
  refine ⟨hback, ?_, ?_, ?_⟩
  · rintro rfl
    exact nomatch hlist
  · have hnot := return_notMem_run str hplain Scan.empty (.inl rfl) (by simp [produced, Scan.empty])
    rwa [produced_of_single hlist] at hnot
  · -- White space at the beginning is dropped, and what is left is too short.
    intro c hc
    cases hspace : isSpace c with
    | false => rfl
    | true =>
      exfalso
      obtain ⟨rest, rfl⟩ : ∃ rest, str = c :: rest := by
        cases str with
        | nil => exact nomatch hc
        | cons d rest => exact ⟨rest, by rw [Option.some.inj hc]⟩
      have hfirst : Scan.empty.feed c = Scan.empty := by
        simp [Scan.empty, feed, hspace, finish]
      have hlength := length_produced_run Scan.empty rest
      have hproduced := produced_of_single hlist
      rw [run_cons, hfirst] at hproduced
      rw [hproduced] at hlength
      rw [List.length_cons] at hlength
      have hnone : (produced Scan.empty).length = 0 := rfl
      omega

/-- The escaped form of a string is read back just when it `Denotes` the string. -/
theorem escape_reads_iff (ref : UInt8) (str : List UInt8) (hzero : (0 : UInt8) ∉ str) :
    ReadsBack ref str ↔ Denotes ref str := by
  obtain ⟨hargs, hmissing⟩ := parseArgs_eq_run (zero_notMem_escape ref hzero)
  have hreads : ReadsBack ref str ↔ (Scan.empty.run (escape ref str)).finish.list = [str] ∧
      (Scan.empty.run (escape ref str)).mode.state.missing = none := by
    unfold ReadsBack
    rw [hargs, hmissing, Args.flat.injEq]
  rw [hreads]
  by_cases hsingle : ref = singleQuote
  · subst hsingle
    rw [escape_singleQuote, run_quoted_single]
    exact ⟨fun _ => .inl rfl, fun _ => ⟨rfl, rfl⟩⟩
  by_cases hdouble : ref = doubleQuote ∨ str.any needsQuote = true
  · rw [escape_doubleQuote hsingle hdouble]
    constructor
    · rintro ⟨hlist, hnone⟩
      exact .inr ⟨backslash_notMem_of_quoted hlist hnone, hdouble.imp_right .inl⟩
    · rintro (h | ⟨hback, -⟩)
      · exact absurd h hsingle
      · rw [run_quoted_double hback]
        exact ⟨rfl, rfl⟩
  · obtain ⟨hnotDouble, hnotAny⟩ := not_or.mp hdouble
    have hany : str.any needsQuote = false := by simpa using hnotAny
    rw [escape_plain hsingle hnotDouble hany]
    constructor
    · rintro ⟨hlist, hnone⟩
      obtain ⟨hback, hrest⟩ := plain_of_run hany hlist hnone
      exact .inr ⟨hback, .inr (.inr hrest)⟩
    · rintro (h | ⟨hback, h | h | ⟨hne, hreturn, hhead⟩⟩)
      · exact absurd h hsingle
      · exact absurd h hnotDouble
      · exact absurd h hnotAny
      · rw [run_unquoted hne hany hback hreturn hhead]
        exact ⟨rfl, rfl⟩

/-- `a b` without a reference quote. -/
theorem escape_reads_of_space :
    ReadsBack 0 [97, space, 98] :=
  (escape_reads_iff 0 [97, space, 98] (by decide)).mpr
    (.inr ⟨by decide, .inr (.inl (by decide))⟩)

/-- The string `a\b` without a reference quote is inserted as it is and read as `ab`. -/
theorem not_escape_reads_of_backslash :
    ¬ ∀ (ref : UInt8) (str : List UInt8), (0 : UInt8) ∉ str → ReadsBack ref str := by
  intro h
  have hzero : (0 : UInt8) ∉ [97, backslash, 98] := by decide
  have hreads := h 0 [97, backslash, 98] hzero
  obtain ⟨hargs, -⟩ := parseArgs_eq_run hzero
  have hescape : escape 0 [97, backslash, 98] = [97, backslash, 98] := by decide
  rw [ReadsBack, hescape, hargs] at hreads
  exact absurd (Args.flat.inj hreads.1) (by decide)

/-! ## Lines of escaped arguments -/

/-- Arguments that are finished already do not matter. -/
theorem run_prefix (l : List (List UInt8)) (s : Scan) (text : List UInt8) :
    Scan.run ⟨s.mode, s.buf, l ++ s.list⟩ text =
      ⟨(s.run text).mode, (s.run text).buf, l ++ (s.run text).list⟩ := by
  induction text generalizing s with
  | nil => rfl
  | cons c rest ih =>
    have hfeed : Scan.feed ⟨s.mode, s.buf, l ++ s.list⟩ c =
        ⟨(s.feed c).mode, (s.feed c).buf, l ++ (s.feed c).list⟩ := by
      unfold feed feedPlain
      cases s.mode <;> dsimp only <;> split_ifs <;> simp [go, add, openWith, finish]
    rw [run_cons, hfeed, ih, run_cons]

theorem run_escape_space {ref : UInt8} {str : List UInt8} (hzero : (0 : UInt8) ∉ str)
    (h : ReadsBack ref str) :
    Scan.empty.run (escape ref str ++ [space]) = ⟨.start, none, [str]⟩ := by
  obtain ⟨hargs, hmissing⟩ := parseArgs_eq_run (zero_notMem_escape ref hzero)
  have hlist := Args.flat.inj (hargs.symm.trans h.1)
  rw [h.2] at hmissing
  have hfeed : (Scan.empty.run (escape ref str)).feed space =
      (Scan.empty.run (escape ref str)).finish := by
    unfold feed
    cases hmode : (Scan.empty.run (escape ref str)).mode <;> rw [hmode] at hmissing
    case start | plain => rfl
    all_goals cases hmissing
  rw [run_append, run_cons, run_nil, hfeed, ← hlist]
  rfl

/-- A line of escaped arguments, each with a space behind it, reads back as these arguments, and
what is typed behind them is read as it is by itself. -/
theorem parseArgs_escaped_line {args : List (UInt8 × List UInt8)}
    (h : ∀ a ∈ args, (0 : UInt8) ∉ a.2 ∧ ReadsBack a.1 a.2) {rest : List UInt8}
    (hrest : (0 : UInt8) ∉ rest) {found : List (List UInt8)}
    (hfound : (parseArgs 0 rest).args = .flat found) :
    let line := args.flatMap fun a => escape a.1 a.2 ++ [space]
    (parseArgs 0 (line ++ rest)).args = .flat (args.map Prod.snd ++ found) ∧
      (parseArgs 0 (line ++ rest)).missing = (parseArgs 0 rest).missing := by
  intro line
  have hline : (0 : UInt8) ∉ line ∧ Scan.empty.run line = ⟨.start, none, args.map Prod.snd⟩ := by
    induction args with
    | nil => exact ⟨by simp [line], rfl⟩
    | cons a args ih =>
      obtain ⟨⟨hzero, hreads⟩, hrest⟩ := List.forall_mem_cons.mp h
      obtain ⟨hmem, hrun⟩ := ih hrest
      refine ⟨?_, ?_⟩
      · simp [line, hmem, zero_notMem_escape _ hzero, space]
      · have hprefix := run_prefix [a.2] Scan.empty (args.flatMap fun a => escape a.1 a.2 ++ [space])
        rw [hrun] at hprefix
        simp only [line, List.flatMap_cons, run_append _ (escape a.1 a.2 ++ [space]),
          run_escape_space hzero hreads]
        exact hprefix
  obtain ⟨hargs, hmissing⟩ := parseArgs_eq_run hrest
  obtain ⟨hargs', hmissing'⟩ := @parseArgs_eq_run (line ++ rest) (by simp [hline.1, hrest])
  have hlist := Args.flat.inj (hargs.symm.trans hfound)
  have hprefix := run_prefix (args.map Prod.snd) Scan.empty rest
  rw [run_append, hline.2] at hargs' hmissing'
  rw [show (⟨.start, none, args.map Prod.snd⟩ : Scan) =
    ⟨Scan.empty.mode, Scan.empty.buf, args.map Prod.snd ++ Scan.empty.list⟩ by simp [empty],
    hprefix] at hargs' hmissing'
  exact ⟨by rw [hargs', ← hlist]; simp [finish], hmissing'.trans hmissing.symm⟩

/-- `'a b' ` in front of nothing. -/
theorem parseArgs_escaped_line_one :
    (parseArgs 0 (escape singleQuote [97, space, 98] ++ [space])).args =
      .flat [[97, space, 98]] := by
  have hreads : ReadsBack singleQuote [97, space, 98] := by
    have hrun := parseArgs_eq_run (@zero_notMem_escape [97, space, 98] singleQuote (by decide))
    rw [escape_singleQuote, run_quoted_single] at hrun
    rw [ReadsBack, escape_singleQuote]
    exact hrun
  have hline := @parseArgs_escaped_line [(singleQuote, [97, space, 98])]
    (by simpa using ⟨by decide, hreads⟩) [] (by simp) [] (parseArgs_eq_run (by simp)).1
  simpa using hline.1

end OpenWrt.Uline
