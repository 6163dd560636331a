/-
# Kernel configurations

`kconfig.pl` composes configurations: what two have in common, one laid over another, and what
the second has that the first has not. A value that is the number 0 is lost from what is common,
as it is not true in Perl, and of a module the operator that keeps modules makes no module when
the other configuration has it as `n` and not as not set. Everything else is as it should be, and
a configuration that is written is read back.
-/

import Mathlib.Data.Char
import Mathlib.Data.Finset.Sort
import Mathlib.Data.List.Lex

namespace OpenWrt.Kconfig

/-- A line, a symbol or a value, without its end of line. -/
abbrev Text := List Char

/-- A hash, with the keys it has. -/
structure Config where
  keys : Finset Text
  val : Text → Option Text
  mem_keys : ∀ s, s ∈ keys ↔ val s ≠ none

/-- Each round of a loop over keys sets at most the key it is for. -/
def Config.ofKeys (keys : Finset Text) (val : Text → Option Text) : Config where
  keys := keys.filter fun s => val s ≠ none
  val s := if s ∈ keys then val s else none
  mem_keys s := by
    rw [Finset.mem_filter]
    split <;> simp_all

def Config.empty : Config := ⟨∅, fun _ => none, by simp⟩

/-- `$config->{$idx} = $newval` -/
def Config.set (c : Config) (s v : Text) : Config where
  keys := insert s c.keys
  val := Function.update c.val s (some v)
  mem_keys t := by
    rw [Finset.mem_insert, c.mem_keys]
    by_cases h : t = s
    · subst h
      simp
    · rw [Function.update_of_ne h, or_iff_right h]

/-- Neither 0 nor the empty string is true in Perl. -/
def truthy : Option Text → Bool
  | none => false
  | some v => v ≠ [] ∧ v ≠ ['0']

/-- The value of a symbol that is not set. -/
def undef : Text := "#undef".toList

def yes : Text := ['y']

def mod : Text := ['m']

def no : Text := ['n']

/-! ## Operators -/

/-- `set_config` -/
def setConfig (modPlus : Bool) (c : Config) (s newval : Text) : Config :=
  if c.val s = none ∨ modPlus = false ∨ c.val s = some undef ∨ newval = yes then c.set s newval
  else c

/-- `config_and` -/
def configAnd (cfg1 cfg2 : Config) : Config :=
  .ofKeys cfg1.keys fun s =>
    if truthy (cfg2.val s) ∧ cfg1.val s = cfg2.val s then cfg1.val s else none

/-- What a round of `config_add` leaves of a symbol. -/
def addValue (modPlus : Bool) : (old new : Option Text) → Option Text
  | old, none => old
  | old, some v =>
    if modPlus ∧ truthy old then
      if old = some yes then old
      else if v = undef then old
      else some v
    else some v

/-- `config_add` -/
def configAdd (cfg1 cfg2 : Config) (modPlus : Bool) : Config :=
  [cfg1, cfg2].foldl (fun config cfg =>
    .ofKeys (config.keys ∪ cfg.keys) fun s => addValue modPlus (config.val s) (cfg.val s)) .empty

/-- `config_diff` -/
def configDiff (cfg1 cfg2 : Config) (newOnly : Bool) : Config :=
  .ofKeys cfg2.keys fun s =>
    if cfg1.val s = none ∨ cfg1.val s ≠ cfg2.val s then
      if newOnly ∧ cfg1.val s = none ∧ cfg2.val s = some undef then none else cfg2.val s
    else none

/-! ## Files -/

def prefixText : Text := "CONFIG_".toList

def notSet : Text := " is not set".toList

/-- What is behind a text at the start. -/
def stripPrefix : (pre line : Text) → Option Text
  | [], line => some line
  | c :: pre, d :: line => if c = d then stripPrefix pre line else none
  | _ :: _, [] => none

/-- The shortest text that is followed by another, and what is behind both. -/
def shortest (mark : Text) : Text → Option (Text × Text)
  | [] => none
  | c :: rest =>
    match stripPrefix mark (c :: rest) with
    | some after => some ([], after)
    | none => (shortest mark rest).map fun found => (c :: found.1, found.2)

/-- `(.+?)` before a text. -/
def lazyName (mark : Text) : Text → Option (Text × Text)
  | [] => none
  | c :: rest => (shortest mark rest).map fun found => (c :: found.1, found.2)

/-- What a line sets, if it is one that sets. A value has a character at least. -/
def readLine (line : Text) : Option (Text × Text) :=
  match (stripPrefix prefixText line).bind (lazyName ['=']) with
  | some (s, c :: v) => some (s, c :: v)
  | _ =>
    ((stripPrefix ("# ".toList ++ prefixText) line).bind (lazyName notSet)).map fun found =>
      (found.1, undef)

/-- `load_config` -/
def loadConfig (lines : List Text) (modPlus : Bool) : Config :=
  lines.foldl (fun c line =>
    match readLine line with
    | some (s, v) => setConfig modPlus c s v
    | none => c) .empty

/-- `print_cfgline` -/
def printCfgline (s v : Text) : Text :=
  if v = undef ∨ v = no then "# ".toList ++ prefixText ++ s ++ notSet
  else prefixText ++ s ++ '=' :: v

/-- `dump_config` -/
def dumpConfig (c : Config) : List Text :=
  (c.keys.sort (· ≤ ·)).filterMap fun s => (c.val s).map (printCfgline s)

/-! ## What they are for -/

def IsSymbol (s : Text) : Prop := s ≠ [] ∧ ∀ c ∈ s, c.isAlphanum ∨ c = '_' ∨ c = '-'

def Config.Loadable (c : Config) : Prop :=
  ∀ s v, c.val s = some v → IsSymbol s ∧ v ≠ [] ∧ '\n' ∉ v

/-- Both ways to write that a symbol is not set. -/
def identified (v : Text) : Text := if v = no then undef else v

/-- A symbol that is built in or a module is made less. -/
def Lowered (old : Text) (new : Option Text) : Prop :=
  new = none ∨ new = some undef ∨ new = some no ∨ old = yes ∧ new = some mod

instance (old : Text) (new : Option Text) : Decidable (Lowered old new) :=
  inferInstanceAs (Decidable (_ ∨ _ ∨ _ ∨ _ ∧ _))

/-- The laws of the operators, for two configurations. -/
structure Lawful (cfg1 cfg2 : Config) : Prop where
  idempotent : configAnd cfg1 cfg1 = cfg1
  comm : configAnd cfg1 cfg2 = configAnd cfg2 cfg1
  common : ∀ s v, (configAnd cfg1 cfg2).val s = some v ↔ cfg1.val s = some v ∧ cfg2.val s = some v
  add_diff : configAdd cfg1 (configDiff cfg1 cfg2 false) false = configAdd cfg1 cfg2 false
  modPlus : ∀ s v, cfg1.val s = some v → v = yes ∨ v = mod →
    ¬ Lowered v ((configAdd cfg1 cfg2 true).val s)
  load_dump : ∀ modPlus s,
    (loadConfig (dumpConfig cfg1) modPlus).val s = (cfg1.val s).map identified

/-! ## Values -/

section Values

variable {c : Config} {s v : Text}

theorem Config.ext {c c' : Config} (h : ∀ s, c.val s = c'.val s) : c = c' := by
  obtain ⟨keys, val, hkeys⟩ := c
  obtain ⟨keys', val', hkeys'⟩ := c'
  obtain rfl : val = val' := funext h
  congr 1
  exact Finset.ext fun s => (hkeys s).trans (hkeys' s).symm

@[simp] theorem val_empty (s : Text) : Config.empty.val s = none := rfl

theorem val_set (c : Config) (s v t : Text) :
    (c.set s v).val t = if t = s then some v else c.val t :=
  Function.update_apply ..

theorem val_ofKeys {keys : Finset Text} {val : Text → Option Text}
    (h : s ∉ keys → val s = none) : (Config.ofKeys keys val).val s = val s := by
  change (if s ∈ keys then val s else none) = val s
  split
  case isTrue => rfl
  case isFalse hs => exact (h hs).symm

theorem Config.val_of_notMem (h : s ∉ c.keys) : c.val s = none := by
  rw [c.mem_keys, not_not] at h
  exact h

theorem val_configAnd (cfg1 cfg2 : Config) (s : Text) : (configAnd cfg1 cfg2).val s =
    if truthy (cfg2.val s) ∧ cfg1.val s = cfg2.val s then cfg1.val s else none := by
  refine val_ofKeys fun hs => ?_
  rw [cfg1.val_of_notMem hs, ite_self]

theorem val_configDiff (cfg1 cfg2 : Config) (s : Text) : (configDiff cfg1 cfg2 false).val s =
    if cfg1.val s = none ∨ cfg1.val s ≠ cfg2.val s then cfg2.val s else none := by
  refine (val_ofKeys fun hs => ?_).trans ?_
  · rw [cfg2.val_of_notMem hs]
    split_ifs <;> rfl
  · simp

theorem val_configAdd (cfg1 cfg2 : Config) (modPlus : Bool) (s : Text) :
    (configAdd cfg1 cfg2 modPlus).val s = addValue modPlus (cfg1.val s) (cfg2.val s) := by
  have hround : ∀ (config cfg : Config), (Config.ofKeys (config.keys ∪ cfg.keys) fun s =>
    addValue modPlus (config.val s) (cfg.val s)).val s =
      addValue modPlus (config.val s) (cfg.val s) := by
    intro config cfg
    refine val_ofKeys fun hs => ?_
    rw [Finset.mem_union, not_or] at hs
    rw [config.val_of_notMem hs.1, cfg.val_of_notMem hs.2]
    rfl
  have hfirst : addValue modPlus none (cfg1.val s) = cfg1.val s := by
    cases hv : cfg1.val s with
    | none => rfl
    | some v => simp [addValue, truthy]
  unfold configAdd
  rw [List.foldl_cons, List.foldl_cons, List.foldl_nil, hround, hround, val_empty, hfirst]

theorem truthy_some (h : v ≠ []) : truthy (some v) = true ↔ v ≠ ['0'] := by
  simp [truthy, h]

end Values

/-! ## Reading what is written -/

section Files

variable {s v : Text}

theorem stripPrefix_append (pre rest : Text) : stripPrefix pre (pre ++ rest) = some rest := by
  induction pre with
  | nil => rfl
  | cons c pre ih =>
    rw [List.cons_append, stripPrefix, if_pos rfl]
    exact ih

/-- A mark that begins with a character that the name does not have ends the name. -/
theorem shortest_append {c : Char} (mark rest : Text) (h : c ∉ s) :
    shortest (c :: mark) (s ++ (c :: mark) ++ rest) = some (s, rest) := by
  induction s with
  | nil =>
    change (match stripPrefix (c :: mark) ((c :: mark) ++ rest) with
      | some after => _
      | none => _) = _
    rw [stripPrefix_append]
  | cons d s ih =>
    rw [List.mem_cons, not_or] at h
    rw [List.cons_append, List.cons_append, shortest, stripPrefix, if_neg h.1, ih h.2]
    rfl

theorem lazyName_append {c : Char} (mark rest : Text) (hs : s ≠ []) (h : c ∉ s) :
    lazyName (c :: mark) (s ++ (c :: mark) ++ rest) = some (s, rest) := by
  cases s with
  | nil => exact absurd rfl hs
  | cons d s =>
    rw [List.mem_cons, not_or] at h
    rw [List.cons_append, List.cons_append, lazyName, shortest_append mark rest h.2]
    rfl

theorem IsSymbol.notMem (h : IsSymbol s) {c : Char}
    (hc : ¬ (c.isAlphanum ∨ c = '_' ∨ c = '-')) : c ∉ s := fun hmem => hc (h.2 c hmem)

/-- A line that is written is read as it was meant. -/
theorem readLine_printCfgline (hs : IsSymbol s) (hv : v ≠ []) :
    readLine (printCfgline s v) = some (s, identified v) := by
  unfold printCfgline
  by_cases hunset : v = undef ∨ v = no
  · have hid : identified v = undef := by
      obtain rfl | rfl := hunset <;> rfl
    have hline : ("# ".toList ++ prefixText ++ s ++ notSet : Text) =
        ("# ".toList ++ prefixText) ++ (s ++ notSet ++ []) := by
      rw [List.append_nil, List.append_assoc]
    have hfirst : stripPrefix prefixText (("# ".toList ++ prefixText) ++ (s ++ notSet ++ [])) =
        none := rfl
    rw [if_pos hunset, hid, hline, readLine, hfirst, stripPrefix_append]
    change (Option.map _ (lazyName (' ' :: "is not set".toList) _)) = _
    rw [show s ++ notSet ++ [] = s ++ (' ' :: "is not set".toList) ++ [] from rfl,
      lazyName_append _ _ hs.1 (hs.notMem (by decide))]
    rfl
  · rw [not_or] at hunset
    have hline : (prefixText ++ s ++ '=' :: v : Text) = prefixText ++ (s ++ ['='] ++ v) := by
      rw [List.append_assoc, List.append_assoc]
      rfl
    rw [if_neg (not_or.mpr hunset), hline, readLine, stripPrefix_append, Option.bind_some,
      lazyName_append [] v hs.1 (hs.notMem (by decide)), identified, if_neg hunset.2]
    cases v with
    | nil => exact absurd rfl hv
    | cons c v => rfl

/-- Reading the lines of some symbols that have no value yet gives each of them its own. -/
theorem val_foldl_setConfig {cfg : Config} (h : cfg.Loadable) (modPlus : Bool) (s : Text)
    {names : List Text} (hnodup : names.Nodup) {c : Config} (hfree : ∀ s ∈ names, c.val s = none) :
    ((names.filterMap fun s => (cfg.val s).map (printCfgline s)).foldl (fun c line =>
      match readLine line with
      | some (s, v) => setConfig modPlus c s v
      | none => c) c).val s = if s ∈ names then (cfg.val s).map identified else c.val s := by
  induction names generalizing c with
  | nil => rfl
  | cons name names ih =>
    obtain ⟨hnot, hnodup⟩ := List.nodup_cons.mp hnodup
    cases hv : cfg.val name with
    | none =>
      rw [List.filterMap_cons_none (by rw [hv]; rfl),
        ih hnodup fun s hs => hfree s (List.mem_cons_of_mem _ hs)]
      by_cases heq : s = name
      · subst heq
        rw [if_neg hnot, if_pos List.mem_cons_self, hv, hfree s List.mem_cons_self]
        rfl
      · simp only [List.mem_cons, heq, false_or]
    | some v =>
      obtain ⟨hsymbol, hne, -⟩ := h name v hv
      have hset : setConfig modPlus c name (identified v) = c.set name (identified v) :=
        if_pos (.inl (hfree name List.mem_cons_self))
      have hrest : ∀ t ∈ names, (c.set name (identified v)).val t = none := by
        intro t ht
        have hne : t ≠ name := fun heq => hnot (heq ▸ ht)
        rw [val_set, if_neg hne]
        exact hfree t (List.mem_cons_of_mem _ ht)
      rw [List.filterMap_cons_some (by rw [hv]; rfl), List.foldl_cons,
        readLine_printCfgline hsymbol hne]
      dsimp only
      rw [hset, ih hnodup hrest, val_set]
      by_cases heq : s = name
      · subst heq
        rw [if_neg hnot, if_pos rfl, if_pos List.mem_cons_self, hv]
        rfl
      · simp only [List.mem_cons, heq, false_or, if_false]

theorem val_loadConfig_dumpConfig {cfg : Config} (h : cfg.Loadable) (modPlus : Bool) (s : Text) :
    (loadConfig (dumpConfig cfg) modPlus).val s = (cfg.val s).map identified := by
  refine (val_foldl_setConfig h modPlus s (Finset.sort_nodup _ _) fun _ _ => rfl).trans ?_
  by_cases hs : s ∈ cfg.keys
  · rw [if_pos ((Finset.mem_sort _).mpr hs)]
  · rw [if_neg fun hmem => hs ((Finset.mem_sort _).mp hmem), cfg.val_of_notMem hs]
    rfl

end Files

/-! ## When the laws hold -/

section Laws

variable {cfg1 cfg2 : Config}

theorem configAdd_configDiff (cfg1 cfg2 : Config) :
    configAdd cfg1 (configDiff cfg1 cfg2 false) false = configAdd cfg1 cfg2 false := by
  refine Config.ext fun s => ?_
  rw [val_configAdd, val_configAdd, val_configDiff]
  split
  case isTrue => rfl
  case isFalse hsame =>
    rw [not_or, not_not] at hsame
    rw [← hsame.2]
    cases hv : cfg1.val s with
    | none => exact absurd hv hsame.1
    | some v => simp [addValue]

theorem configAnd_comm (cfg1 cfg2 : Config) : configAnd cfg1 cfg2 = configAnd cfg2 cfg1 := by
  refine Config.ext fun s => ?_
  rw [val_configAnd, val_configAnd]
  by_cases hsame : cfg1.val s = cfg2.val s
  · rw [hsame]
  · rw [if_neg fun h => hsame h.2, if_neg fun h => hsame h.2.symm]

/-- What two configurations have in common is found, but for the number 0. -/
theorem val_configAnd_eq_some (h : cfg2.Loadable) {s v : Text} :
    (configAnd cfg1 cfg2).val s = some v ↔
      cfg1.val s = some v ∧ cfg2.val s = some v ∧ v ≠ ['0'] := by
  rw [val_configAnd]
  constructor
  · intro hval
    split at hval
    case isFalse => cases hval
    case isTrue hboth =>
      have hv : cfg2.val s = some v := hboth.2 ▸ hval
      rw [hv, truthy_some (h s v hv).2.1] at hboth
      exact ⟨hval, hv, hboth.1⟩
  · rintro ⟨hval, hv, hne⟩
    rw [hv, if_pos ⟨(truthy_some (h s v hv).2.1).mpr hne, hval⟩]
    exact hval

theorem lowered_mod_iff (new : Option Text) :
    Lowered mod (addValue true (some mod) new) ↔ new = some no := by
  cases new with
  | none => decide
  | some v =>
    by_cases hv : v = undef
    · subst hv
      decide
    · simp [addValue, truthy, Lowered, hv, mod, yes]

theorem not_lowered_yes (new : Option Text) : ¬ Lowered yes (addValue true (some yes) new) := by
  have hsame : addValue true (some yes) new = some yes := by
    cases new with
    | none => rfl
    | some v => simp [addValue, truthy, yes]
  rw [hsame]
  decide

/-- The laws hold exactly where the first configuration has no 0, and has no module that the
second one has as `n`. -/
theorem lawful_iff (h1 : cfg1.Loadable) (h2 : cfg2.Loadable) :
    Lawful cfg1 cfg2 ↔ (∀ s, cfg1.val s ≠ some ['0']) ∧
      ∀ s, cfg1.val s = some mod → cfg2.val s ≠ some no := by
  constructor
  · intro h
    refine ⟨fun s hzero => ?_, fun s hmod hno => ?_⟩
    · have hval : (configAnd cfg1 cfg1).val s = some ['0'] :=
        (congrArg (Config.val · s) h.idempotent).trans hzero
      exact ((val_configAnd_eq_some h1).mp hval).2.2 rfl
    · refine h.modPlus s mod hmod (.inr rfl) ?_
      rw [val_configAdd, hmod]
      exact (lowered_mod_iff _).mpr hno
  · rintro ⟨hzero, hmod⟩
    have hne : ∀ s v, cfg1.val s = some v → v ≠ ['0'] := by
      rintro s _ hval rfl
      exact hzero s hval
    refine ⟨Config.ext fun s => ?_, configAnd_comm cfg1 cfg2, fun s v => ?_,
      configAdd_configDiff cfg1 cfg2, ?_, val_loadConfig_dumpConfig h1⟩
    · refine Option.ext fun v => ?_
      rw [val_configAnd_eq_some h1]
      exact ⟨fun hv => hv.1, fun hv => ⟨hv, hv, hne s v hv⟩⟩
    · rw [val_configAnd_eq_some h2]
      exact ⟨fun hv => ⟨hv.1, hv.2.1⟩, fun hv => ⟨hv.1, hv.2, hne s v hv.1⟩⟩
    · intro s v hval hv
      rw [val_configAdd, hval]
      obtain rfl | rfl := hv
      · exact not_lowered_yes _
      · rw [lowered_mod_iff]
        exact hmod s hval

end Laws

def single (v : Text) : Config := Config.empty.set ['A'] v

theorem loadable_single {v : Text} (h : v ≠ [] ∧ '\n' ∉ v) : (single v).Loadable := by
  intro s w hval
  rw [single, val_set] at hval
  split at hval
  case isTrue hs =>
    subst hs
    cases hval
    refine ⟨⟨List.cons_ne_nil _ _, fun c hc => ?_⟩, h⟩
    rw [List.mem_singleton.mp hc]
    decide
  case isFalse => cases hval

theorem lawful_single :
    ((single yes).Loadable ∧ (single no).Loadable) ∧
      (Lawful (single yes) (single no) ↔ (∀ s, (single yes).val s ≠ some ['0']) ∧
        ∀ s, (single yes).val s = some mod → (single no).val s ≠ some no) :=
  ⟨⟨loadable_single (by decide), loadable_single (by decide)⟩,
    lawful_iff (loadable_single (by decide)) (loadable_single (by decide))⟩

/-- A symbol with the value 0 is not what a configuration has in common with itself, and a module
is lost. -/
theorem not_lawful :
    ¬ ∀ cfg1 cfg2 : Config, cfg1.Loadable → cfg2.Loadable → Lawful cfg1 cfg2 := by
  intro h
  have hlaw := h (single mod) (single no) (loadable_single (by decide)) (loadable_single (by decide))
  refine hlaw.modPlus ['A'] mod rfl (.inr rfl) ?_
  rw [val_configAdd]
  exact (lowered_mod_iff _).mpr rfl

end OpenWrt.Kconfig
