/-
# Leaving contexts

The current context of a session and those before it are objects, and a hook that lets a command
pass is taken off its context at once, whatever comes of the command. A command that is refused
leaves the current context as it is, but the hooks that let it pass before are gone. Over a whole
session each hook lets a command pass at most once, and those of a context that is left do so
exactly once.
-/

import Mathlib.Data.List.Infix

namespace OpenWrt.Cli.Navigation

/-- What a call of a hook comes to. -/
inductive Answer where
  | accept
  | refuse
  | throw
deriving DecidableEq

/-- The contexts of a session are known by their numbers, and a hook by its context and by its place among
the hooks of that context. `env` is what the hooks see and change. -/
structure World (σ : Type) where
  /-- The hooks in `ctx.hooks.exit`. -/
  exit : ℕ → List ℕ
  /-- How many hooks were added to a context. -/
  added : ℕ → ℕ
  contexts : ℕ
  log : List ((ℕ × ℕ) × Answer)
  env : σ

/-- A word of a command that selects a context. A node below is entered by a callback that adds
exit hooks to its context, and may fail. -/
inductive Word where
  | up
  | exit
  | main
  | enter (hooks : ℕ) (selected : Bool)
deriving DecidableEq

/-- The current context and those before it, the innermost first. -/
structure Session (σ : Type) where
  stack : List ℕ
  world : World σ

/-- A line is a command that selects a context, or one that calls an entry there. -/
inductive Event where
  | line (words : List Word) (call : Bool)
  | complete (words : List Word)
deriving DecidableEq

section Model

variable {σ : Type} (ask : ℕ × ℕ → σ → Answer × σ)

namespace World

/-- How often a hook let a command pass. -/
def accepts (w : World σ) (hook : ℕ × ℕ) : ℕ := w.log.count (hook, .accept)

def called (w : World σ) (hook : ℕ × ℕ) : World σ :=
  { w with log := w.log ++ [(hook, (ask hook w.env).1)], env := (ask hook w.env).2 }

/-- The first hook of a context is taken off. -/
def shift (w : World σ) (ctx : ℕ) : World σ :=
  { w with exit := Function.update w.exit ctx (w.exit ctx).tail }

def enter (w : World σ) (hooks : ℕ) : World σ :=
  { w with
    exit := Function.update w.exit w.contexts (List.range hooks)
    added := Function.update w.added w.contexts hooks
    contexts := w.contexts + 1 }

end World

/-- The loop over the hooks that are left. An exception is caught, and refuses as well. -/
def runHooksFrom (ctx : ℕ) : (hooks : List ℕ) → World σ → Bool × World σ
  | [], w => (true, w)
  | hook :: hooks, w =>
    match (ask (ctx, hook) w.env).1 with
    | .accept => runHooksFrom ctx hooks ((w.called ask (ctx, hook)).shift ctx)
    | .refuse | .throw => (false, w.called ask (ctx, hook))

/-- `context_run_hooks` -/
def contextRunHooks (ctx : ℕ) (w : World σ) : Bool × World σ :=
  runHooksFrom ask ctx (w.exit ctx) w

/-- `context_prev`. No context is the empty stack. -/
def contextPrev (skipHooks : Bool) : (stack : List ℕ) → World σ → List ℕ × World σ
  | [], w => ([], w)
  | ctx :: prevs, w =>
    if skipHooks then (prevs, w)
    else
      match contextRunHooks ask ctx w with
      | (true, w) => (prevs, w)
      | (false, w) => ([], w)

/-- `context_top` -/
def contextTop (skipHooks : Bool) : (stack : List ℕ) → World σ → List ℕ × World σ
  | ctx :: prev :: prevs, w =>
    match contextPrev ask skipHooks (ctx :: prev :: prevs) w with
    | ([], w) => ([], w)
    | (_ :: _, w) => contextTop skipHooks (prev :: prevs) w
  | stack, w => (stack, w)

def Word.select (completion : Bool) (stack : List ℕ) (w : World σ) : Word → List ℕ × World σ
  | .up | .exit => contextPrev ask completion stack w
  | .main => contextTop ask completion stack w
  | .enter hooks selected => (if selected then w.contexts :: stack else [], w.enter hooks)

/-- `context_select` -/
def contextSelect (completion : Bool) : List Word → List ℕ → World σ → List ℕ × World σ
  | [], stack, w => (stack, w)
  | word :: words, stack, w =>
    match word.select ask completion stack w with
    | ([], w) => ([], w)
    | (ctx :: prevs, w) => contextSelect completion words (ctx :: prevs) w

/-- `line_cb` for one command. The current context stays where nothing is selected and where an
entry is called. -/
def Session.apply (s : Session σ) : Event → Session σ
  | .line words call =>
    match contextSelect ask false words s.stack s.world with
    | ([], w) => { s with world := w }
    | (ctx :: prevs, w) => ⟨if call then s.stack else ctx :: prevs, w⟩
  | .complete words => { s with world := (contextSelect ask true words s.stack s.world).2 }

/-- A session begins in a context without hooks. -/
def Session.start (env : σ) : Session σ :=
  ⟨[0], ⟨fun _ => [], fun _ => 0, 1, [], env⟩⟩

def Session.run (env : σ) (events : List Event) : Session σ :=
  events.foldl (Session.apply ask) (.start env)

def Refused (s : Session σ) (words : List Word) : Prop :=
  (contextSelect ask false words s.stack s.world).1 = []

end Model

/-! ## What is kept of the hooks -/

section Kept

variable {σ : Type} {ask : ℕ × ℕ → σ → Answer × σ}

namespace World

/-- Of the hooks of each context the first ones let a command pass once, and the others are
left. -/
structure Kept (w : World σ) : Prop where
  fresh : ∀ ctx, w.contexts ≤ ctx → w.added ctx = 0
  hooks : ∀ ctx, ∃ passed ≤ w.added ctx,
    w.exit ctx = List.range' passed (w.added ctx - passed) ∧
      ∀ i, w.accepts (ctx, i) = if i < passed then 1 else 0

/-- Of the contexts there were, hooks are only taken off. -/
structure Consumes (w w' : World σ) : Prop where
  contexts : w.contexts ≤ w'.contexts
  added : ∀ ctx < w.contexts, w'.added ctx = w.added ctx
  exit : ∀ ctx < w.contexts, w'.exit ctx <:+ w.exit ctx

variable {w w' w'' : World σ}

theorem Consumes.refl (w : World σ) : w.Consumes w :=
  ⟨Nat.le_refl _, fun _ _ => rfl, fun _ _ => List.suffix_refl _⟩

theorem Consumes.trans (h : w.Consumes w') (h' : w'.Consumes w'') : w.Consumes w'' where
  contexts := h.contexts.trans h'.contexts
  added ctx hctx :=
    (h'.added ctx (hctx.trans_le h.contexts)).trans (h.added ctx hctx)
  exit ctx hctx := (h'.exit ctx (hctx.trans_le h.contexts)).trans (h.exit ctx hctx)

theorem Kept.mem_exit_iff (h : w.Kept) {ctx i : ℕ} (hi : i < w.added ctx) :
    (i ∈ w.exit ctx ↔ w.accepts (ctx, i) = 0) ∧ w.accepts (ctx, i) ≤ 1 := by
  obtain ⟨passed, hle, hexit, haccepts⟩ := h.hooks ctx
  rw [hexit, haccepts, List.mem_range'_1]
  split
  case isTrue hlt => exact ⟨iff_of_false (by omega) (by decide), Nat.le_refl 1⟩
  case isFalse hge => exact ⟨iff_of_true (by omega) rfl, Nat.zero_le 1⟩

theorem Kept.accepts_of_exit (h : w.Kept) {ctx i : ℕ} (hexit : w.exit ctx = [])
    (hi : i < w.added ctx) : w.accepts (ctx, i) = 1 := by
  obtain ⟨hmem, hle⟩ := h.mem_exit_iff hi
  have hne : w.accepts (ctx, i) ≠ 0 := by
    rw [Ne, ← hmem, hexit]
    exact List.not_mem_nil
  omega

/-- A hook that does not let the command pass changes nothing that counts. -/
theorem Kept.called (h : w.Kept) {hook : ℕ × ℕ} (hask : (ask hook w.env).1 ≠ .accept) :
    (w.called ask hook).Kept := by
  refine ⟨h.fresh, fun ctx => ?_⟩
  obtain ⟨passed, hle, hexit, haccepts⟩ := h.hooks ctx
  refine ⟨passed, hle, hexit, fun i => ?_⟩
  rw [← haccepts i]
  unfold accepts World.called
  rw [List.count_append, List.count_singleton, beq_eq_false_iff_ne.mpr, if_neg (by decide)]
  · rfl
  · intro heq
    exact hask (congrArg Prod.snd heq)

/-- The first hook of a context lets the command pass, and is taken off. -/
theorem Kept.shift (h : w.Kept) {ctx hook : ℕ} {hooks : List ℕ}
    (hask : (ask (ctx, hook) w.env).1 = .accept) (hexit : w.exit ctx = hook :: hooks) :
    ((w.called ask (ctx, hook)).shift ctx).Kept := by
  refine ⟨h.fresh, fun other => ?_⟩
  obtain ⟨passed, hle, hrange, haccepts⟩ := h.hooks other
  have hcount : ∀ i, ((w.called ask (ctx, hook)).shift ctx).accepts (other, i) =
      w.accepts (other, i) + if (ctx, hook) = (other, i) then 1 else 0 := by
    intro i
    change (w.log ++ [((ctx, hook), (ask (ctx, hook) w.env).1)]).count ((other, i), .accept) = _
    rw [hask, List.count_append, List.count_singleton]
    congr 1
    simp only [beq_iff_eq, Prod.mk.injEq, and_true]
  by_cases hother : other = ctx
  · subst hother
    have hlen : passed < w.added other := by
      by_contra hge
      rw [show w.added other - passed = 0 by omega, hexit] at hrange
      cases hrange
    rw [hexit, show w.added other - passed = (w.added other - (passed + 1)) + 1 by omega,
      List.range'_succ] at hrange
    obtain ⟨rfl, htail⟩ := List.cons.inj hrange
    refine ⟨hook + 1, hlen, ?_, fun i => ?_⟩
    · change Function.update w.exit other (w.exit other).tail other = _
      rw [Function.update_self, hexit]
      exact htail
    · rw [hcount, haccepts]
      simp only [Prod.mk.injEq, true_and]
      split_ifs <;> omega
  · refine ⟨passed, hle, ?_, fun i => ?_⟩
    · change Function.update w.exit ctx (w.exit ctx).tail other = _
      rw [Function.update_of_ne hother]
      exact hrange
    · rw [hcount, if_neg fun heq => hother (congrArg Prod.fst heq).symm, haccepts]
      rfl

theorem consumes_called (w : World σ) (hook : ℕ × ℕ) : w.Consumes (w.called ask hook) :=
  ⟨Nat.le_refl _, fun _ _ => rfl, fun _ _ => List.suffix_refl _⟩

theorem consumes_shift (w : World σ) (ctx : ℕ) (hook : ℕ × ℕ) :
    w.Consumes ((w.called ask hook).shift ctx) := by
  refine ⟨Nat.le_refl _, fun _ _ => rfl, fun other _ => ?_⟩
  change Function.update w.exit ctx (w.exit ctx).tail other <:+ w.exit other
  by_cases hother : other = ctx
  · subst hother
    rw [Function.update_self]
    exact List.tail_suffix _
  · rw [Function.update_of_ne hother]

/-- A context that is made has all its hooks left. -/
theorem Kept.enter (h : w.Kept) (hooks : ℕ) : (w.enter hooks).Kept := by
  constructor
  · intro ctx hctx
    change Function.update w.added w.contexts hooks ctx = 0
    rw [Function.update_of_ne (Nat.ne_of_gt hctx)]
    exact h.fresh ctx (Nat.le_of_succ_le hctx)
  · intro ctx
    change ∃ passed ≤ Function.update w.added w.contexts hooks ctx,
      Function.update w.exit w.contexts (List.range hooks) ctx = List.range' passed
        (Function.update w.added w.contexts hooks ctx - passed) ∧ _
    obtain ⟨passed, hle, hexit, haccepts⟩ := h.hooks ctx
    by_cases hctx : ctx = w.contexts
    · subst hctx
      rw [h.fresh _ (Nat.le_refl _), Nat.le_zero] at hle
      subst hle
      rw [Function.update_self, Function.update_self]
      exact ⟨0, Nat.zero_le _, List.range_eq_range', haccepts⟩
    · rw [Function.update_of_ne hctx, Function.update_of_ne hctx]
      exact ⟨passed, hle, hexit, haccepts⟩

theorem consumes_enter (w : World σ) (hooks : ℕ) : w.Consumes (w.enter hooks) := by
  refine ⟨Nat.le_succ _, fun ctx hctx => ?_, fun ctx hctx => ?_⟩
  · exact Function.update_of_ne (Nat.ne_of_lt hctx) ..
  · change Function.update w.exit w.contexts (List.range hooks) ctx <:+ w.exit ctx
    rw [Function.update_of_ne (Nat.ne_of_lt hctx)]

end World

/-! ## Commands -/

variable (ask) (completion : Bool) {w : World σ} {stack : List ℕ}

theorem runHooksFrom_spec {ctx : ℕ} {hooks : List ℕ} (h : w.Kept) (hexit : w.exit ctx = hooks) :
    (runHooksFrom ask ctx hooks w).2.Kept ∧ w.Consumes (runHooksFrom ask ctx hooks w).2 ∧
      ((runHooksFrom ask ctx hooks w).1 = true →
        (runHooksFrom ask ctx hooks w).2.exit ctx = []) := by
  induction hooks generalizing w with
  | nil => exact ⟨h, .refl w, fun _ => hexit⟩
  | cons hook hooks ih =>
    unfold runHooksFrom
    cases hask : (ask (ctx, hook) w.env).1 with
    | accept =>
      have htail : ((w.called ask (ctx, hook)).shift ctx).exit ctx = hooks := by
        change Function.update w.exit ctx (w.exit ctx).tail ctx = hooks
        rw [Function.update_self, hexit]
        rfl
      obtain ⟨hkept, hconsumes, hdone⟩ := ih (h.shift hask hexit) htail
      exact ⟨hkept, (World.consumes_shift w ctx _).trans hconsumes, hdone⟩
    | refuse =>
      have hne : (ask (ctx, hook) w.env).1 ≠ .accept := by
        rw [hask]
        decide
      exact ⟨h.called hne, World.consumes_called w _, fun hfalse => nomatch hfalse⟩
    | throw =>
      have hne : (ask (ctx, hook) w.env).1 ≠ .accept := by
        rw [hask]
        decide
      exact ⟨h.called hne, World.consumes_called w _, fun hfalse => nomatch hfalse⟩

/-- The hooks are kept account of, and the contexts of the stack are there. -/
def Valid (p : List ℕ × World σ) : Prop := p.2.Kept ∧ ∀ ctx ∈ p.1, ctx < p.2.contexts

/-- A selection takes hooks off, and all hooks of each context that it leaves. -/
structure Selects (completion : Bool) (p r : List ℕ × World σ) : Prop where
  valid : Valid r
  consumes : p.2.Consumes r.2
  left : completion = false → r.1 ≠ [] → ∀ ctx ∈ p.1, ctx ∈ r.1 ∨ r.2.exit ctx = []

variable {completion}

theorem Selects.refl {p : List ℕ × World σ} (h : Valid p) : Selects completion p p :=
  ⟨h, .refl _, fun _ _ _ hctx => .inl hctx⟩

theorem Selects.trans {p q r : List ℕ × World σ} (hp : Valid p) (h : Selects completion p q)
    (hq : q.1 ≠ []) (h' : Selects completion q r) : Selects completion p r := by
  refine ⟨h'.valid, h.consumes.trans h'.consumes, fun hcompletion hr ctx hctx => ?_⟩
  cases h.left hcompletion hq ctx hctx with
  | inl hmem => exact h'.left hcompletion hr ctx hmem
  | inr hexit =>
    right
    have hsuffix := h'.consumes.exit ctx ((hp.2 ctx hctx).trans_le h.consumes.contexts)
    rw [hexit] at hsuffix
    exact List.suffix_nil.mp hsuffix

theorem selects_nil {w' : World σ} (hkept : w'.Kept) (hconsumes : w.Consumes w') :
    Selects completion (stack, w) ([], w') :=
  ⟨⟨hkept, fun _ hctx => nomatch hctx⟩, hconsumes, fun _ hne => absurd rfl hne⟩

variable (completion)

/-- The walk comes to the context before, or nowhere. -/
theorem selects_contextPrev {ctx : ℕ} {prevs : List ℕ} (h : Valid (ctx :: prevs, w)) :
    Selects completion (ctx :: prevs, w) (contextPrev ask completion (ctx :: prevs) w) ∧
      ((contextPrev ask completion (ctx :: prevs) w).1 = [] ∨
        (contextPrev ask completion (ctx :: prevs) w).1 = prevs) := by
  unfold contextPrev
  dsimp only
  cases completion with
  | true =>
    rw [if_pos rfl]
    exact ⟨⟨⟨h.1, fun other hother => h.2 other (List.mem_cons_of_mem _ hother)⟩, .refl w,
      fun hfalse => nomatch hfalse⟩, .inr rfl⟩
  | false =>
    rw [if_neg (by decide)]
    obtain ⟨hkept, hconsumes, hdone⟩ := runHooksFrom_spec ask h.1 (rfl : w.exit ctx = w.exit ctx)
    unfold contextRunHooks
    rcases hrun : runHooksFrom ask ctx (w.exit ctx) w with ⟨_ | _, w'⟩
    · rw [hrun] at hkept hconsumes
      exact ⟨selects_nil hkept hconsumes, .inl rfl⟩
    · rw [hrun] at hkept hconsumes hdone
      refine ⟨⟨⟨hkept, fun other hother => ?_⟩, hconsumes, fun _ _ other hother => ?_⟩, .inr rfl⟩
      · exact (h.2 other (List.mem_cons_of_mem _ hother)).trans_le hconsumes.contexts
      · cases List.mem_cons.mp hother with
        | inl heq => exact .inr (heq ▸ hdone rfl)
        | inr hmem => exact .inl hmem

theorem selects_contextTop (h : Valid (stack, w)) :
    Selects completion (stack, w) (contextTop ask completion stack w) := by
  induction stack generalizing w with
  | nil => exact .refl h
  | cons ctx prevs ih =>
    cases prevs with
    | nil => exact .refl h
    | cons prev prevs =>
      obtain ⟨hselects, hfst⟩ :=
        selects_contextPrev ask completion h
      unfold contextTop
      rcases hprev : contextPrev ask completion (ctx :: prev :: prevs) w with ⟨_ | ⟨c, cs⟩, w'⟩
      · rw [hprev] at hselects
        exact hselects
      · rw [hprev] at hselects hfst
        obtain hnil | heq := hfst
        · cases hnil
        · cases heq
          exact hselects.trans h (List.cons_ne_nil _ _) (ih hselects.valid)

theorem selects_word (h : Valid (stack, w)) (word : Word) :
    Selects completion (stack, w) (word.select ask completion stack w) := by
  have hprev : Selects completion (stack, w) (contextPrev ask completion stack w) := by
    cases stack with
    | nil => exact .refl h
    | cons ctx prevs => exact (selects_contextPrev ask completion h).1
  cases word with
  | up => exact hprev
  | exit => exact hprev
  | main => exact selects_contextTop ask completion h
  | enter hooks selected =>
    have hkept := h.1.enter hooks
    have hconsumes := World.consumes_enter w hooks
    cases selected with
    | false => exact selects_nil hkept hconsumes
    | true =>
      refine ⟨⟨hkept, fun ctx hctx => ?_⟩, hconsumes,
        fun _ _ ctx hctx => .inl (List.mem_cons_of_mem _ hctx)⟩
      cases List.mem_cons.mp hctx with
      | inl heq => exact heq ▸ Nat.lt_succ_self _
      | inr hmem => exact Nat.lt_succ_of_lt (h.2 ctx hmem)

theorem selects_contextSelect (words : List Word) (h : Valid (stack, w)) :
    Selects completion (stack, w) (contextSelect ask completion words stack w) := by
  induction words generalizing stack w with
  | nil => exact .refl h
  | cons word words ih =>
    have hword := selects_word ask completion h word
    unfold contextSelect
    rcases hres : word.select ask completion stack w with ⟨_ | ⟨ctx, prevs⟩, w'⟩
    · rw [hres] at hword
      exact hword
    · rw [hres] at hword
      exact hword.trans h (List.cons_ne_nil _ _) (ih hword.valid)

/-! ## Sessions -/

/-- An event takes off hooks, and leaves no context with hooks. -/
theorem apply_spec {s : Session σ} (h : Valid (s.stack, s.world)) (event : Event) :
    Valid ((s.apply ask event).stack, (s.apply ask event).world) ∧
      s.world.Consumes (s.apply ask event).world ∧
      ∀ ctx ∈ s.stack, ctx ∈ (s.apply ask event).stack ∨
        (s.apply ask event).world.exit ctx = [] := by
  cases event with
  | line words call =>
    have hselects := selects_contextSelect ask false words h
    unfold Session.apply
    dsimp only
    rcases hres : contextSelect ask false words s.stack s.world with ⟨_ | ⟨ctx, prevs⟩, w⟩
    · rw [hres] at hselects
      exact ⟨⟨hselects.valid.1, fun ctx hctx =>
        (h.2 ctx hctx).trans_le hselects.consumes.contexts⟩, hselects.consumes,
        fun _ hctx => .inl hctx⟩
    · rw [hres] at hselects
      cases call with
      | false =>
        exact ⟨hselects.valid, hselects.consumes,
          hselects.left rfl (List.cons_ne_nil _ _)⟩
      | true =>
        exact ⟨⟨hselects.valid.1, fun ctx hctx =>
          (h.2 ctx hctx).trans_le hselects.consumes.contexts⟩, hselects.consumes,
          fun _ hctx => .inl hctx⟩
  | complete words =>
    have hselects := selects_contextSelect ask true words h
    exact ⟨⟨hselects.valid.1, fun ctx hctx =>
      (h.2 ctx hctx).trans_le hselects.consumes.contexts⟩, hselects.consumes,
      fun _ hctx => .inl hctx⟩

theorem valid_run (env : σ) (events : List Event) :
    Valid ((Session.run ask env events).stack, (Session.run ask env events).world) := by
  induction events using List.reverseRecOn with
  | nil =>
    refine ⟨⟨fun _ _ => rfl, fun _ => ⟨0, Nat.le_refl 0, rfl, fun _ => rfl⟩⟩, fun ctx hctx => ?_⟩
    exact List.mem_singleton.mp hctx ▸ Nat.zero_lt_one
  | append_singleton events event ih =>
    unfold Session.run at ih ⊢
    rw [List.foldl_concat]
    exact (apply_spec ask ih event).1

end Kept

section Results

variable {σ : Type} (ask : ℕ × ℕ → σ → Answer × σ)

/-- What an event does to the contexts of a session. -/
structure Session.Follows (s s' : Session σ) (event : Event) : Prop where
  refused : ∀ words call, event = .line words call → Refused ask s words → s'.stack = s.stack
  exit : ∀ ctx ∈ s.stack, s'.world.exit ctx <:+ s.world.exit ctx
  accepts : ∀ ctx, ∀ i < s'.world.added ctx,
    (i ∈ s'.world.exit ctx ↔ s'.world.accepts (ctx, i) = 0) ∧ s'.world.accepts (ctx, i) ≤ 1
  left : ∀ ctx ∈ s.stack, ctx ∉ s'.stack → s'.world.exit ctx = [] ∧
    ∀ i < s'.world.added ctx, s'.world.accepts (ctx, i) = 1

/-- In every session a command that is refused leaves the current context, and takes off each
context only hooks that let a command pass. No hook does so twice, and those of a context that
is left did so once. -/
theorem session_follows (env : σ) (events : List Event) (event : Event) :
    (Session.run ask env events).Follows ask ((Session.run ask env events).apply ask event)
      event := by
  have hvalid := valid_run ask env events
  obtain ⟨⟨hkept, -⟩, hconsumes, hleft⟩ := apply_spec ask hvalid event
  constructor
  · rintro words call rfl hrefused
    unfold Refused at hrefused
    unfold Session.apply
    dsimp only
    rcases hres : contextSelect ask false words _ _ with ⟨_ | _, w⟩
    · rfl
    · rw [hres] at hrefused
      cases hrefused
  · exact fun ctx hctx => hconsumes.exit ctx (hvalid.2 ctx hctx)
  · exact fun ctx i hi => hkept.mem_exit_iff hi
  · intro ctx hctx hnot
    have hexit := (hleft ctx hctx).resolve_left hnot
    exact ⟨hexit, fun i hi => hkept.accepts_of_exit hexit hi⟩

/-- The way to the top is refused one context further out, and the hook of the current context is
gone. -/
theorem not_unchanged :
    ¬ ∀ (σ : Type) (ask : ℕ × ℕ → σ → Answer × σ) (env : σ) (events : List Event)
      (words : List Word), Refused ask (Session.run ask env events) words →
      ∀ ctx ∈ (Session.run ask env events).stack,
        ((Session.run ask env events).apply ask (.line words false)).world.exit ctx =
          (Session.run ask env events).world.exit ctx := by
  intro h
  have hexit := h Unit (fun hook env => (if hook.1 = 1 then .refuse else .accept, env)) ()
    [.line [.enter 1 true] false, .line [.enter 1 true] false] [.main] (by unfold Refused; decide)
    2 (by decide)
  revert hexit
  decide

end Results

end OpenWrt.Cli.Navigation
