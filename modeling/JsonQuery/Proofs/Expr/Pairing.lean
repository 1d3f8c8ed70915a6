import JsonQuery.Proofs.Expr.Step
import Mathlib.Data.List.Forall2

/-! Two runs of a parser side by side. The first row of tokens is matched, token by token, by a prefix of the
    second, and the second run *follows* the first if it ends with the same value or with an alike error at a
    matching token. There are three ways out. The first row may be *cut* short: a run that comes to its end and
    blames the end, or stops there, does not say what the second run does with the tokens that are still to come.
    The second run may be allowed to go *deeper*: a depth error of the first says nothing about it. And the stack
    may *halt* the first run at certain positions. -/

namespace JsonQuery.Expr

/-- Two rows of tokens that are parsed side by side. -/
structure Pairing where
  /-- Tokens in matching places. -/
  Same : Token → Token → Prop
  /-- What the second row holds after the tokens that match those of the first. -/
  more : List Token
  /-- Whether the second row may go on where the first one ends. -/
  cut : Prop
  /-- Whether the second run may have more room. -/
  deeper : Prop
  /-- The limit of the first run. -/
  limit : Int
  /-- Positions at which the stack of the first run may give out. -/
  halts : Nat → Prop
  lexeme_eq : ∀ {t u}, Same t u → t.lexeme = u.lexeme
  more_eq_nil : ¬ cut → more = []

/-- Whether a cause is that of a depth error: the limit is passed, or the stack gives out before. -/
def IsDepth (cause : GrammarCause) : Prop := ∃ limit, cause = .tooDeep limit ∨ cause = .exhausted limit

namespace Pairing

/-- Where the rows end together, nothing follows in the second one. -/
theorem nothing_more {cut : Prop} (_ : ¬ cut) : ([] : List Token) = [] := rfl

variable (P : Pairing)

/-- Rows of tokens, of which the first matches the second up to what that holds more. -/
def Rows (ts ts' : List Token) : Prop := ∃ us, ts' = us ++ P.more ∧ List.Forall₂ P.Same ts us

/-- Positions at which matching tokens start. -/
def At (p p' : Nat) : Prop := ∃ t t', P.Same t t' ∧ t.start = p ∧ t'.start = p'

/-- Errors that differ in nothing but their positions, which are those of matching tokens. -/
def Alike : SyntaxError → SyntaxError → Prop
  | .lexical f, .lexical f' => f = f'
  | .grammar cause p, .grammar cause' p' => cause = cause' ∧ P.At p p'
  | .incomplete cause opener p, .incomplete cause' opener' p' => cause = cause' ∧ opener = opener' ∧ P.At p p'
  | _, _ => False

/-- Errors of the first run that say nothing about the second: those at the end of a row cut short, those of a
    depth that the second may exceed, and those of a stack that gives out. A row cut short may also have been
    found too deep only for its end, since a wildcard in brackets and the first item of a list are told apart by
    what comes next. -/
def Excused : SyntaxError → Prop
  | .lexical _ => P.cut
  | .grammar cause p => IsDepth cause ∧ (P.cut ∨ P.deeper) ∨ cause = .exhausted P.limit ∧ P.halts p
  | .incomplete cause _ _ => P.cut ∨ IsDepth cause ∧ P.deeper

/-- Results of the first run that say nothing about the second; if `stops` they include a success at the end of
    a row cut short. -/
def Silent {α : Type} (stops : Prop) : Except SyntaxError (α × List Token) → Prop
  | .ok (_, us) => P.cut ∧ stops ∧ us = []
  | .error e => P.Excused e

/-- The same values before matching rows, or alike errors. -/
def Match {α : Type} : Except SyntaxError (α × List Token) → Except SyntaxError (α × List Token) → Prop
  | .ok (x, us), .ok (x', us') => x = x' ∧ P.Rows us us'
  | .error e, .error e' => P.Alike e e'
  | _, _ => False

/-- The second run follows the first, unless the first says nothing about it. -/
def Follows {α : Type} (stops : Prop) (r r' : Except SyntaxError (α × List Token)) : Prop :=
  P.Silent stops r ∨ P.Match r r'

/-- Rows that end alike: at matching tokens, or at the same fault. -/
def Ends : Ending → Ending → Prop
  | .finish t, .finish t' => P.Same t t'
  | .fault f, .fault f' => f = f'
  | _, _ => False

/-- Contexts of runs side by side; `last` is the end of the first row, if there is no fault. -/
structure Beside (last : Token) (ctx ctx' : Context) : Prop where
  endsWith : ctx.EndsWith last
  ending : ¬ P.cut → P.Ends ctx.ending ctx'.ending
  unclosed : List.Forall₂ P.Same ctx.unclosed ctx'.unclosed
  limit : ctx.limit = P.limit
  limit' : ctx'.limit = P.limit ∨ P.deeper

/-- Stacks of runs side by side: the first gives out where it may, and where it does not the second does not. -/
structure Halts (halt? halt?' : Option Token → Option Nat) : Prop where
  halts : ∀ {next p}, halt? next = some p → P.halts p
  goesOn : ∀ {ts ts'}, P.Rows ts ts' → halt? ts.head? = none → halt?' ts'.head? = none

end Pairing

variable {α β : Type} {P : Pairing} {stops stops' : Prop} {last : Token} {ctx ctx' : Context} {t t' : Token}
  {ts ts' us us' : List Token}

namespace Pairing

/-! ### Rows and contexts -/

theorem Rows.cons_inv (h : P.Rows (t :: ts) ts') :
    ∃ t' us', ts' = t' :: us' ∧ P.Same t t' ∧ P.Rows ts us' := by
  obtain ⟨us, rfl, h⟩ := h
  cases h with
  | cons ht hts => exact ⟨_, _, rfl, ht, _, rfl, hts⟩

theorem Rows.nil_inv (hcut : ¬ P.cut) (h : P.Rows [] ts') : ts' = [] := by
  obtain ⟨us, rfl, h⟩ := h
  cases h
  exact P.more_eq_nil hcut

theorem Rows.length_eq (h : P.Rows ts ts') : ts'.length = ts.length + P.more.length := by
  obtain ⟨us, rfl, h⟩ := h
  rw [List.length_append, h.length_eq]

theorem Beside.inside (hc : P.Beside last ctx ctx') (ht : P.Same t t') :
    P.Beside last (ctx.inside t) (ctx'.inside t') where
  endsWith := hc.endsWith.inside t
  ending := hc.ending
  unclosed := .cons ht hc.unclosed
  limit := hc.limit
  limit' := hc.limit'

/-- Stacks that never give out. -/
theorem Halts.never : P.Halts (fun _ => none) fun _ => none := ⟨nofun, fun _ _ => rfl⟩

/-! ### The end of a row cut short -/

theorem Silent.bind {p : Parser α} {f : α → Parser β} (h : P.Silent stops' (p ts))
    (hf : P.cut → stops' → ∀ x, P.Silent stops (f x [])) : P.Silent stops ((p >>= f) ts) := by
  rw [bind_run]
  cases hp : p ts with
  | error e =>
    rw [hp] at h
    exact h
  | ok r =>
    rw [hp] at h
    obtain ⟨x, us⟩ := r
    obtain ⟨hcut, hstops, rfl⟩ := h
    exact hf hcut hstops x

/-- What a parser that fails at the end does before anything else. -/
theorem Silent.bind_failure {p : Parser α} {f : α → Parser β} (h : P.Silent False (p ts)) :
    P.Silent stops ((p >>= f) ts) := h.bind fun _ hstops => hstops.elim

section
variable (hc : ctx.EndsWith last) (hcut : P.cut)
include hcut

theorem silent_fail {cause : GrammarCause} (ht : t.lexeme = .finish) :
    P.Silent stops ((fail ctx cause t : Parser α) ts) := by
  show P.Excused (if t.lexeme = .finish then _ else _)
  rw [if_pos ht]
  split <;> exact .inl hcut

include hc

theorem silent_first {f : Token → Parser α} (hf : ∀ t, t.lexeme = .finish → P.Silent stops (f t ts)) :
    P.Silent stops (((ctx.first []).map fun t => (t, ts)).bind fun r => f r.1 r.2) := by
  cases hending : ctx.ending with
  | finish t =>
    simp only [Context.first, Context.last, hending]
    exact hf t (hc.ending t hending ▸ hc.lexeme)
  | fault f =>
    simp only [Context.first, Context.last, hending]
    exact hcut

theorem silent_peek {f : Token → Parser α} (hf : ∀ t, t.lexeme = .finish → P.Silent stops (f t [])) :
    P.Silent stops ((peek ctx >>= f) []) := silent_first hc hcut hf

theorem silent_peekSecond {f : Token → Parser α} (hf : ∀ u, u.lexeme = .finish → P.Silent stops (f u [t])) :
    P.Silent stops ((peekSecond ctx >>= f) [t]) := silent_first hc hcut hf

/-- At the end no lexeme comes next that a parser could go by. -/
theorem silent_branch {l : Lexeme} (hl : l ≠ .finish) {p q : Token → Parser α}
    (hq : ∀ t, t.lexeme = .finish → P.Silent stops (q t [])) :
    P.Silent stops ((peek ctx >>= fun t => if t.lexeme = l then p t else q t) []) := by
  refine silent_peek hc hcut fun t ht => ?_
  rw [ite_run, if_neg (by rw [ht]; exact hl.symm)]
  exact hq t ht

/-- A parser of one lexeme fails at the end. -/
theorem silent_take {l : Lexeme} (hl : l ≠ .finish) (cause : Token → GrammarCause) :
    P.Silent stops ((do
      let t ← peek ctx
      if t.lexeme = l then discard (advance ctx) else fail ctx (cause t) t : Parser Unit) []) :=
  silent_branch hc hcut hl fun _ ht => silent_fail hcut ht

end

/-! ### Runs of the primitive parsers -/

theorem Follows.bind_of_run {p p' : Parser α} {f f' : α → Parser β}
    (h : P.Follows stops' (p ts) (p' ts')) (hend : P.cut → stops' → ∀ x, P.Silent stops (f x []))
    (hf : ∀ x us us', p ts = .ok (x, us) → P.Rows us us' → P.Follows stops (f x us) (f' x us')) :
    P.Follows stops ((p >>= f) ts) ((p' >>= f') ts') := by
  rcases h with hsilent | hmatch
  · exact .inl (hsilent.bind hend)
  rw [bind_run, bind_run]
  cases hp : p ts with
  | error e =>
    rw [hp] at hmatch
    cases hp' : p' ts' with
    | error e' =>
      rw [hp'] at hmatch
      exact .inr hmatch
    | ok r' =>
      rw [hp'] at hmatch
      exact hmatch.elim
  | ok r =>
    rw [hp] at hmatch
    cases hp' : p' ts' with
    | error e' =>
      rw [hp'] at hmatch
      exact hmatch.elim
    | ok r' =>
      rw [hp'] at hmatch
      obtain ⟨x, us⟩ := r
      obtain ⟨x', us'⟩ := r'
      obtain ⟨rfl, hrows⟩ := hmatch
      exact hf x us us' hp hrows

theorem Follows.bind {p p' : Parser α} {f f' : α → Parser β}
    (h : P.Follows stops' (p ts) (p' ts')) (hend : P.cut → stops' → ∀ x, P.Silent stops (f x []))
    (hf : ∀ x us us', P.Rows us us' → P.Follows stops (f x us) (f' x us')) :
    P.Follows stops ((p >>= f) ts) ((p' >>= f') ts') :=
  h.bind_of_run hend fun x us us' _ => hf x us us'

/-- What a parser that does not stop at the end does before anything else. -/
theorem Follows.bind_firm {p p' : Parser α} {f f' : α → Parser β} (h : P.Follows False (p ts) (p' ts'))
    (hf : ∀ x us us', P.Rows us us' → P.Follows stops (f x us) (f' x us')) :
    P.Follows stops ((p >>= f) ts) ((p' >>= f') ts') :=
  h.bind (fun _ hstops => hstops.elim) hf

/-- A value made of what has been read; what stopped at the end still does. -/
theorem Follows.map {p p' : Parser α} (h : P.Follows stops (p ts) (p' ts')) (f : α → β) :
    P.Follows stops ((do return f (← p)) ts) ((do return f (← p')) ts') :=
  h.bind (fun hcut hstops _ => ⟨hcut, hstops, rfl⟩) fun _ _ _ h => .inr ⟨rfl, h⟩

section
variable (hc : P.Beside last ctx ctx')
include hc

/-- Looking at the first tokens of matching rows; `vs` and `vs'` are left. -/
theorem follows_first {vs vs' : List Token} {f f' : Token → Parser α} (h : P.Rows ts ts')
    (hne : P.cut → ts ≠ [])
    (hf : ∀ t t', P.Same t t' → ctx.first ts = .ok t → ctx'.first ts' = .ok t' →
      P.Follows stops (f t vs) (f' t' vs')) :
    P.Follows stops (((ctx.first ts).map fun t => (t, vs)).bind fun r => f r.1 r.2)
      (((ctx'.first ts').map fun t => (t, vs')).bind fun r => f' r.1 r.2) := by
  cases ts with
  | cons t us =>
    obtain ⟨t', us', rfl, hsame, -⟩ := h.cons_inv
    exact hf t t' hsame rfl rfl
  | nil =>
    have hcut : ¬ P.cut := fun hcut => hne hcut rfl
    obtain rfl := h.nil_inv hcut
    have hending := hc.ending hcut
    simp only [Context.first, Context.last] at hf ⊢
    unfold Ends at hending
    split at hending
    next t t' hctx hctx' =>
      rw [hctx, hctx'] at hf ⊢
      exact hf t t' hending rfl rfl
    next f f' hctx hctx' =>
      rw [hctx, hctx']
      exact .inr hending
    next => exact hending.elim

theorem follows_peek {f f' : Token → Parser α} (h : P.Rows ts ts')
    (hend : P.cut → P.Silent stops ((peek ctx >>= f) []))
    (hf : ∀ t t', P.Same t t' → ctx.first ts = .ok t → ctx'.first ts' = .ok t' →
      P.Follows stops (f t ts) (f' t' ts')) :
    P.Follows stops ((peek ctx >>= f) ts) ((peek ctx' >>= f') ts') := by
  by_cases hnil : P.cut ∧ ts = []
  · obtain ⟨hcut, rfl⟩ := hnil
    exact .inl (hend hcut)
  · exact follows_first hc h (fun hcut hts => hnil ⟨hcut, hts⟩) hf

theorem follows_peekSecond {f f' : Token → Parser α} (h : P.Rows us us')
    (hend : P.cut → P.Silent stops ((peekSecond ctx >>= f) [t]))
    (hf : ∀ u u', P.Same u u' → ctx.first us = .ok u → ctx'.first us' = .ok u' →
      P.Follows stops (f u (t :: us)) (f' u' (t' :: us'))) :
    P.Follows stops ((peekSecond ctx >>= f) (t :: us)) ((peekSecond ctx' >>= f') (t' :: us')) := by
  by_cases hnil : P.cut ∧ us = []
  · obtain ⟨hcut, rfl⟩ := hnil
    exact .inl (hend hcut)
  · exact follows_first hc h (fun hcut hus => hnil ⟨hcut, hus⟩) hf

theorem follows_advance {f f' : Token → Parser α} (h : P.Rows ts ts')
    (hend : P.cut → P.Silent stops ((advance ctx >>= f) []))
    (hf : ∀ t t', P.Same t t' → P.Rows ts.tail ts'.tail → P.Follows stops (f t ts.tail) (f' t' ts'.tail)) :
    P.Follows stops ((advance ctx >>= f) ts) ((advance ctx' >>= f') ts') := by
  by_cases hnil : P.cut ∧ ts = []
  · obtain ⟨hcut, rfl⟩ := hnil
    exact .inl (hend hcut)
  · have hne : P.cut → ts ≠ [] := fun hcut hts => hnil ⟨hcut, hts⟩
    have htail : P.Rows ts.tail ts'.tail := by
      cases ts with
      | cons t us =>
        obtain ⟨t', us', rfl, -, hus⟩ := h.cons_inv
        exact hus
      | nil =>
        obtain rfl := h.nil_inv fun hcut => hne hcut rfl
        exact h
    exact follows_first hc h hne fun t t' hsame _ _ => hf t t' hsame htail

theorem follows_skip {f f' : PUnit → Parser α} {l : Lexeme} (h : P.Rows ts ts') (ht : ctx.first ts = .ok t)
    (hl : t.lexeme = l) (hne : l ≠ .finish)
    (hf : ∀ us us', P.Rows us us' → P.Follows stops (f ⟨⟩ us) (f' ⟨⟩ us')) :
    P.Follows stops ((discard (advance ctx) >>= f) ts) ((discard (advance ctx') >>= f') ts') := by
  obtain ⟨us, rfl⟩ := cons_of_first hc.endsWith ht (by rwa [hl])
  obtain ⟨t', us', rfl, -, hus⟩ := h.cons_inv
  exact hf us us' hus

theorem follows_fail {cause : GrammarCause} (ht : P.Same t t') :
    P.Follows stops ((fail ctx cause t : Parser α) ts) ((fail ctx' cause t' : Parser α) ts') := by
  have hunclosed := hc.unclosed
  refine .inr ?_
  show P.Alike (if t.lexeme = .finish then _ else _) (if t'.lexeme = .finish then _ else _)
  rw [← P.lexeme_eq ht]
  split
  next =>
    generalize ctx.unclosed = outer at hunclosed
    generalize ctx'.unclosed = outer' at hunclosed
    cases hunclosed with
    | nil => exact ⟨rfl, rfl, t, t', ht, rfl, rfl⟩
    | @cons opener opener' _ _ hopener _ =>
      exact ⟨rfl, congrArg some (P.lexeme_eq hopener), opener, opener', hopener, rfl, rfl⟩
  next => exact ⟨rfl, t, t', ht, rfl, rfl⟩

/-- Parsers that go by whether a certain lexeme comes next, and take it if so. -/
theorem follows_branch {l : Lexeme} (hl : l ≠ .finish) {p q p' q' : Token → Parser α} (h : P.Rows ts ts')
    (hend : P.cut → ∀ t, t.lexeme = .finish → P.Silent stops (q t []))
    (hp : ∀ t t' us us', P.Same t t' → P.Rows us us' → P.Follows stops (p t us) (p' t' us'))
    (hq : ∀ t t', P.Same t t' → P.Follows stops (q t ts) (q' t' ts')) :
    P.Follows stops
      ((peek ctx >>= fun t => if t.lexeme = l then discard (advance ctx) >>= fun _ => p t else q t) ts)
      ((peek ctx' >>= fun t => if t.lexeme = l then discard (advance ctx') >>= fun _ => p' t else q' t) ts') := by
  refine follows_peek hc h (fun hcut => silent_branch hc.endsWith hcut hl (hend hcut)) fun t t' hsame ht _ => ?_
  rw [ite_run, ite_run, ← P.lexeme_eq hsame]
  split
  next hlexeme => exact follows_skip hc h ht hlexeme hl fun us us' h => hp t t' us us' hsame h
  next => exact hq t t' hsame

/-- A parser of one lexeme takes it in both rows or in neither. -/
theorem follows_take {l : Lexeme} (hl : l ≠ .finish) (cause : Lexeme → GrammarCause) (h : P.Rows ts ts') :
    P.Follows stops
      ((do
        let t ← peek ctx
        if t.lexeme = l then discard (advance ctx) else fail ctx (cause t.lexeme) t : Parser Unit) ts)
      ((do
        let t ← peek ctx'
        if t.lexeme = l then discard (advance ctx') else fail ctx' (cause t.lexeme) t : Parser Unit) ts') := by
  refine follows_peek hc h (fun hcut => silent_take hc.endsWith hcut hl _) fun t t' hsame ht ht' => ?_
  rw [ite_run, ite_run, ← P.lexeme_eq hsame]
  split
  next hlexeme =>
    obtain ⟨us, rfl⟩ := cons_of_first hc.endsWith ht (by rwa [hlexeme])
    obtain ⟨_, us', rfl, -, hus⟩ := h.cons_inv
    exact .inr ⟨rfl, hus⟩
  next => exact follows_fail hc hsame

theorem follows_expect {m : Mark} (h : P.Rows ts ts') : P.Follows stops (expect ctx m ts) (expect ctx' m ts') :=
  follows_take hc (by simp) _ h

theorem follows_separator {closer : Mark} (h : P.Rows ts ts') :
    P.Follows stops (separator ctx closer ts) (separator ctx' closer ts') :=
  follows_take hc (by simp) _ h

end

end Pairing

end JsonQuery.Expr
