import JsonQuery.Proofs.Expr.Completeness
import JsonQuery.Proofs.Expr.Soundness

/-! What a parser would have accepted. A run that fails at some token, or at the end, has taken some lexemes before,
    and offers what could have stood there. So it *guides* every run that starts with these lexemes: what is offered
    at this point, and nothing more, is taken. For a sequence of parsers it has to be known besides that a
    parser which has been successful does the same in front of what is offered as it did in front of what it
    found: it does before the same lexeme, and before a *quiet* one, which nothing goes on with. -/

namespace JsonQuery

open Token (nextLexeme Leads)

/-- The rule of the grammar that an error is about. -/
def SyntaxError.cause? : SyntaxError → Option GrammarCause
  | .lexical _ => none
  | .grammar cause _ | .incomplete cause _ _ => some cause

theorem SyntaxError.expectations_of_cause {e : SyntaxError} {cause : GrammarCause} (h : e.cause? = some cause) :
    e.expectations = cause.expectations := by
  cases e <;> cases h <;> rfl

/-- An error is at the first of some tokens; on account of the end, if there are none. -/
def SyntaxError.AtFirst (us : List Token) : SyntaxError → Prop
  | .lexical _ => False
  | .grammar _ p => ∃ t vs, us = t :: vs ∧ t.start = p
  | .incomplete _ _ _ => nextLexeme us = .finish

/-- The lexemes that meet an expectation: a name, for a name or an expression; a number; a certain mark; none, for
    the end. -/
def Expectation.MetBy : Expectation → List Lexeme → Prop
  | .expression, ls | .identifier, ls => ∃ l k, ls = [l] ∧ Grammar.Key l k
  | .number, ls => ∃ n, ls = [.number n]
  | .mark m, ls => ls = [.mark m]
  | .finish, ls => ls = []

namespace Expr

variable {α β : Type}

/-- A lexeme that neither extends an expression nor starts an integer. -/
def Quiet (l : Lexeme) : Prop := l.power = 0 ∧ startsInteger l = false

/-- Rows of which the second starts with the lexeme that the first starts with, or with a quiet one. -/
def Calm (us us' : List Token) : Prop := nextLexeme us' = nextLexeme us ∨ Quiet (nextLexeme us')

/-- A run that needs no other tokens than those that come: it takes all of them, or fails on account of the end. -/
def Settled : Except SyntaxError (α × List Token) → Prop
  | .ok (_, us) => us = []
  | .error (.incomplete _ _ _) => True
  | .error _ => False

/-- An error offers a bracket after the step of a slice. -/
def OffersClose (e : SyntaxError) (w : Expectation) : Prop :=
  (∃ found, e.cause? = some (.unclosedSelector false found)) ∧ w = .mark .rbracket

/-- A run with what an error has offered needs no other tokens, unless it closes a slice of which the step is 0. -/
def Met (e : SyntaxError) (w : Expectation) (r : Except SyntaxError (α × List Token)) : Prop :=
  Settled r ∨ OffersClose e w ∧ ∃ p, r = .error (.grammar .zeroStep p)

/-- A context of tokens that end without a fault. -/
structure FaultFree where
  ctx : Context
  last : Token
  finishes : ctx.Finishes last

/-- The context inside a bracket. -/
def FaultFree.inside (c : FaultFree) (opener : Token) : FaultFree :=
  ⟨c.ctx.inside opener, c.last, c.finishes.inside opener⟩

/-- The run of a parser on some tokens guides the runs of others. Where these find the same lexemes before them, they
    take what has been taken; and where the run has failed, they are settled by what was offered, of which
    `now` is what was offered before anything was taken. -/
structure Guides {ι : Type} (now : Expectation → Prop) (p : Parser α) (p' : ι → Parser α) (ts : List Token) :
    Prop where
  taken : ∀ {x us}, p ts = .ok (x, us) → ∃ ls, Leads ts ls us ∧
    ∀ {i ts' us'}, Leads ts' ls us' → Calm us us' → p' i ts' = .ok (x, us')
  offered : ∀ {e w}, p ts = .error e → w ∈ e.expectations → ∃ ls us, Leads ts ls us ∧ e.AtFirst us ∧
    (ls = [] → now w) ∧ ∀ {i ts' tail}, Leads ts' ls tail → w.MetBy (tail.map Token.lexeme) → Met e w (p' i ts')
  ends : ∀ i, Settled (p' i [])

variable {ι κ : Type} {now now' now'' : Expectation → Prop} {p : Parser α} {p' : ι → Parser α} {f : α → Parser β}
  {f' : ι → α → Parser β} {e : SyntaxError} {w : Expectation} {ctx : Context} {last t : Token}
  {ts ts' us us' vs : List Token} {ls : List Lexeme}

/-! ### Samples -/

/-- What meets an expectation is one token, or none for the end. -/
theorem tail_eq_nil_of_metBy (h : w.MetBy ((t :: us).map Token.lexeme)) : us = [] := by
  cases w with
  | expression | identifier =>
    obtain ⟨l, k, hls, -⟩ := h
    exact List.map_eq_nil_iff.1 (List.cons.inj hls).2
  | number =>
    obtain ⟨n, hls⟩ := h
    exact List.map_eq_nil_iff.1 (List.cons.inj hls).2
  | mark m => exact List.map_eq_nil_iff.1 (List.cons.inj h).2
  | finish => cases h

theorem leads_of_metBy_mark {m : Mark} (h : (Expectation.mark m).MetBy (ts.map Token.lexeme)) :
    Leads ts [.mark m] [] := by
  have hself := Leads.self ts
  rwa [show ts.map Token.lexeme = [.mark m] from h] at hself

/-- An expectation that is met by what starts with a quiet lexeme. -/
def MetQuietly (w : Expectation) : Prop :=
  ∀ tail : List Token, w.MetBy (tail.map Token.lexeme) → Quiet (nextLexeme tail)

theorem metQuietly_mark {m : Mark} (hm : Quiet (.mark m)) : MetQuietly (.mark m) :=
  fun _ h => (leads_of_metBy_mark h).nextLexeme_eq ▸ hm

theorem Calm.of_leads (h : Calm us us') (hts : Leads ts ls us) (hts' : Leads ts' ls us') : Calm ts ts' := by
  cases ls with
  | nil =>
    cases Leads.nil_iff.1 hts
    cases Leads.nil_iff.1 hts'
    exact h
  | cons l ls => exact .inl (hts'.nextLexeme_eq.trans hts.nextLexeme_eq.symm)

/-! ### Failures -/

theorem bind_eq_error {p : Parser α} {f : α → Parser β} :
    (p >>= f) ts = .error e ↔ p ts = .error e ∨ ∃ x us, p ts = .ok (x, us) ∧ f x us = .error e := by
  rw [bind_run]
  cases h : p ts with
  | error e' => simp [Except.bind]
  | ok a => exact ⟨fun hf => .inr ⟨a.1, a.2, rfl, hf⟩, fun hf => by
      obtain hf | ⟨x, us, hx, hf⟩ := hf
      · cases hf
      · cases hx
        exact hf⟩

theorem cause_of_fail {cause : GrammarCause} (h : (fail ctx cause t : Parser α) us = .error e) :
    e.cause? = some cause := by
  cases Except.error.inj h
  split
  · split <;> rfl
  · rfl

/-- A failure at what comes next. -/
theorem atFirst_of_fail (hc : ctx.EndsWith last) {cause : GrammarCause}
    (h : (fail ctx cause (front last ts) : Parser α) us = .error e) : e.AtFirst ts := by
  cases Except.error.inj h
  rw [lexeme_front hc]
  split
  next hfin => split <;> exact hfin
  next hne =>
    cases ts with
    | nil => exact absurd rfl hne
    | cons t us => exact ⟨t, us, rfl, rfl⟩

/-- A token that is looked for is found, or there is a fault instead and nothing is expected. -/
theorem first_bind_or (hc : ctx.EndsWith last) (g k : List Token → List Token) (f : Token → Parser α)
    (ts : List Token) :
    ((fun ts => (ctx.first (g ts)).map fun t => (t, k ts) : Parser Token) >>= f) ts = f (front last (g ts)) (k ts) ∨
      ∃ e, ((fun ts => (ctx.first (g ts)).map fun t => (t, k ts) : Parser Token) >>= f) ts = .error e ∧
        e.expectations = [] := by
  rw [bind_run]
  cases hfirst : ctx.first (g ts) with
  | ok t =>
    rw [eq_front_of_first hc hfirst]
    exact .inl rfl
  | error e =>
    refine .inr ⟨e, rfl, ?_⟩
    unfold Context.first Context.last at hfirst
    split at hfirst
    next => cases hfirst
    next =>
      split at hfirst
      next => cases hfirst
      next =>
        cases hfirst
        rfl

theorem peek_bind_or (hc : ctx.EndsWith last) (f : Token → Parser α) (ts : List Token) :
    (peek ctx >>= f) ts = f (front last ts) ts ∨ ∃ e, (peek ctx >>= f) ts = .error e ∧ e.expectations = [] :=
  first_bind_or hc id id f ts

theorem peekSecond_bind_or (hc : ctx.EndsWith last) (f : Token → Parser α) (ts : List Token) :
    (peekSecond ctx >>= f) ts = f (front last ts.tail) ts ∨
      ∃ e, (peekSecond ctx >>= f) ts = .error e ∧ e.expectations = [] :=
  first_bind_or hc List.tail id f ts

theorem advance_bind_or (hc : ctx.EndsWith last) (f : Token → Parser α) (ts : List Token) :
    (advance ctx >>= f) ts = f (front last ts) ts.tail ∨
      ∃ e, (advance ctx >>= f) ts = .error e ∧ e.expectations = [] :=
  first_bind_or hc id List.tail f ts

section
variable {r r' : Except SyntaxError (α × List Token)} (h : r = r' ∨ ∃ e, r = .error e ∧ e.expectations = [])
include h

theorem ok_of_run {x : α × List Token} (hr : r = .ok x) : r' = .ok x := by
  obtain h | ⟨e, he, -⟩ := h
  · exact h.symm.trans hr
  · cases he.symm.trans hr

theorem error_of_run (hr : r = .error e) (hw : w ∈ e.expectations) : r' = .error e := by
  obtain h | ⟨e', he', hnil⟩ := h
  · exact h.symm.trans hr
  · cases he'.symm.trans hr
    rw [hnil] at hw
    cases hw

/-- A run that refuses what comes next. -/
theorem refuses_of_run (cause : GrammarCause) (hc : ctx.EndsWith last)
    (hr' : r' = (fail ctx cause (front last ts) : Parser α) ts) :
    ∃ e, r = .error e ∧ ∀ w ∈ e.expectations, e.AtFirst ts ∧ w ∈ cause.expectations := by
  cases hr : r with
  | ok x => exact absurd (hr'.symm.trans (ok_of_run h hr)) not_fail_eq_ok
  | error e =>
    refine ⟨e, rfl, fun w hw => ?_⟩
    have hfail := hr'.symm.trans (error_of_run h hr hw)
    exact ⟨atFirst_of_fail hc hfail, SyntaxError.expectations_of_cause (cause_of_fail hfail) ▸ hw⟩

end

theorem of_peek_bind_error {f : Token → Parser α} (hc : ctx.EndsWith last) (hw : w ∈ e.expectations)
    (h : (peek ctx >>= f) ts = .error e) : f (front last ts) ts = .error e :=
  error_of_run (peek_bind_or hc f ts) h hw

/-! ### The end -/

theorem settled_fail {cause : GrammarCause} (ht : t.lexeme = .finish) :
    Settled ((fail ctx cause t : Parser α) ts) := by
  show Settled (.error (if t.lexeme = .finish then _ else _))
  rw [if_pos ht]
  split <;> trivial

theorem Settled.bind (h : Settled (p ts)) (hf : ∀ x, Settled (f x [])) : Settled ((p >>= f) ts) := by
  rw [bind_run]
  cases hp : p ts with
  | error e =>
    rw [hp] at h
    cases e <;> exact h
  | ok r =>
    rw [hp] at h
    obtain ⟨x, us⟩ := r
    cases h
    exact hf x

theorem Met.bind (h : Met e w (p ts)) (hf : ∀ x, Settled (f x [])) : Met e w ((p >>= f) ts) := by
  obtain h | ⟨hclose, q, hq⟩ := h
  · exact .inl (h.bind hf)
  · exact .inr ⟨hclose, q, by rw [bind_run, hq]; rfl⟩

/-! ### Sequences -/

/-- A parser that takes something if it succeeds. -/
def Advances (p : Parser α) (ts : List Token) : Prop := ∀ x us, p ts = .ok (x, us) → us.length < ts.length

theorem advances_of_leads (h : ∀ {x us}, p ts = .ok (x, us) → ∃ ls, ls ≠ [] ∧ Leads ts ls us) : Advances p ts := by
  intro x us hx
  obtain ⟨ls, hne, hl⟩ := h hx
  have hlength := hl.length_eq
  have := List.length_pos_iff.2 hne
  omega

theorem Guides.length_le {x : α} (h : Guides now p p' ts) (hx : p ts = .ok (x, us)) : us.length ≤ ts.length := by
  obtain ⟨ls, hl, -⟩ := h.taken hx
  have := hl.length_eq
  omega

theorem Advances.bind (h : Advances p ts) (hf : ∀ x us, Guides now (f x) (fun i => f' i x) us) :
    Advances (p >>= f) ts := by
  intro y vs hy
  obtain ⟨x, us, hx, hy⟩ := bind_eq_ok.1 hy
  exact Nat.lt_of_le_of_lt ((hf x us).length_le hy) (h x us hx)

theorem Advances.map (h : Advances p ts) (g : α → β) : Advances (do return g (← p)) ts := by
  intro y vs hy
  obtain ⟨x, us, hx, hy⟩ := bind_eq_ok.1 hy
  cases hy
  exact h x _ hx

namespace Guides

theorem mono (h : Guides now p p' ts) (hnow : ∀ w, now w → now' w) : Guides now' p p' ts where
  taken := h.taken
  offered he hw := by
    obtain ⟨ls, us, hl, hat, hls, hmet⟩ := h.offered he hw
    exact ⟨ls, us, hl, hat, fun hnil => hnow _ (hls hnil), hmet⟩
  ends := h.ends

/-- What guides some runs guides any others that are among them. -/
theorem among {q' : κ → Parser α} (h : Guides now p p' ts) (hq : ∀ k, ∃ i, q' k = p' i) : Guides now p q' ts where
  taken hx := by
    obtain ⟨ls, hl, hgo⟩ := h.taken hx
    refine ⟨ls, hl, fun {k} _ _ hl' hcalm => ?_⟩
    obtain ⟨i, hi⟩ := hq k
    rw [hi]
    exact hgo hl' hcalm
  offered he hw := by
    obtain ⟨ls, us, hl, hat, hls, hmet⟩ := h.offered he hw
    refine ⟨ls, us, hl, hat, hls, fun {k} _ _ hl' hw' => ?_⟩
    obtain ⟨i, hi⟩ := hq k
    rw [hi]
    exact hmet hl' hw'
  ends k := by
    obtain ⟨i, hi⟩ := hq k
    rw [hi]
    exact h.ends i

protected theorem pure (x : α) : Guides (fun _ => False) (pure x) (fun _ : ι => pure x) ts where
  taken h := by
    cases h
    refine ⟨[], Leads.nil_iff.2 rfl, fun hl _ => ?_⟩
    cases Leads.nil_iff.1 hl
    rfl
  offered h := by cases h
  ends _ := rfl

/-- A run that guides, and from what it leaves another one. What the second expects at first is quiet, so that the
    first is not misled by it. -/
theorem bind_of_run (hp : Guides now p p' ts)
    (hf : ∀ x us, p ts = .ok (x, us) → Guides now' (f x) (fun i => f' i x) us)
    (hends : ∀ i x, Settled (f' i x []))
    (hquiet : ∀ w, now' w → MetQuietly w) (hnow : ∀ w, now w → now'' w)
    (hnow' : ∀ x w, p ts = .ok (x, ts) → now' w → now'' w) :
    Guides now'' (p >>= f) (fun i => p' i >>= f' i) ts where
  taken h := by
    obtain ⟨x, us, hx, hy⟩ := bind_eq_ok.1 h
    obtain ⟨ls, hl, hgo⟩ := hp.taken hx
    obtain ⟨ms, hm, hgo'⟩ := (hf x us hx).taken hy
    refine ⟨ls ++ ms, Leads.append_iff.2 ⟨us, hl, hm⟩, fun h hcalm => ?_⟩
    obtain ⟨us', hl', hm'⟩ := Leads.append_iff.1 h
    rw [bind_run_of_ok (hgo hl' (hcalm.of_leads hm hm'))]
    exact hgo' hm' hcalm
  offered {e w} h hw := by
    obtain h | ⟨x, us, hx, h⟩ := bind_eq_error.1 h
    · obtain ⟨ls, us, hl, hat, hls, hmet⟩ := hp.offered h hw
      exact ⟨ls, us, hl, hat, fun hnil => hnow w (hls hnil), fun {i} _ _ h hw => (hmet h hw).bind (hends i)⟩
    · obtain ⟨ls, hl, hgo⟩ := hp.taken hx
      obtain ⟨ms, vs, hm, hat, hms, hmet⟩ := (hf x us hx).offered h hw
      refine ⟨ls ++ ms, vs, Leads.append_iff.2 ⟨us, hl, hm⟩, hat, fun hnil => ?_, fun h hw => ?_⟩
      · obtain ⟨rfl, rfl⟩ := List.append_eq_nil_iff.1 hnil
        cases Leads.nil_iff.1 hl
        exact hnow' x w hx (hms rfl)
      · obtain ⟨us', hl', hm'⟩ := Leads.append_iff.1 h
        -- the first is followed by what is offered only if the second has taken nothing yet
        have hcalm : Calm us us' := by
          cases ms with
          | nil =>
            cases Leads.nil_iff.1 hm'
            exact .inr (hquiet w (hms rfl) _ hw)
          | cons m ms => exact .inl (hm'.nextLexeme_eq.trans hm.nextLexeme_eq.symm)
        rw [bind_run_of_ok (hgo hl' hcalm)]
        exact hmet hm' hw
  ends i := (hp.ends i).bind (hends i)

theorem bind (hp : Guides now p p' ts) (hf : ∀ x us, Guides now' (f x) (fun i => f' i x) us)
    (hquiet : ∀ w, now' w → MetQuietly w) (hnow : ∀ w, now w → now'' w)
    (hnow' : ∀ x w, p ts = .ok (x, ts) → now' w → now'' w) :
    Guides now'' (p >>= f) (fun i => p' i >>= f' i) ts :=
  hp.bind_of_run (fun x us _ => hf x us) (fun i x => (hf x []).ends i) hquiet hnow hnow'

/-- After a parser that takes something nothing is expected at first. -/
theorem bind_advances (hp : Guides now p p' ts) (hadvances : Advances p ts)
    (hf : ∀ x us, Guides now' (f x) (fun i => f' i x) us) (hquiet : ∀ w, now' w → MetQuietly w) :
    Guides now (p >>= f) (fun i => p' i >>= f' i) ts :=
  hp.bind hf hquiet (fun _ => id) fun x _ hx _ => absurd (hadvances x ts hx) (Nat.lt_irrefl _)

/-- A value made of what has been read. -/
theorem map (h : Guides now p p' ts) (g : α → β) :
    Guides now (do return g (← p)) (fun i => do return g (← p' i)) ts :=
  h.bind (fun x _ => .pure (g x)) (fun _ => False.elim) (fun _ => id) fun _ _ _ => False.elim

end Guides

/-- What a parser does first: it takes a token and goes on from there, which guides what others do after such a token;
    or it fails at once. -/
inductive FirstStep (now : Expectation → Prop) (p : Parser α) (p' : ι → Parser α) (ts : List Token) : Prop
  | takes {l : Lexeme} {us : List Token} {κ : Type} {now' : Expectation → Prop} {q : Parser α} {q' : κ → Parser α} :
    Leads ts [l] us → p ts = q us → Guides now' q q' us →
    (∀ {i ts' us'}, Leads ts' [l] us' → ∃ k, p' i ts' = q' k us') → FirstStep now p p' ts
  | fails {e : SyntaxError} : p ts = .error e → (∀ w ∈ e.expectations, e.AtFirst ts ∧ now w) →
    FirstStep now p p' ts

namespace Guides

/-- A parser guides if its first step does, and if what it expects then settles it. -/
theorem of_firstStep (h : FirstStep now p p' ts)
    (hmet : ∀ {w i tail}, now w → w.MetBy (tail.map Token.lexeme) → Settled (p' i tail))
    (hends : ∀ i, Settled (p' i [])) : Guides now p p' ts where
  taken hx := by
    cases h with
    | takes hl hq hguides hq' =>
      obtain ⟨ls, hls, hgo⟩ := hguides.taken (hq.symm.trans hx)
      refine ⟨_ :: ls, Leads.head_iff.2 ⟨_, hl, hls⟩, fun {i} _ _ hl' hcalm => ?_⟩
      obtain ⟨vs, hv, hls'⟩ := Leads.head_iff.1 hl'
      obtain ⟨k, hk⟩ := @hq' i _ _ hv
      rw [hk]
      exact hgo hls' hcalm
    | fails he => cases he.symm.trans hx
  offered hfail hw := by
    cases h with
    | takes hl hq hguides hq' =>
      obtain ⟨ls, vs, hls, hat, -, hmet⟩ := hguides.offered (hq.symm.trans hfail) hw
      refine ⟨_ :: ls, vs, Leads.head_iff.2 ⟨_, hl, hls⟩, hat, (fun h => by cases h), fun {i} _ _ hl' hw' => ?_⟩
      obtain ⟨us', hv, hls'⟩ := Leads.head_iff.1 hl'
      obtain ⟨k, hk⟩ := @hq' i _ _ hv
      rw [hk]
      exact hmet hls' hw'
    | fails he hoffers =>
      cases he.symm.trans hfail
      obtain ⟨hat, hnow⟩ := hoffers _ hw
      refine ⟨[], ts, Leads.nil_iff.2 rfl, hat, fun _ => hnow, fun hl' hw' => ?_⟩
      cases Leads.nil_iff.1 hl'
      exact .inl (hmet hnow hw')
  ends := hends

/-- A parser that takes one lexeme of some kind, or fails at once. -/
theorem one {R : Lexeme → α → Prop} (hsound : ∀ {x us}, p ts = .ok (x, us) → ∃ l, R l x ∧ Leads ts [l] us)
    (hfails : ∀ {e w}, p ts = .error e → w ∈ e.expectations → e.AtFirst ts ∧ now w)
    (hcomplete : ∀ {i l x ts us}, R l x → Leads ts [l] us → p' i ts = .ok (x, us))
    (hmet : ∀ {w ls}, now w → w.MetBy ls → ∃ l x, ls = [l] ∧ R l x) (hends : ∀ i, Settled (p' i [])) :
    Guides now p p' ts := by
  refine .of_firstStep ?_ (fun {w i tail} hw hmeets => ?_) hends
  · cases hrun : p ts with
    | ok r =>
      obtain ⟨l, hl, hleads⟩ := hsound hrun
      exact .takes hleads (hrun.trans rfl) (.pure r.1) fun {i} _ _ hleads' => ⟨i, hcomplete hl hleads'⟩
    | error e => exact .fails hrun fun w hw => hfails hrun hw
  · obtain ⟨l, x, hls, hl⟩ := hmet hw hmeets
    have hself := Leads.self tail
    rw [hls] at hself
    rw [hcomplete hl hself]
    rfl

/-- A parser that does on some rows what another does: on those that start as the row that is guided from, and on
    what it expects. -/
theorem enter {q : Parser α} {q' : ι → Parser α} (h : Guides now q q' ts)
    (hrun : p ts = q ts ∨ ∃ e, p ts = .error e ∧ e.expectations = [])
    (hadvances : Advances q ts) (hrun' : ∀ {i ts'}, nextLexeme ts' = nextLexeme ts → p' i ts' = q' i ts')
    (hmet : ∀ {w i tail}, now w → w.MetBy (tail.map Token.lexeme) → p' i tail = q' i tail)
    (hends : ∀ i, Settled (p' i [])) : Guides now p p' ts where
  taken hx := by
    have hq := ok_of_run hrun hx
    obtain ⟨ls, hl, hgo⟩ := h.taken hq
    refine ⟨ls, hl, fun {i ts' us'} hl' hcalm => ?_⟩
    cases ls with
    | nil =>
      cases Leads.nil_iff.1 hl
      exact absurd (hadvances _ _ hq) (Nat.lt_irrefl _)
    | cons l ls =>
      rw [hrun' (hl'.nextLexeme_eq.trans hl.nextLexeme_eq.symm)]
      exact hgo hl' hcalm
  offered he hw := by
    obtain ⟨ls, us, hl, hat, hnow, hgo⟩ := h.offered (error_of_run hrun he hw) hw
    refine ⟨ls, us, hl, hat, hnow, fun {i ts' tail} hl' hw' => ?_⟩
    cases ls with
    | nil =>
      cases Leads.nil_iff.1 hl'
      rw [hmet (hnow rfl) hw']
      exact hgo hl' hw'
    | cons l ls =>
      rw [hrun' (hl'.nextLexeme_eq.trans hl.nextLexeme_eq.symm)]
      exact hgo hl' hw'
  ends := hends

end Guides

/-! ### The token that comes next -/

/-- Parsers that go by what comes next. -/
theorem Guides.look {F : Token → Parser α} {F' : FaultFree → Token → Parser α} (hc : ctx.EndsWith last)
    (htaken : ∀ {x us}, F (front last ts) ts = .ok (x, us) → ∃ ls, Leads ts ls us ∧
      ∀ {c : FaultFree} {ts' us'}, Leads ts' ls us' → Calm us us' → F' c (front c.last ts') ts' = .ok (x, us'))
    (hoffered : ∀ {e w}, F (front last ts) ts = .error e → w ∈ e.expectations → ∃ ls us, Leads ts ls us ∧
      e.AtFirst us ∧ (ls = [] → now w) ∧ ∀ {c : FaultFree} {ts' tail}, Leads ts' ls tail →
        w.MetBy (tail.map Token.lexeme) → Met e w (F' c (front c.last ts') ts'))
    (hends : ∀ c : FaultFree, Settled (F' c c.last [])) :
    Guides now (peek ctx >>= F) (fun c => peek c.ctx >>= F' c) ts where
  taken h := by
    obtain ⟨ls, hl, hgo⟩ := htaken (of_peek_bind hc h)
    refine ⟨ls, hl, fun {c} _ _ hl' hcalm => ?_⟩
    rw [peek_bind c.finishes]
    exact hgo hl' hcalm
  offered h hw := by
    obtain ⟨ls, us, hl, hat, hls, hmet⟩ := hoffered (of_peek_bind_error hc hw h) hw
    refine ⟨ls, us, hl, hat, hls, fun {c} _ _ hl' hw' => ?_⟩
    rw [peek_bind c.finishes]
    exact hmet hl' hw'
  ends c := by
    rw [peek_bind c.finishes]
    exact hends c

/-- Parsers that only keep in mind what comes next. -/
theorem Guides.ahead {F : Token → Parser α} {F' : FaultFree → Token → Parser α} (hc : ctx.EndsWith last)
    (h : ∀ t, Guides now (F t) (fun i : FaultFree × Token => F' i.1 i.2) ts) :
    Guides now (peek ctx >>= F) (fun c => peek c.ctx >>= F' c) ts := by
  refine .look hc (fun hx => ?_) (fun he hw => ?_) fun c => (h c.last).ends (c, c.last)
  · obtain ⟨ls, hl, hgo⟩ := (h _).taken hx
    exact ⟨ls, hl, fun {c} _ _ => @hgo (c, _) _ _⟩
  · obtain ⟨ls, us, hl, hat, hnow, hmet⟩ := (h _).offered he hw
    exact ⟨ls, us, hl, hat, hnow, fun {c} _ _ => @hmet (c, _) _ _⟩

theorem cons_of_nextLexeme {l : Lexeme} (h : nextLexeme ts = l) (hl : l ≠ .finish) :
    ∃ t us, ts = t :: us ∧ t.lexeme = l := by
  cases ts with
  | nil => exact absurd h.symm hl
  | cons t us => exact ⟨t, us, rfl, h⟩

/-- What starts alike, or was not gone into and goes on quietly, does not start with a lexeme that is not quiet. -/
theorem nextLexeme_ne {l : Lexeme} (hl : Leads ts ls us) (hl' : Leads ts' ls us') (hcalm : Calm us us')
    (hne : nextLexeme ts ≠ l) (hfirm : Quiet l → us.length < ts.length) : nextLexeme ts' ≠ l := by
  intro heq
  rcases hcalm.of_leads hl hl' with hsame | hquiet
  · exact hne (hsame.symm.trans heq)
  cases ls with
  | nil =>
    cases Leads.nil_iff.1 hl
    exact Nat.lt_irrefl _ (hfirm (heq ▸ hquiet))
  | cons k ls => exact hne (hl.nextLexeme_eq.trans (hl'.nextLexeme_eq.symm.trans heq))

/-- Parsers that go by whether a certain lexeme comes next, and take it if so. If it is quiet, the others have to take
    something, so that they are not followed by it. -/
theorem Guides.branch (now' : Expectation → Prop) {l : Lexeme} {p : Token → Parser α}
    {p' : FaultFree → Token → Parser α} {q : Parser α} {q' : FaultFree → Parser α} (hc : ctx.EndsWith last)
    (hl : l ≠ .finish) (hp : ∀ t us, Guides now' (p t) (fun i : FaultFree × Token => p' i.1 i.2) us)
    (hq : Guides now q q' ts) (hfirm : Quiet l → Advances q ts) :
    Guides now (peek ctx >>= fun t => if t.lexeme = l then discard (advance ctx) >>= fun _ => p t else q)
      (fun c => peek c.ctx >>= fun t => if t.lexeme = l then discard (advance c.ctx) >>= fun _ => p' c t else q' c)
      ts := by
  have hfirst {ctx : Context} {p : Token → Parser α} {q : Parser α} {t : Token} {vs : List Token}
      (ht : t.lexeme = l) :
      (peek ctx >>= fun t => if t.lexeme = l then discard (advance ctx) >>= fun _ => p t else q) (t :: vs) =
        p t vs := by
    rw [peek_bind_cons, ite_run, if_pos ht, skip_bind_cons]
  have hother {c : FaultFree} {us : List Token} (hn : nextLexeme us ≠ l) :
      (peek c.ctx >>= fun t => if t.lexeme = l then discard (advance c.ctx) >>= fun _ => p' c t else q' c) us =
        q' c us := by
    rw [peek_bind c.finishes, ite_run, lexeme_front c.finishes.endsWith, if_neg hn]
  have hends (c : FaultFree) : Settled
      ((peek c.ctx >>= fun t => if t.lexeme = l then discard (advance c.ctx) >>= fun _ => p' c t else q' c) []) := by
    have hnil : nextLexeme [] ≠ l := hl.symm
    rw [hother hnil]
    exact hq.ends c
  by_cases hn : nextLexeme ts = l
  · obtain ⟨t, vs, rfl, ht⟩ := cons_of_nextLexeme hn hl
    refine .mono (.of_firstStep (.takes ⟨ht, Leads.nil_iff.2 rfl⟩ (hfirst ht) (hp t vs) fun {c} _ _ hl' => ?_)
      (fun h => h.elim) hends) fun _ => False.elim
    obtain ⟨t', vs', rfl, ht', hv⟩ := Leads.cons_iff.1 hl'
    cases Leads.nil_iff.1 hv
    exact ⟨(c, t'), hfirst ht'⟩
  · have hrun := peek_bind_or hc (fun t => if t.lexeme = l then discard (advance ctx) >>= fun _ => p t else q) ts
    rw [ite_run, lexeme_front hc, if_neg hn] at hrun
    refine ⟨fun {x us} hx => ?_, fun he hw => ?_, hends⟩
    · have hx := ok_of_run hrun hx
      obtain ⟨ls, hls, hgo⟩ := hq.taken hx
      refine ⟨ls, hls, fun {c} _ _ hl' hcalm => ?_⟩
      rw [hother (nextLexeme_ne hls hl' hcalm hn fun hquiet => hfirm hquiet x us hx)]
      exact hgo hl' hcalm
    · obtain ⟨ls, us, hls, hat, hnow, hmet⟩ := hq.offered (error_of_run hrun he hw) hw
      refine ⟨ls, us, hls, hat, hnow, fun {c ts' tail} hl' hw' => ?_⟩
      by_cases hn' : nextLexeme ts' = l
      · -- what is offered is the lexeme itself, and nothing comes after it
        obtain ⟨t', vs', rfl, ht'⟩ := cons_of_nextLexeme hn' hl
        cases ls with
        | nil =>
          cases Leads.nil_iff.1 hl'
          cases tail_eq_nil_of_metBy hw'
          rw [hfirst ht']
          exact .inl ((hp t' []).ends (c, t'))
        | cons k ls => exact absurd (hls.nextLexeme_eq.trans (hl'.nextLexeme_eq.symm.trans hn')) hn
      · rw [hother hn']
        exact hmet hl' hw'

/-! ### Marks -/

/-- Takes a mark, or fails. -/
def take (ctx : Context) (m : Mark) (cause : Lexeme → GrammarCause) : Parser Unit := do
  let t ← peek ctx
  if t.lexeme = .mark m then
    discard (advance ctx)
  else
    fail ctx (cause t.lexeme) t

/-- Takes either of two marks and goes on in its way, or fails. -/
def fork (ctx : Context) (m m' : Mark) (cause : Lexeme → GrammarCause) (q : Parser α) (g : PUnit → Parser α) :
    Parser α := do
  let t ← peek ctx
  if t.lexeme = .mark m then
    discard (advance ctx)
    q
  else
    take ctx m' cause >>= g

section
variable {m m' : Mark} {cause : Lexeme → GrammarCause} {q : Parser α} {g : PUnit → Parser α}

theorem take_eq_ok (hc : ctx.EndsWith last) (h : Leads ts [.mark m] us) : take ctx m cause ts = .ok ((), us) :=
  (take_eq_ok_iff hc (by simp) _).2 h

theorem take_advances (hc : ctx.EndsWith last) : Advances (take ctx m cause) ts :=
  advances_of_leads fun h => ⟨_, by simp, (take_eq_ok_iff hc (by simp) _).1 h⟩

theorem take_fails (hc : ctx.EndsWith last) (h : take ctx m cause ts = .error e) (hw : w ∈ e.expectations) :
    e.AtFirst ts ∧ e.cause? = some (cause (nextLexeme ts)) := by
  have h := of_peek_bind_error hc hw h
  rw [ite_run, lexeme_front hc] at h
  split at h
  next hn =>
    obtain ⟨t, us, rfl, -⟩ := cons_of_nextLexeme hn (by simp)
    cases h
  next => exact ⟨atFirst_of_fail hc h, cause_of_fail h⟩

theorem take_nil (c : FaultFree) (m : Mark) (cause : Lexeme → GrammarCause) :
    ∃ cause' opener p, take c.ctx m cause [] = .error (.incomplete cause' opener p) := by
  have hsettled : Settled (take c.ctx m cause []) := by
    unfold take
    rw [peek_bind c.finishes, front, ite_run, c.finishes.lexeme, if_neg (by simp)]
    exact settled_fail c.finishes.lexeme
  cases hrun : take c.ctx m cause [] with
  | ok r => exact False.elim ((take_eq_ok_iff c.finishes.endsWith (by simp) _).1 hrun)
  | error e =>
    rw [hrun] at hsettled
    cases e with
    | incomplete cause' opener p => exact ⟨cause', opener, p, rfl⟩
    | _ => exact hsettled.elim

theorem settled_take_bind (c : FaultFree) (m : Mark) (cause : Lexeme → GrammarCause) (g : Unit → Parser α) :
    Settled ((take c.ctx m cause >>= g) []) := by
  obtain ⟨cause', opener, p, h⟩ := take_nil c m cause
  rw [bind_run, h]
  trivial

/-- A mark that is the only one expected. -/
theorem guides_take (hc : ctx.EndsWith last) (hcause : ∀ found, (cause found).expectations = [.mark m]) :
    Guides (· = .mark m) (take ctx m cause) (fun c : FaultFree => take c.ctx m cause) ts := by
  refine .one (R := fun l _ => l = .mark m) (fun h => ?_) (fun h hw => ?_) (fun {c} _ _ _ _ hl h => ?_)
    (fun hw hls => ?_) fun c => ?_
  · exact ⟨_, rfl, (take_eq_ok_iff hc (by simp) _).1 h⟩
  · obtain ⟨hat, hfails⟩ := take_fails hc h hw
    rw [SyntaxError.expectations_of_cause hfails, hcause] at hw
    exact ⟨hat, List.mem_singleton.1 hw⟩
  · exact take_eq_ok c.finishes.endsWith (hl ▸ h)
  · subst hw
    exact ⟨_, (), hls, rfl⟩
  · obtain ⟨cause', opener, p, h⟩ := take_nil c m cause
    rw [h]
    trivial

theorem fork_first (h : Leads ts [.mark m] us) : fork ctx m m' cause q g ts = q us := by
  obtain ⟨t, vs, rfl, ht, hv⟩ := Leads.cons_iff.1 h
  cases Leads.nil_iff.1 hv
  unfold fork
  rw [peek_bind_cons, ite_run, if_pos ht, skip_bind_cons]

theorem fork_second (hc : ctx.EndsWith last) (hne : m' ≠ m) (h : Leads ts [.mark m'] us) :
    fork ctx m m' cause q g ts = g ⟨⟩ us := by
  obtain ⟨t, vs, rfl, ht, -⟩ := Leads.cons_iff.1 h
  unfold fork
  rw [peek_bind_cons, ite_run, if_neg (by simp [ht, hne])]
  exact bind_run_of_ok (take_eq_ok hc h)

theorem fork_fails (cause : Lexeme → GrammarCause) (q : Parser α) (g : PUnit → Parser α) (hc : ctx.EndsWith last)
    (hn : nextLexeme ts ≠ .mark m) (hn' : nextLexeme ts ≠ .mark m') :
    ∃ e, fork ctx m m' cause q g ts = .error e ∧
      ∀ w ∈ e.expectations, e.AtFirst ts ∧ e.cause? = some (cause (nextLexeme ts)) := by
  have hnot {us : List Token} : take ctx m' cause ts ≠ .ok ((), us) := fun h =>
    hn' ((take_eq_ok_iff hc (by simp) _).1 h).nextLexeme_eq
  cases hrun : fork ctx m m' cause q g ts with
  | ok r =>
    have h := of_peek_bind hc hrun
    rw [ite_run, lexeme_front hc, if_neg hn] at h
    obtain ⟨_, us, htake, -⟩ := bind_eq_ok.1 h
    exact absurd htake hnot
  | error e =>
    refine ⟨e, rfl, fun w hw => ?_⟩
    have h := of_peek_bind_error hc hw hrun
    rw [ite_run, lexeme_front hc, if_neg hn] at h
    obtain h | ⟨_, us, htake, -⟩ := bind_eq_error.1 h
    · exact take_fails hc h hw
    · exact absurd htake hnot

theorem settled_fork (c : FaultFree) : Settled (fork c.ctx m m' cause q g []) := by
  unfold fork
  rw [peek_bind c.finishes, front, ite_run, c.finishes.lexeme, if_neg (by simp)]
  exact settled_take_bind c m' cause g

/-- Where either of two marks is expected, each with what it leads to. -/
theorem guides_fork {q' : FaultFree → Parser α} {g' : FaultFree → PUnit → Parser α} (hc : ctx.EndsWith last)
    (hne : m' ≠ m) (hcause : ∀ found, ∀ w ∈ (cause found).expectations, w = .mark m ∨ w = .mark m')
    (hq : ∀ us, Guides now q q' us) (hg : ∀ us, Leads ts [.mark m'] us → Guides now (g ⟨⟩) (fun c => g' c ⟨⟩) us)
    (hends : ∀ c, Settled (g' c ⟨⟩ [])) : Guides (fun w => w = .mark m ∨ w = .mark m') (fork ctx m m' cause q g)
      (fun c : FaultFree => fork c.ctx m m' cause (q' c) (g' c)) ts := by
  refine .of_firstStep ?_ (fun {w c tail} hw hmet => ?_) fun c => settled_fork c
  · by_cases hn : nextLexeme ts = .mark m
    · have hl := leads_tail hn (by simp)
      exact .takes hl (fork_first hl) (hq _) fun {c} _ _ hl' => ⟨c, fork_first hl'⟩
    by_cases hn' : nextLexeme ts = .mark m'
    · have hl := leads_tail hn' (by simp)
      exact .takes hl (fork_second hc hne hl) (hg _ hl)
        fun {c} _ _ hl' => ⟨c, fork_second c.finishes.endsWith hne hl'⟩
    · obtain ⟨e, he, hw⟩ := fork_fails cause q g hc hn hn'
      refine .fails he fun w h => ?_
      obtain ⟨hat, hfails⟩ := hw w h
      exact ⟨hat, hcause _ w (SyntaxError.expectations_of_cause hfails ▸ h)⟩
  · rcases hw with rfl | rfl
    · rw [fork_first (leads_of_metBy_mark hmet)]
      exact (hq []).ends c
    · rw [fork_second c.finishes.endsWith hne (leads_of_metBy_mark hmet)]
      exact hends c

end

end Expr
end JsonQuery
