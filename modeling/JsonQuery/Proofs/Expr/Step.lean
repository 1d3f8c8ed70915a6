import JsonQuery.Proofs.Expr.Grammar

/-! What the small parsers take from a row of tokens. `Leads ts ls us` says that some tokens are the lexemes
    `ls` followed by the tokens `us`; a parser that leaves `us` of `ts` has then taken `ls`. Each parser
    that holds no subexpression succeeds on the rows of its relation in the grammar, and on no others. -/

namespace JsonQuery

/-- The lexeme that some tokens start with; the end if there are none. -/
def Token.nextLexeme : List Token → Lexeme
  | [] => .finish
  | t :: _ => t.lexeme

/-- Tokens that are certain lexemes followed by certain tokens. -/
def Token.Leads : List Token → List Lexeme → List Token → Prop
  | ts, [], us => ts = us
  | [], _ :: _, _ => False
  | t :: ts, l :: ls, us => t.lexeme = l ∧ Leads ts ls us

open Token (nextLexeme Leads)

namespace Token.Leads

variable {ts us : List Token}

theorem nil_iff : Leads ts [] us ↔ ts = us := by cases ts <;> rfl

theorem cons_iff {l : Lexeme} {ls : List Lexeme} :
    Leads ts (l :: ls) us ↔ ∃ t vs, ts = t :: vs ∧ t.lexeme = l ∧ Leads vs ls us := by
  cases ts with
  | nil => simp [Leads]
  | cons t ts => exact ⟨fun h => ⟨t, ts, rfl, h⟩, fun ⟨_, _, e, h⟩ => by cases e; exact h⟩

theorem append_iff : ∀ {ts : List Token} {ls ms : List Lexeme},
    Leads ts (ls ++ ms) us ↔ ∃ vs, Leads ts ls vs ∧ Leads vs ms us
  | ts, [], ms => by simp [nil_iff]
  | [], l :: ls, ms => by simp [Leads]
  | t :: ts, l :: ls, ms => by
    simp only [List.cons_append, Leads, @append_iff ts ls]
    constructor
    · rintro ⟨ht, vs, h, h'⟩
      exact ⟨vs, ⟨ht, h⟩, h'⟩
    · rintro ⟨vs, ⟨ht, h⟩, h'⟩
      exact ⟨ht, vs, h, h'⟩

theorem head_iff {l : Lexeme} {ls : List Lexeme} : Leads ts (l :: ls) us ↔
    ∃ vs, Leads ts [l] vs ∧ Leads vs ls us :=
  @append_iff us ts [l] ls

theorem self : ∀ ts : List Token, Leads ts (ts.map Token.lexeme) [] := by
  intro ts
  induction ts with
  | nil => rfl
  | cons t ts ih => exact ⟨rfl, ih⟩

theorem map_eq : ∀ {ts : List Token} {ls : List Lexeme}, Leads ts ls [] → ts.map Token.lexeme = ls
  | ts, [], h => by rw [nil_iff.1 h]; rfl
  | t :: ts, l :: ls, h => by rw [List.map_cons, h.1, map_eq h.2]

theorem length_eq : ∀ {ts : List Token} {ls : List Lexeme}, Leads ts ls us → ts.length = ls.length + us.length
  | ts, [], h => by rw [nil_iff.1 h]; simp
  | t :: ts, l :: ls, h => by simp only [List.length_cons, length_eq h.2]; omega

theorem mem_of_mem : ∀ {ts : List Token} {ls : List Lexeme}, Leads ts ls us → ∀ t ∈ us, t ∈ ts
  | ts, [], h, t, ht => by rwa [nil_iff.1 h]
  | _ :: ts, _ :: ls, h, t, ht => List.mem_cons_of_mem _ (mem_of_mem h.2 t ht)

theorem ne_nil {l : Lexeme} {ls ms : List Lexeme} (h : Leads ts (ls ++ l :: ms) us) : ts ≠ [] := by
  rintro rfl
  have hlen := h.length_eq
  simp only [List.length_nil, List.length_append, List.length_cons] at hlen
  omega

theorem nextLexeme_eq {l : Lexeme} {ls : List Lexeme} (h : Leads ts (l :: ls) us) : nextLexeme ts = l := by
  obtain ⟨t, vs, rfl, ht, -⟩ := cons_iff.1 h
  exact ht

end Token.Leads

namespace Expr

/-- The token of the end in a context, if the tokens end without a fault. -/
structure Context.EndsWith (ctx : Context) (last : Token) : Prop where
  ending : ∀ t, ctx.ending = .finish t → t = last
  lexeme : last.lexeme = .finish

theorem Context.EndsWith.inside {ctx : Context} {last : Token} (hc : ctx.EndsWith last) (opener : Token) :
    (ctx.inside opener).EndsWith last := ⟨hc.ending, hc.lexeme⟩

/-- The token that some tokens start with; `last` if there are none. -/
def front (last : Token) : List Token → Token
  | [] => last
  | t :: _ => t

variable {α β : Type} {ctx : Context} {last : Token} {ts us : List Token}

theorem lexeme_front (hc : ctx.EndsWith last) (ts : List Token) : (front last ts).lexeme = nextLexeme ts := by
  cases ts with
  | nil => exact hc.lexeme
  | cons t ts => rfl

/-! ### Runs of the primitive parsers -/

theorem bind_run (p : Parser α) (f : α → Parser β) (ts : List Token) :
    (p >>= f) ts = (p ts).bind fun r => f r.1 r.2 := rfl

theorem bind_run_of_ok {p : Parser α} {f : α → Parser β} {x : α} (h : p ts = .ok (x, us)) :
    (p >>= f) ts = f x us := by
  rw [bind_run, h]; rfl

/-- A sequence of parsers succeeds as each of its parsers does. -/
theorem bind_eq_ok {p : Parser α} {f : α → Parser β} {r : β × List Token} :
    (p >>= f) ts = .ok r ↔ ∃ x us, p ts = .ok (x, us) ∧ f x us = .ok r := by
  rw [bind_run]
  cases h : p ts with
  | error e => simp [Except.bind]
  | ok a => exact ⟨fun hf => ⟨a.1, a.2, rfl, hf⟩, fun ⟨x, us, hx, hf⟩ => by cases hx; exact hf⟩

theorem not_fail_eq_ok {cause : GrammarCause} {t : Token} {r : α × List Token} :
    ¬ (fail ctx cause t : Parser α) ts = .ok r := by
  intro h
  cases h

theorem ite_run (c : Prop) [Decidable c] (p q : Parser α) (ts : List Token) :
    (if c then p else q) ts = if c then p ts else q ts := by
  split <;> rfl

theorem eq_front_of_first {t : Token} (hc : ctx.EndsWith last) (h : ctx.first ts = .ok t) :
    t = front last ts := by
  cases ts with
  | nil =>
    cases he : ctx.ending with
    | finish t' =>
      simp only [Context.first, Context.last, he] at h
      cases h
      exact hc.ending t he
    | fault f => simp [Context.first, Context.last, he] at h
  | cons t' ts =>
    cases h
    rfl

theorem cons_of_first {t : Token} (hc : ctx.EndsWith last) (ht : ctx.first ts = .ok t)
    (hne : t.lexeme ≠ .finish) : ∃ us, ts = t :: us := by
  obtain rfl := eq_front_of_first hc ht
  cases ts with
  | cons u us => exact ⟨us, rfl⟩
  | nil => exact absurd hc.lexeme hne

theorem of_first_bind {g k : List Token → List Token} {f : Token → Parser α} {r : α × List Token}
    (hc : ctx.EndsWith last)
    (h : ((fun ts => (ctx.first (g ts)).map fun t => (t, k ts) : Parser Token) >>= f) ts = .ok r) :
    f (front last (g ts)) (k ts) = .ok r := by
  rw [bind_run] at h
  cases hfirst : ctx.first (g ts) with
  | error e =>
    rw [hfirst] at h
    cases h
  | ok t =>
    rw [hfirst] at h
    rwa [← eq_front_of_first hc hfirst]

/-- Looking ahead finds what comes next, or fails. -/
theorem of_peek_bind {f : Token → Parser α} {r : α × List Token} (hc : ctx.EndsWith last)
    (h : (peek ctx >>= f) ts = .ok r) : f (front last ts) ts = .ok r :=
  of_first_bind (g := id) (k := id) hc h

theorem of_peekSecond_bind {f : Token → Parser α} {r : α × List Token} (hc : ctx.EndsWith last)
    (h : (peekSecond ctx >>= f) ts = .ok r) : f (front last ts.tail) ts = .ok r :=
  of_first_bind (k := id) hc h

theorem of_advance_bind {f : Token → Parser α} {r : α × List Token} (hc : ctx.EndsWith last)
    (h : (advance ctx >>= f) ts = .ok r) : f (front last ts) ts.tail = .ok r :=
  of_first_bind (g := id) hc h

theorem of_skip {r : PUnit × List Token} (hc : ctx.EndsWith last)
    (h : (discard (advance ctx) : Parser PUnit) ts = .ok r) : r.2 = ts.tail := by
  have h : (advance ctx >>= fun _ => (pure ⟨⟩ : Parser PUnit)) ts = .ok r := h
  have h := of_advance_bind hc h
  cases h
  rfl

theorem of_skip_bind {f : PUnit → Parser α} {r : α × List Token} (hc : ctx.EndsWith last)
    (h : (discard (advance ctx) >>= f) ts = .ok r) : f ⟨⟩ ts.tail = .ok r := by
  obtain ⟨_, us, hd, hf⟩ := bind_eq_ok.1 h
  cases of_skip hc hd
  exact hf

theorem peek_bind_front (last : Token) (f : Token → Parser α) (h : ts ≠ []) :
    (peek ctx >>= f) ts = f (front last ts) ts := by
  cases ts with
  | nil => exact absurd rfl h
  | cons t ts => rfl

theorem peek_bind_cons (f : Token → Parser α) (t : Token) (ts : List Token) :
    (peek ctx >>= f) (t :: ts) = f t (t :: ts) := rfl

theorem peekSecond_bind_cons (f : Token → Parser α) (t t' : Token) (ts : List Token) :
    (peekSecond ctx >>= f) (t :: t' :: ts) = f t' (t :: t' :: ts) := rfl

theorem advance_bind_cons (f : Token → Parser α) (t : Token) (ts : List Token) :
    (advance ctx >>= f) (t :: ts) = f t ts := rfl

theorem skip_bind_cons (f : PUnit → Parser α) (t : Token) (ts : List Token) :
    (discard (advance ctx) >>= f) (t :: ts) = f ⟨⟩ ts := rfl

theorem ne_finish_of_lt_power {power : Nat} {l : Lexeme} (h : power < l.power) : l ≠ .finish := by
  rintro rfl
  exact Nat.not_lt_zero _ h

/-- Skipping the lexeme that comes next, other than the end, takes it. -/
theorem leads_tail {l : Lexeme} (h : nextLexeme ts = l) (hl : l ≠ .finish) : Leads ts [l] ts.tail := by
  cases ts with
  | nil => exact absurd h.symm hl
  | cons t ts => exact ⟨h, Leads.nil_iff.2 rfl⟩

theorem tail_eq_of_leads {l : Lexeme} (h : Leads ts [l] us) : ts.tail = us := by
  obtain ⟨t, vs, rfl, -, hv⟩ := Leads.cons_iff.1 h
  exact Leads.nil_iff.1 hv

/-! ### Marks and numbers -/

/-- A parser of one lexeme takes that lexeme and nothing else. -/
theorem take_eq_ok_iff (hc : ctx.EndsWith last) {l : Lexeme} (hl : l ≠ .finish)
    (cause : Token → GrammarCause) :
    (do let t ← peek ctx
        if t.lexeme = l then discard (advance ctx) else fail ctx (cause t) t : Parser Unit) ts = .ok ((), us)
      ↔ Leads ts [l] us := by
  constructor
  · intro h
    have h := of_peek_bind hc h
    rw [ite_run, lexeme_front hc] at h
    split at h
    next hn =>
      cases of_skip hc h
      exact leads_tail hn hl
    next => exact absurd h not_fail_eq_ok
  · intro h
    obtain ⟨t, vs, rfl, ht, hv⟩ := Leads.cons_iff.1 h
    cases Leads.nil_iff.1 hv
    rw [peek_bind_cons, ite_run, if_pos ht]
    rfl

theorem expect_eq_ok_iff (hc : ctx.EndsWith last) {m : Mark} :
    expect ctx m ts = .ok ((), us) ↔ Leads ts [.mark m] us :=
  take_eq_ok_iff hc (by simp) fun t => .expected (.mark m) t.lexeme

theorem separator_eq_ok_iff (hc : ctx.EndsWith last) {closer : Mark} :
    separator ctx closer ts = .ok ((), us) ↔ Leads ts [.mark .comma] us :=
  take_eq_ok_iff hc (by simp) fun t => .notASeparator closer t.lexeme

theorem closeSelector_eq_ok_iff (hc : ctx.EndsWith last) {mayGoOn : Bool} :
    closeSelector ctx mayGoOn ts = .ok ((), us) ↔ Leads ts [.mark .rbracket] us :=
  take_eq_ok_iff hc (by simp) fun t => .unclosedSelector mayGoOn t.lexeme

theorem number_eq_ok_iff (hc : ctx.EndsWith last) {n : Nat} :
    number ctx ts = .ok (n, us) ↔ Leads ts [.number n] us := by
  constructor
  · intro h
    have h := of_peek_bind hc h
    rw [lexeme_front hc] at h
    cases hk : nextLexeme ts with
    | number k =>
      rw [hk] at h
      have h := of_skip_bind (f := fun _ => pure k) hc h
      cases h
      exact leads_tail hk (by simp)
    | _ =>
      rw [hk] at h
      exact absurd h not_fail_eq_ok
  · intro h
    obtain ⟨⟨_, start, stop, offset⟩, vs, rfl, rfl, hv⟩ := Leads.cons_iff.1 h
    cases Leads.nil_iff.1 hv
    rfl

theorem integer_eq_ok_iff (hc : ctx.EndsWith last) {i : Int} :
    integer ctx ts = .ok (i, us) ↔ ∃ ls, Grammar.Integer ls i ∧ Leads ts ls us := by
  constructor
  · intro h
    have h := of_peek_bind hc h
    rw [ite_run, lexeme_front hc] at h
    split at h
    next hm =>
      have h := of_skip_bind hc h
      obtain ⟨n, vs, hn, h⟩ := bind_eq_ok.1 h
      cases h
      exact ⟨_, .minus n, Leads.append_iff.2 ⟨_, leads_tail hm (by simp), (number_eq_ok_iff hc).1 hn⟩⟩
    next =>
      obtain ⟨n, vs, hn, h⟩ := bind_eq_ok.1 h
      cases h
      exact ⟨_, .plain n, (number_eq_ok_iff hc).1 hn⟩
  · rintro ⟨ls, hi, h⟩
    unfold integer
    cases hi with
    | plain n =>
      obtain ⟨t, vs, rfl, ht, -⟩ := Leads.cons_iff.1 h
      rw [peek_bind_cons, ite_run, if_neg (by simp [ht])]
      exact bind_run_of_ok ((number_eq_ok_iff hc).2 h)
    | minus n =>
      obtain ⟨t, vs, rfl, ht, hv⟩ := Leads.cons_iff.1 h
      rw [peek_bind_cons, ite_run, if_pos ht, skip_bind_cons]
      exact bind_run_of_ok ((number_eq_ok_iff hc).2 hv)

/-! ### Indices and slices -/

theorem startsInteger_of_leads {ls : List Lexeme} {i : Int} (hi : Grammar.Integer ls i) (h : Leads ts ls us) :
    startsInteger (nextLexeme ts) = true := by
  cases hi with
  | plain n => rw [h.nextLexeme_eq]; rfl
  | minus n => rw [h.nextLexeme_eq]; rfl

theorem not_colon_of_leads {ls : List Lexeme} {i : Int} (hi : Grammar.Integer ls i) (h : Leads ts ls us) :
    nextLexeme ts ≠ .mark .colon := by
  cases hi with
  | plain n => rw [h.nextLexeme_eq]; simp
  | minus n => rw [h.nextLexeme_eq]; simp

theorem bound_sound {b : Option Int} (hc : ctx.EndsWith last) (h : bound ctx ts = .ok (b, us)) :
    ∃ ls, Grammar.Bound ls b ∧ Leads ts ls us := by
  have h := of_peek_bind hc h
  rw [ite_run] at h
  split at h
  next =>
    obtain ⟨i, vs, hi, h⟩ := bind_eq_ok.1 h
    cases h
    obtain ⟨ls, hi, hl⟩ := (integer_eq_ok_iff hc).1 hi
    exact ⟨ls, .present hi, hl⟩
  next =>
    cases h
    exact ⟨[], .absent, Leads.nil_iff.2 rfl⟩

/-- A bound is taken wherever an integer starts, so an absent one is found before any other lexeme. -/
theorem bound_complete (hc : ctx.EndsWith last) {b : Option Int} {l : Lexeme} {ls ms : List Lexeme}
    (hb : Grammar.Bound ls b) (hl : startsInteger l = false) (h : Leads ts (ls ++ l :: ms) us) :
    ∃ vs, bound ctx ts = .ok (b, vs) ∧ Leads vs (l :: ms) us := by
  unfold bound
  cases hb with
  | absent =>
    obtain ⟨t, vs, rfl, ht, hv⟩ := Leads.cons_iff.1 h
    refine ⟨t :: vs, ?_, h⟩
    rw [peek_bind_cons, ite_run, if_neg (by simp [ht, hl])]
    rfl
  | present hi =>
    obtain ⟨vs, hv, hl⟩ := Leads.append_iff.1 h
    refine ⟨vs, ?_, hl⟩
    rw [peek_bind_front last _ h.ne_nil, ite_run, lexeme_front hc, if_pos (startsInteger_of_leads hi hv)]
    exact bind_run_of_ok ((integer_eq_ok_iff hc).2 ⟨_, hi, hv⟩)

theorem sliceFrom_sound (hc : ctx.EndsWith last) {base : Option Expr} {ls : List Lexeme} {start : Option Int}
    {e : Expr} (hs : Grammar.Bound ls start) (hn : nextLexeme ts = .mark .colon)
    (h : sliceFrom ctx base start ts = .ok (e, us)) :
    ∃ ms, Grammar.Selector base (ls ++ .mark .colon :: ms) e ∧
      Leads ts (.mark .colon :: ms ++ [.mark .rbracket]) us := by
  have h := of_skip_bind hc h
  obtain ⟨stop, vs, hstop, h⟩ := bind_eq_ok.1 h
  obtain ⟨ms, hms, hv⟩ := bound_sound hc hstop
  have hcolon := leads_tail hn (by simp)
  have h := of_peek_bind hc h
  rw [ite_run, lexeme_front hc] at h
  split at h
  next hn' =>
    have h := of_peek_bind hc (of_skip_bind hc h)
    obtain ⟨step, ws, hstep, h⟩ := bind_eq_ok.1 h
    obtain ⟨ns, hns, hw⟩ := bound_sound hc hstep
    obtain ⟨_, xs, hclose, h⟩ := bind_eq_ok.1 h
    rw [ite_run] at h
    split at h
    next => exact absurd h not_fail_eq_ok
    next hne =>
      cases h
      refine ⟨ms ++ .mark .colon :: ns, .stepped hs hms hns hne, ?_⟩
      have hv' := Leads.append_iff.2 ⟨_, hv, Leads.append_iff.2 ⟨_, leads_tail hn' (by simp), hw⟩⟩
      exact Leads.append_iff.2 ⟨_, Leads.append_iff.2 ⟨_, hcolon, hv'⟩, (closeSelector_eq_ok_iff hc).1 hclose⟩
  next =>
    obtain ⟨_, ws, hclose, h⟩ := bind_eq_ok.1 h
    cases h
    refine ⟨ms, .slice hs hms, ?_⟩
    exact Leads.append_iff.2 ⟨_, Leads.append_iff.2 ⟨_, hcolon, hv⟩, (closeSelector_eq_ok_iff hc).1 hclose⟩

theorem selector_sound (hc : ctx.EndsWith last) {base : Option Expr} {e : Expr}
    (h : selector ctx base ts = .ok (e, us)) :
    ∃ ls, Grammar.Selector base ls e ∧ Leads ts (ls ++ [.mark .rbracket]) us := by
  have h := of_peek_bind hc h
  rw [ite_run, lexeme_front hc] at h
  split at h
  next hn =>
    obtain ⟨ms, hsel, hl⟩ := sliceFrom_sound hc .absent hn h
    exact ⟨_, hsel, hl⟩
  next =>
    obtain ⟨i, vs, hi, h⟩ := bind_eq_ok.1 h
    obtain ⟨ls, hi, hv⟩ := (integer_eq_ok_iff hc).1 hi
    have h := of_peek_bind hc h
    rw [ite_run, lexeme_front hc] at h
    split at h
    next hn =>
      obtain ⟨ms, hsel, hl⟩ := sliceFrom_sound hc (.present hi) hn h
      exact ⟨_, hsel, by rw [List.append_assoc]; exact Leads.append_iff.2 ⟨_, hv, hl⟩⟩
    next =>
      obtain ⟨_, ws, hclose, h⟩ := bind_eq_ok.1 h
      cases h
      exact ⟨ls, .index hi, Leads.append_iff.2 ⟨_, hv, (closeSelector_eq_ok_iff hc).1 hclose⟩⟩

theorem sliceFrom_slice (hc : ctx.EndsWith last) {base : Option Expr} {ms : List Lexeme}
    {start stop : Option Int}
    (hstop : Grammar.Bound ms stop) (h : Leads ts (.mark .colon :: (ms ++ [.mark .rbracket])) us) :
    sliceFrom ctx base start ts = .ok (.slice base start stop none, us) := by
  obtain ⟨t, vs, rfl, -, hv⟩ := Leads.cons_iff.1 h
  obtain ⟨ws, hb, hclose⟩ := bound_complete hc hstop rfl hv
  obtain ⟨t', xs, rfl, ht', -⟩ := Leads.cons_iff.1 hclose
  unfold sliceFrom
  rw [skip_bind_cons, bind_run_of_ok hb, peek_bind_cons, ite_run, if_neg (by simp [ht'])]
  exact bind_run_of_ok ((closeSelector_eq_ok_iff hc).2 hclose)

theorem sliceFrom_stepped (hc : ctx.EndsWith last) {base : Option Expr} {ms ns : List Lexeme}
    {start stop step : Option Int} (hstop : Grammar.Bound ms stop) (hstep : Grammar.Bound ns step)
    (hne : step ≠ some 0)
    (h : Leads ts (.mark .colon :: (ms ++ .mark .colon :: (ns ++ [.mark .rbracket]))) us) :
    sliceFrom ctx base start ts = .ok (.slice base start stop step, us) := by
  obtain ⟨t, vs, rfl, -, hv⟩ := Leads.cons_iff.1 h
  obtain ⟨ws, hb, hw⟩ := bound_complete hc hstop rfl hv
  obtain ⟨t', xs, rfl, ht', hx⟩ := Leads.cons_iff.1 hw
  obtain ⟨ys, hb', hclose⟩ := bound_complete hc hstep rfl hx
  unfold sliceFrom
  rw [skip_bind_cons, bind_run_of_ok hb, peek_bind_cons, ite_run, if_pos ht', skip_bind_cons,
    peek_bind_front last _ hx.ne_nil, bind_run_of_ok hb',
      bind_run_of_ok ((closeSelector_eq_ok_iff hc).2 hclose), if_neg hne]
  rfl

/-- A slice is read from its first colon on, whether there is a bound before it or not. -/
theorem selector_of_bound (hc : ctx.EndsWith last) {base : Option Expr} {ls ms : List Lexeme}
    {start : Option Int} (hs : Grammar.Bound ls start) (h : Leads ts (ls ++ .mark .colon :: ms) us) :
    ∃ vs, selector ctx base ts = sliceFrom ctx base start vs ∧ Leads vs (.mark .colon :: ms) us := by
  unfold selector
  cases hs with
  | absent =>
    obtain ⟨t, vs, rfl, ht, -⟩ := Leads.cons_iff.1 h
    exact ⟨_, by rw [peek_bind_cons, ite_run, if_pos ht], h⟩
  | present hi =>
    obtain ⟨vs, hv, hw⟩ := Leads.append_iff.1 h
    refine ⟨vs, ?_, hw⟩
    rw [peek_bind_front last _ h.ne_nil, ite_run, lexeme_front hc, if_neg (not_colon_of_leads hi hv),
      bind_run_of_ok ((integer_eq_ok_iff hc).2 ⟨_, hi, hv⟩),
        peek_bind_front last _ (@Leads.ne_nil _ _ _ [] _ hw), ite_run,
      lexeme_front hc, if_pos hw.nextLexeme_eq]

theorem selector_complete (hc : ctx.EndsWith last) {base : Option Expr} {ls : List Lexeme} {e : Expr}
    (hs : Grammar.Selector base ls e) (h : Leads ts (ls ++ [.mark .rbracket]) us) :
    selector ctx base ts = .ok (e, us) := by
  cases hs with
  | index hi =>
    obtain ⟨vs, hv, hclose⟩ := Leads.append_iff.1 h
    obtain ⟨t, ws, rfl, ht, -⟩ := Leads.cons_iff.1 hclose
    unfold selector
    rw [peek_bind_front last _ h.ne_nil, ite_run, lexeme_front hc, if_neg (not_colon_of_leads hi hv),
      bind_run_of_ok ((integer_eq_ok_iff hc).2 ⟨_, hi, hv⟩), peek_bind_cons, ite_run, if_neg (by simp [ht])]
    exact bind_run_of_ok ((closeSelector_eq_ok_iff hc).2 hclose)
  | slice hstart hstop =>
    rw [List.append_assoc] at h
    obtain ⟨vs, hsel, hv⟩ := selector_of_bound hc hstart h
    rw [hsel]
    exact sliceFrom_slice hc hstop hv
  | stepped hstart hstop hstep hne =>
    rw [List.append_assoc] at h
    obtain ⟨vs, hsel, hv⟩ := selector_of_bound hc hstart h
    rw [hsel]
    exact sliceFrom_stepped hc hstop hstep hne (by simpa using hv)

theorem startsSelector_of_bound {ls ms : List Lexeme} {b : Option Int} (hb : Grammar.Bound ls b)
    (h : Leads ts (ls ++ .mark .colon :: ms) us) : startsSelector (nextLexeme ts) = true := by
  cases hb with
  | absent => rw [h.nextLexeme_eq]; rfl
  | present hi =>
    obtain ⟨vs, hv, -⟩ := Leads.append_iff.1 h
    rw [startsSelector, startsInteger_of_leads hi hv]; rfl

/-- What a selector starts with tells it from the other forms in brackets. -/
theorem startsSelector_of_leads {base : Option Expr} {ls ms : List Lexeme} {e : Expr}
    (hs : Grammar.Selector base ls e) (h : Leads ts (ls ++ ms) us) :
    startsSelector (nextLexeme ts) = true := by
  cases hs with
  | index hi =>
    obtain ⟨vs, hv, -⟩ := Leads.append_iff.1 h
    rw [startsSelector, startsInteger_of_leads hi hv]; rfl
  | slice hstart _ => exact startsSelector_of_bound hstart (by simpa using h)
  | stepped hstart _ _ _ => exact startsSelector_of_bound hstart (by simpa using h)

end Expr
end JsonQuery
