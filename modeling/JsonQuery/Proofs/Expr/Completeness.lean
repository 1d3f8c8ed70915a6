import JsonQuery.Proofs.Expr.Step

/-! Whatever the grammar derives, the parser reads. The room that a row of lexemes takes is at most its
    length, and what reading it leaves is an expression that is being extended: so a longer row goes on
    where a shorter one stops. Of what comes next only the power matters, which may not be one that the row
    would go on with. -/

namespace JsonQuery

open Token (nextLexeme Leads)
open Grammar

namespace Expr

/-- The tokens in a context end without a fault. -/
structure Context.Finishes (ctx : Context) (last : Token) : Prop where
  ending : ctx.ending = .finish last
  lexeme : last.lexeme = .finish

theorem Context.Finishes.endsWith {ctx : Context} {last : Token} (hf : ctx.Finishes last) :
    ctx.EndsWith last where
  ending t h := by
    rw [hf.ending] at h
    cases h
    rfl
  lexeme := hf.lexeme

theorem Context.Finishes.inside {ctx : Context} {last : Token} (hf : ctx.Finishes last) (opener : Token) :
    (ctx.inside opener).Finishes last := ⟨hf.ending, hf.lexeme⟩

variable {α : Type} {ctx : Context} {last : Token} {ts us : List Token} {room power : Nat}

theorem first_eq (hf : ctx.Finishes last) (ts : List Token) : ctx.first ts = .ok (front last ts) := by
  cases ts with
  | nil => simp only [Context.first, Context.last, hf.ending, front]
  | cons t ts => rfl

theorem peek_bind (hf : ctx.Finishes last) (f : Token → Parser α) (ts : List Token) :
    (peek ctx >>= f) ts = f (front last ts) ts := by
  rw [bind_run, peek, first_eq hf]
  rfl

theorem peekSecond_bind (hf : ctx.Finishes last) (f : Token → Parser α) (ts : List Token) :
    (peekSecond ctx >>= f) ts = f (front last ts.tail) ts := by
  rw [bind_run, peekSecond, first_eq hf]
  rfl

/-! ### Steps of the reading of an expression -/

theorem extend_stop (hf : ctx.Finishes last) (h : (nextLexeme ts).power ≤ power) (e : Expr) :
    extend room ctx power e ts = .ok (e, ts) := by
  cases room with
  | zero =>
    rw [extend_zero, peek_bind hf, ite_run, lexeme_front hf.endsWith, if_neg (by omega)]
    rfl
  | succ room =>
    rw [extend_add_one, peek_bind hf, ite_run, lexeme_front hf.endsWith, if_neg (by omega)]
    rfl

theorem extend_step {t : Token} {e e' : Expr} (hp : power < t.lexeme.power)
    (h : extendFrom (expression room) ctx t e ts = .ok (e', us)) :
    extend (room + 1) ctx power e (t :: ts) = extend room ctx power e' us := by
  rw [extend_add_one, peek_bind_cons, ite_run, if_pos hp, skip_bind_cons, bind_run_of_ok h]

theorem expression_step {t : Token} {e : Expr} (h : operandFrom (expression room) ctx t ts = .ok (e, us)) :
    expression (room + 1) ctx power (t :: ts) = extend room ctx power e us := by
  rw [expression_add_one, advance_bind_cons, bind_run_of_ok h]

/-- An expression starts with none of the lexemes that decide what a bracket holds. -/
theorem ne_of_expression {r : Expr × List Token} (hf : ctx.Finishes last)
    (h : expression room ctx power ts = .ok r) :
    startsSelector (nextLexeme ts) = false ∧ nextLexeme ts ≠ .mark .reference ∧
      nextLexeme ts ≠ .mark .rparen := by
  cases room with
  | zero =>
    rw [expression_zero] at h
    exact absurd (of_peek_bind hf.endsWith h) not_fail_eq_ok
  | succ room =>
    rw [expression_add_one] at h
    obtain ⟨e, vs, he, -⟩ := bind_eq_ok.1 (of_advance_bind hf.endsWith h)
    unfold operandFrom at he
    rw [← lexeme_front hf.endsWith ts]
    refine ⟨?_, ?_, ?_⟩
    · cases hl : (front last ts).lexeme with
      | number n =>
        rw [hl] at he
        exact absurd he not_fail_eq_ok
      | mark m =>
        rw [hl] at he
        cases m <;> first | rfl | exact absurd he not_fail_eq_ok
      | _ => rfl
    · intro hl
      rw [hl] at he
      exact absurd he not_fail_eq_ok
    · intro hl
      rw [hl] at he
      exact absurd he not_fail_eq_ok

/-- A star where an expression starts is the wildcard of the current value. -/
theorem of_expression_star {e : Expr} (hf : ctx.Finishes last) (hstar : nextLexeme ts = .mark .star)
    (hn : (nextLexeme ts.tail).power = 0) (h : expression room ctx 0 ts = .ok (e, us)) : us = ts.tail := by
  cases room with
  | zero =>
    rw [expression_zero] at h
    exact absurd (of_peek_bind hf.endsWith h) not_fail_eq_ok
  | succ room =>
    rw [expression_add_one] at h
    have h := of_advance_bind hf.endsWith h
    unfold operandFrom at h
    rw [lexeme_front hf.endsWith, hstar] at h
    have h : extend room ctx 0 (.objectWildcard none) ts.tail = .ok (e, us) := h
    rw [extend_stop hf (by omega)] at h
    cases h
    rfl

/-! ### Rows -/

/-- A parser that holds subexpressions takes some lexemes if it has room for as many, whatever comes next of
    at most some power. -/
def Takes (last : Token) (stop : Nat) (p : SubParser → Context → Parser α) (ls : List Lexeme)
    (x : α) : Prop :=
  ∀ ⦃ctx : Context⦄ ⦃room : Nat⦄ ⦃ts us : List Token⦄, ctx.Finishes last → (nextLexeme us).power ≤ stop →
    ls.length ≤ room → Leads ts ls us → p (expression room) ctx ts = .ok (x, us)

theorem length_le_of_row {R : List Lexeme → α → Prop} : ∀ {ls : List Lexeme} {xs : List α},
    Row R ls xs → xs.length ≤ ls.length + 1 := by
  intro ls xs hr
  induction hr with
  | one _ => simp
  | more _ _ ih =>
    simp only [List.length_cons, List.length_append]
    omega

/-- A row is taken if its items are taken before a comma and before what closes it. -/
theorem row_complete (hf : ctx.Finishes last) {closer : Mark} {item : SubParser → Context → Parser α}
    {ls : List Lexeme} {xs : List α} (hcloser : Lexeme.power (.mark closer) = 0) (hcomma : closer ≠ .comma)
    (hr : Row (Takes last 0 item) ls xs) (hroom : ls.length ≤ room) :
    ∀ {n : Nat} {ts : List Token}, xs.length ≤ n → Leads ts (ls ++ [.mark closer]) us →
      row ctx closer (item (expression room) ctx) n ts = .ok (xs, us) := by
  induction hr with
  | @one ls x hi =>
    intro n ts hn h
    obtain ⟨m, rfl⟩ : ∃ m, n = m + 1 := ⟨n - 1, by simp only [List.length_singleton] at hn; omega⟩
    obtain ⟨vs, hv, hclose⟩ := Leads.append_iff.1 h
    have hx : item (expression room) ctx ts = .ok (x, vs) :=
      hi hf (Nat.le_of_eq (by rw [hclose.nextLexeme_eq, hcloser])) hroom hv
    unfold row
    rw [bind_run_of_ok hx, peek_bind hf, ite_run, lexeme_front hf.endsWith, if_pos hclose.nextLexeme_eq]
    obtain ⟨t, ws, rfl, -, hw⟩ := Leads.cons_iff.1 hclose
    cases Leads.nil_iff.1 hw
    rfl
  | @more ls ms x xs hi hr ih =>
    intro n ts hn h
    obtain ⟨m, rfl⟩ : ∃ m, n = m + 1 := ⟨n - 1, by simp only [List.length_cons] at hn; omega⟩
    simp only [List.length_append, List.length_cons] at hroom hn
    rw [List.append_assoc] at h
    obtain ⟨vs, hv, hw⟩ := Leads.append_iff.1 h
    have hnext := hw.nextLexeme_eq
    obtain ⟨ws, hsep, hw⟩ := Leads.head_iff.1 hw
    have hx : item (expression room) ctx ts = .ok (x, vs) :=
      hi hf (by rw [hnext]; exact Nat.le_refl 0) (by omega) hv
    have hxs : row ctx closer (item (expression room) ctx) m ws = .ok (xs, us) :=
      ih (by omega) (by omega) hw
    unfold row
    rw [bind_run_of_ok hx, peek_bind hf, ite_run, lexeme_front hf.endsWith,
      if_neg (by simp [hnext, hcomma.symm]),
      bind_run_of_ok ((separator_eq_ok_iff hf.endsWith).2 hsep), bind_run_of_ok hxs]
    rfl

theorem items_complete {stop : Nat} {closer : Mark} {item : SubParser → Context → Parser α} {ls : List Lexeme}
    {xs : List α} (hcloser : Lexeme.power (.mark closer) = 0) (hcomma : closer ≠ .comma)
    (hr : Row (Takes last 0 item) ls xs) :
    Takes last stop (fun sub ctx => items ctx closer (item sub ctx)) (ls ++ [.mark closer]) xs := by
  intro ctx room ts us hf _ hroom h
  have hlen := h.length_eq
  have hxs := length_le_of_row hr
  simp only [List.length_append, List.length_cons, List.length_nil] at hlen hroom
  exact row_complete hf hcloser hcomma hr (by omega) (by omega) h

/-! ### Small forms that hold subexpressions -/

theorem multiselectListFrom_complete {stop : Nat} {ls : List Lexeme} {es : List Expr}
    (hr : Row (Takes last 0 fun sub ctx => sub ctx 0) ls es) :
    Takes last stop multiselectListFrom (ls ++ [.mark .rbracket]) (.multiselectList es) := by
  intro ctx room ts us hf hn hroom h
  unfold multiselectListFrom
  exact bind_run_of_ok (items_complete rfl (by decide) hr hf hn hroom h)

theorem multiselectHashFrom_complete {stop : Nat} {ls : List Lexeme} {ps : List (String × Expr)}
    (hr : Row (Takes last 0 pair) ls ps) :
    Takes last stop multiselectHashFrom (ls ++ [.mark .rbrace]) (.multiselectHash ps) := by
  intro ctx room ts us hf hn hroom h
  unfold multiselectHashFrom
  exact bind_run_of_ok (items_complete rfl (by decide) hr hf hn hroom h)

theorem key_complete {l : Lexeme} {k : String} (hk : Key l k) (h : Leads ts [l] us) :
    key ctx ts = .ok (k, us) := by
  obtain ⟨⟨_, start, stop, offset⟩, vs, rfl, rfl, hv⟩ := Leads.cons_iff.1 h
  cases Leads.nil_iff.1 hv
  cases hk with
  | name => rfl
  | quotedName => rfl

theorem pair_complete {l : Lexeme} {k : String} {ls : List Lexeme} {e : Expr} (hk : Key l k)
    (he : Takes last 0 (fun sub ctx => sub ctx 0) ls e) :
    Takes last 0 pair (l :: .mark .colon :: ls) (k, e) := by
  intro ctx room ts us hf hn hroom h
  obtain ⟨vs, hv, h⟩ := Leads.head_iff.1 h
  obtain ⟨ws, hw, h⟩ := Leads.head_iff.1 h
  simp only [List.length_cons] at hroom
  unfold pair
  rw [bind_run_of_ok (key_complete hk hv), bind_run_of_ok ((expect_eq_ok_iff hf.endsWith).2 hw)]
  exact bind_run_of_ok (he hf hn (by omega) h)

/-- An argument that is no reference is found by trying: no expression starts with the mark of references. -/
theorem argument_value {ls : List Lexeme} {e : Expr} (he : Takes last 0 (fun sub ctx => sub ctx 0) ls e) :
    Takes last 0 argument ls e := by
  intro ctx room ts us hf hn hroom h
  have he := he hf hn hroom h
  unfold argument
  rw [peek_bind hf, ite_run, lexeme_front hf.endsWith, if_neg (ne_of_expression hf he).2.1]
  exact he

theorem argument_reference {ls : List Lexeme} {e : Expr} (he : Takes last 0 (fun sub ctx => sub ctx 0) ls e) :
    Takes last 0 argument (.mark .reference :: ls) (.reference e) := by
  intro ctx room ts us hf hn hroom h
  obtain ⟨t, vs, rfl, ht, hv⟩ := Leads.cons_iff.1 h
  simp only [List.length_cons] at hroom
  unfold argument
  rw [peek_bind_cons, ite_run, if_pos ht, skip_bind_cons]
  exact bind_run_of_ok (he hf hn (by omega) hv)

theorem ne_rparen_of_argument {e : Expr} (hf : ctx.Finishes last)
    (h : argument (expression room) ctx ts = .ok (e, us)) : nextLexeme ts ≠ .mark .rparen := by
  unfold argument at h
  rw [peek_bind hf, ite_run, lexeme_front hf.endsWith] at h
  split at h
  next hr =>
    rw [hr]
    decide
  next => exact (ne_of_expression hf h).2.2

/-- The first item of a row is taken, and then comes a comma or, if it is the only one, what closes the
    row. -/
theorem row_first {item : SubParser → Context → Parser α} {closer : Mark} {ls : List Lexeme} {xs : List α}
    (hf : ctx.Finishes last) (hr : Row (Takes last 0 item) ls xs) (hcloser : Lexeme.power (.mark closer) = 0)
    (hroom : ls.length ≤ room) (h : Leads ts (ls ++ [.mark closer]) us) :
    ∃ x ks vs, item (expression room) ctx ts = .ok (x, vs) ∧ Leads ts ks vs ∧
      (ks = ls ∧ nextLexeme vs = .mark closer ∨ nextLexeme vs = .mark .comma) := by
  cases hr with
  | @one ls x hi =>
    obtain ⟨vs, hv, hclose⟩ := Leads.append_iff.1 h
    have hn := hclose.nextLexeme_eq
    exact ⟨x, ls, vs, hi hf (Nat.le_of_eq (by rw [hn, hcloser])) hroom hv, hv, .inl ⟨rfl, hn⟩⟩
  | @more ls ms x xs hi hr =>
    rw [List.append_assoc] at h
    simp only [List.length_append, List.length_cons] at hroom
    obtain ⟨vs, hv, hw⟩ := Leads.append_iff.1 h
    have hn := hw.nextLexeme_eq
    exact ⟨x, ls, vs, hi hf (by rw [hn]; exact Nat.le_refl 0) (by omega) hv, hv, .inr hn⟩

theorem callFrom_none {f : String} {stop : Nat} :
    Takes last stop (fun sub ctx => callFrom sub ctx f) [.mark .rparen] (.call f []) := by
  intro ctx room ts us hf hn hroom h
  obtain ⟨t, vs, rfl, ht, hv⟩ := Leads.cons_iff.1 h
  cases Leads.nil_iff.1 hv
  show callFrom (expression room) ctx f (t :: us) = _
  unfold callFrom
  rw [peek_bind_cons, ite_run, if_pos ht, skip_bind_cons]
  rfl

theorem callFrom_some {f : String} {stop : Nat} {ls : List Lexeme} {args : List Expr}
    (hr : Row (Takes last 0 argument) ls args) :
    Takes last stop (fun sub ctx => callFrom sub ctx f) (ls ++ [.mark .rparen]) (.call f args) := by
  intro ctx room ts us hf hn hroom h
  have hne : nextLexeme ts ≠ .mark .rparen := by
    simp only [List.length_append] at hroom
    obtain ⟨x, ks, vs, hx, -⟩ := row_first hf hr rfl (Nat.le_of_add_right_le hroom) h
    exact ne_rparen_of_argument hf hx
  show callFrom (expression room) ctx f ts = _
  unfold callFrom
  rw [peek_bind hf, ite_run, lexeme_front hf.endsWith, if_neg hne]
  exact bind_run_of_ok (items_complete rfl (by decide) hr hf hn hroom h)

/-! ### Names and brackets -/

/-- A row of which the parser is told the first lexeme and takes the others, if it has room for as many. -/
def TakesAfter (last : Token) (p : Token → SubParser → Context → Parser Expr) (ls : List Lexeme)
    (e : Expr) : Prop :=
  ∃ l ms, ls = l :: ms ∧ ∀ t : Token, t.lexeme = l → Takes last 55 (p t) ms e

theorem nameFrom_name (f : String) : Takes last 55 (fun sub ctx => nameFrom sub ctx f) []
    (.identifier f) := by
  intro ctx room ts us hf hn _ h
  cases Leads.nil_iff.1 h
  have hne : nextLexeme ts ≠ .mark .lparen := by
    intro hl
    rw [hl] at hn
    exact absurd hn (by decide)
  show nameFrom (expression room) ctx f ts = _
  unfold nameFrom
  rw [peek_bind hf, ite_run, lexeme_front hf.endsWith, if_neg hne]
  rfl

theorem nameFrom_call {f : String} {ls : List Lexeme} {e : Expr}
    (hc : Takes last 55 (fun sub ctx => callFrom sub ctx f) ls e) :
    Takes last 55 (fun sub ctx => nameFrom sub ctx f) (.mark .lparen :: ls) e := by
  intro ctx room ts us hf hn hroom h
  obtain ⟨t, vs, rfl, ht, hv⟩ := Leads.cons_iff.1 h
  show nameFrom (expression room) ctx f (t :: vs) = _
  unfold nameFrom
  rw [peek_bind_cons, ite_run, if_pos ht, skip_bind_cons]
  exact hc (hf.inside t) hn (Nat.le_of_succ_le hroom) hv

theorem quotedNameFrom_complete (hf : ctx.Finishes last) (hn : (nextLexeme ts).power ≤ 55) (s : String) :
    quotedNameFrom ctx s ts = .ok (.identifier s, ts) := by
  have hne : nextLexeme ts ≠ .mark .lparen := by
    intro hl
    rw [hl] at hn
    exact absurd hn (by decide)
  unfold quotedNameFrom
  rw [peek_bind hf, ite_run, lexeme_front hf.endsWith, if_neg hne]
  rfl

theorem filterFrom_complete {source : Option Expr} {ls : List Lexeme} {e : Expr}
    (he : Takes last 0 (fun sub ctx => sub ctx 0) ls e) :
    Takes last 55 (fun sub ctx => filterFrom sub ctx source) (ls ++ [.mark .rbracket])
    (.filter source e) := by
  intro ctx room ts us hf hn hroom h
  obtain ⟨vs, hv, hclose⟩ := Leads.append_iff.1 h
  have he : expression room ctx 0 ts = .ok (e, vs) :=
    he hf (by rw [hclose.nextLexeme_eq]; exact Nat.le_refl 0)
      (by simp only [List.length_append] at hroom; exact Nat.le_of_add_right_le hroom) hv
  show filterFrom (expression room) ctx source ts = _
  unfold filterFrom
  rw [bind_run_of_ok he]
  exact bind_run_of_ok ((expect_eq_ok_iff hf.endsWith).2 hclose)

/-- A selector in brackets holds no subexpressions, so it is read whatever room there is for them. -/
theorem bracketFrom_of_leads {sub : SubParser} {ls : List Lexeme} {e : Expr} (hf : ctx.Finishes last)
    (hs : Selector none ls e) (h : Leads ts (ls ++ [.mark .rbracket]) us) :
    bracketFrom sub ctx ts = .ok (e, us) := by
  unfold bracketFrom
  rw [peek_bind hf, ite_run, lexeme_front hf.endsWith, if_pos (startsSelector_of_leads hs h)]
  exact selector_complete hf.endsWith hs h

theorem bracketFrom_selector {ls : List Lexeme} {e : Expr} (hs : Selector none ls e) :
    Takes last 55 bracketFrom (ls ++ [.mark .rbracket]) e := by
  intro ctx room ts us hf hn hroom h
  exact bracketFrom_of_leads hf hs h

theorem bracketFrom_items : Takes last 55 bracketFrom [.mark .star, .mark .rbracket]
    (.arrayWildcard none) := by
  intro ctx room ts us hf hn hroom h
  obtain ⟨t, vs, rfl, ht, h⟩ := Leads.cons_iff.1 h
  obtain ⟨t', ws, rfl, ht', h⟩ := Leads.cons_iff.1 h
  cases Leads.nil_iff.1 h
  unfold bracketFrom
  rw [peek_bind_cons, ite_run, if_neg (by rw [ht]; decide), ite_run, if_pos ht, peekSecond_bind_cons, ite_run,
    if_pos ht', skip_bind_cons, skip_bind_cons]
  rfl

/-- A list in brackets is told from the other forms by its first item, and from the wildcard by what follows
    a star. -/
theorem bracketFrom_list {ls : List Lexeme} {es : List Expr}
    (hr : Row (Takes last 0 fun sub ctx => sub ctx 0) ls es)
    (hne : ls ≠ [.mark .star]) : Takes last 55 bracketFrom (ls ++ [.mark .rbracket])
    (.multiselectList es) := by
  intro ctx room ts us hf hn hroom h
  have hlist := multiselectListFrom_complete hr hf hn hroom h
  simp only [List.length_append] at hroom
  obtain ⟨x, ks, vs, hx, hv, hnext⟩ := row_first hf hr rfl (Nat.le_of_add_right_le hroom) h
  unfold bracketFrom
  rw [peek_bind hf, ite_run, lexeme_front hf.endsWith, if_neg (by simp [(ne_of_expression hf hx).1]), ite_run]
  by_cases hstar : nextLexeme ts = .mark .star
  · have hclose : nextLexeme ts.tail ≠ .mark .rbracket := by
      intro hclose
      obtain rfl := of_expression_star hf hstar (by rw [hclose]; rfl) hx
      rcases hnext with ⟨rfl, -⟩ | hcomma
      · have hlen := hv.length_eq
        have hhead := (leads_tail hstar (by decide)).length_eq
        simp only [List.length_cons, List.length_nil] at hhead
        match ks, hlen, hv with
        | [], hlen, _ => simp only [List.length_nil] at hlen; omega
        | k :: ks, hlen, hv =>
          obtain rfl : ks = [] := List.eq_nil_of_length_eq_zero
            (by simp only [List.length_cons] at hlen; omega)
          exact hne (by rw [← hv.nextLexeme_eq, hstar])
      · rw [hclose] at hcomma
        exact absurd hcomma (by decide)
    rw [if_pos hstar, peekSecond_bind hf, ite_run, lexeme_front hf.endsWith, if_neg hclose]
    exact hlist
  · rw [if_neg hstar]
    exact hlist

theorem selectorFrom_selector {left : Expr} {ls : List Lexeme} {e : Expr} (hs : Selector (some left) ls e) :
    Takes last 55 (fun _ ctx => selectorFrom ctx left) (ls ++ [.mark .rbracket]) e := by
  intro ctx room ts us hf hn hroom h
  show selectorFrom ctx left ts = _
  unfold selectorFrom
  rw [peek_bind hf, ite_run, lexeme_front hf.endsWith, if_pos (startsSelector_of_leads hs h)]
  exact selector_complete hf.endsWith hs h

theorem selectorFrom_items {left : Expr} :
    Takes last 55 (fun _ ctx => selectorFrom ctx left) [.mark .star, .mark .rbracket]
    (.arrayWildcard (some left)) := by
  intro ctx room ts us hf hn hroom h
  obtain ⟨t, vs, rfl, ht, hclose⟩ := Leads.cons_iff.1 h
  show selectorFrom ctx left (t :: vs) = _
  unfold selectorFrom
  rw [peek_bind_cons, ite_run, if_neg (by rw [ht]; decide), ite_run, if_pos ht, skip_bind_cons]
  exact bind_run_of_ok ((expect_eq_ok_iff hf.endsWith).2 hclose)

/-! ### Fields -/

section
variable {left : Expr}

theorem fieldFrom_values : Takes last 55 (fun sub ctx => fieldFrom sub ctx left) [.mark .star]
    (.objectWildcard (some left)) := by
  intro ctx room ts us hf hn hroom h
  obtain ⟨⟨_, start, stop, offset⟩, vs, rfl, rfl, hv⟩ := Leads.cons_iff.1 h
  cases Leads.nil_iff.1 hv
  rfl

theorem fieldFrom_name {f : String} {ls : List Lexeme} {r : Expr}
    (hr : Takes last 55 (fun sub ctx => nameFrom sub ctx f) ls r) :
    Takes last 55 (fun sub ctx => fieldFrom sub ctx left) (.name f :: ls) (.subexpression left r) := by
  intro ctx room ts us hf hn hroom h
  obtain ⟨⟨_, start, stop, offset⟩, vs, rfl, rfl, hv⟩ := Leads.cons_iff.1 h
  show (nameFrom (expression room) ctx f >>= fun r => pure (subexpression left r)) vs = _
  exact bind_run_of_ok (hr hf hn (Nat.le_of_succ_le hroom) hv)

theorem fieldFrom_quotedName (s : String) :
    Takes last 55 (fun sub ctx => fieldFrom sub ctx left) [.quotedName s]
    (.subexpression left (.identifier s)) := by
  intro ctx room ts us hf hn hroom h
  obtain ⟨⟨_, start, stop, offset⟩, vs, rfl, rfl, hv⟩ := Leads.cons_iff.1 h
  obtain rfl := Leads.nil_iff.1 hv
  show (quotedNameFrom ctx s >>= fun r => pure (subexpression left r)) vs = _
  exact bind_run_of_ok (quotedNameFrom_complete hf hn s)

theorem fieldFrom_list {ls : List Lexeme} {r : Expr} (hr : Takes last 55 multiselectListFrom ls r) :
    Takes last 55 (fun sub ctx => fieldFrom sub ctx left) (.mark .lbracket :: ls)
    (.subexpression left r) := by
  intro ctx room ts us hf hn hroom h
  obtain ⟨⟨_, start, stop, offset⟩, vs, rfl, rfl, hv⟩ := Leads.cons_iff.1 h
  show (multiselectListFrom (expression room) (ctx.inside _) >>= fun r => pure (subexpression left r)) vs = _
  exact bind_run_of_ok (hr (hf.inside _) hn (Nat.le_of_succ_le hroom) hv)

theorem fieldFrom_hash {ls : List Lexeme} {r : Expr} (hr : Takes last 55 multiselectHashFrom ls r) :
    Takes last 55 (fun sub ctx => fieldFrom sub ctx left) (.mark .lbrace :: ls) (.subexpression left r) := by
  intro ctx room ts us hf hn hroom h
  obtain ⟨⟨_, start, stop, offset⟩, vs, rfl, rfl, hv⟩ := Leads.cons_iff.1 h
  show (multiselectHashFrom (expression room) (ctx.inside _) >>= fun r => pure (subexpression left r)) vs = _
  exact bind_run_of_ok (hr (hf.inside _) hn (Nat.le_of_succ_le hroom) hv)

end

/-! ### Operators -/

/-- Reading a row under an operator of less than some power gives its expression, to be extended by what comes
    next, if that has at most some power; no more room is taken than there are lexemes. -/
def Reads (last : Token) (tight stop : Nat) (ls : List Lexeme) (e : Expr) : Prop :=
  ∀ ⦃ctx : Context⦄ ⦃power room : Nat⦄ ⦃ts us : List Token⦄, ctx.Finishes last → power < tight →
    (nextLexeme us).power ≤ stop → ls.length ≤ room → Leads ts ls us →
    ∃ rest, room ≤ rest + ls.length ∧ expression room ctx power ts = extend rest ctx power e us

/-- Extending an expression by a row gives another, to be extended by what comes next. -/
def Extends (last : Token) (base : Expr) (ls : List Lexeme) (e : Expr) : Prop :=
  ∃ l ms, ls = l :: ms ∧ 5 < l.power ∧ l.power ≤ 55 ∧
    ∀ t : Token, t.lexeme = l → Takes last 55 (fun sub ctx => extendFrom sub ctx t base) ms e

section
variable {ls ms : List Lexeme} {e b l r : Expr} {tight stop tight' stop' : Nat}

theorem Reads.mono (h : Reads last tight stop ls e) (ht : tight' ≤ tight) (hs : stop' ≤ stop) :
    Reads last tight' stop' ls e := by
  intro ctx power room ts us hf hp hn hroom hl
  exact h hf (Nat.lt_of_lt_of_le hp ht) (Nat.le_trans hn hs) hroom hl

/-- What is read between an operator and one that does not bind tighter is taken. -/
theorem Reads.run (h : Reads last tight stop ls e) (hf : ctx.Finishes last) (hp : power < tight)
    (hs : (nextLexeme us).power ≤ stop) (hn : (nextLexeme us).power ≤ power) (hroom : ls.length ≤ room)
    (hl : Leads ts ls us) : expression room ctx power ts = .ok (e, us) := by
  obtain ⟨rest, -, hrest⟩ := h hf hp hs hroom hl
  rw [hrest, extend_stop hf hn]

theorem Reads.takes (h : Reads last 1 1 ls e) : Takes last 0 (fun sub ctx => sub ctx 0) ls e := by
  intro ctx room ts us hf hn hroom hl
  exact h.run hf Nat.one_pos (by omega) hn hroom hl

theorem reads_of_takesAfter
    (h : TakesAfter last (fun t sub ctx => operandFrom sub ctx t) ls e) : Reads last tight 55 ls e := by
  obtain ⟨l, ms, rfl, h⟩ := h
  intro ctx power room ts us hf _ hn hroom hl
  obtain ⟨t, vs, rfl, ht, hv⟩ := Leads.cons_iff.1 hl
  obtain ⟨rest, rfl⟩ : ∃ rest, room = rest + 1 := ⟨room - 1, by simp only [List.length_cons] at hroom; omega⟩
  refine ⟨rest, by simp only [List.length_cons]; omega, expression_step ?_⟩
  exact h t ht hf hn (Nat.le_of_succ_le_succ hroom) hv

theorem Reads.extends (hb : Reads last 6 55 ls b) (he : Extends last b ms e) :
    Reads last 6 55 (ls ++ ms) e := by
  obtain ⟨l, ms, rfl, hlo, hhi, he⟩ := he
  intro ctx power room ts us hf hp hn hroom hl
  simp only [List.length_append, List.length_cons] at hroom ⊢
  obtain ⟨vs, hv, hw⟩ := Leads.append_iff.1 hl
  have hroomb : ls.length ≤ room := by omega
  obtain ⟨rest, hrest, hrun⟩ := hb hf hp (by rw [hw.nextLexeme_eq]; exact hhi) hroomb hv
  obtain ⟨t, ws, rfl, ht, hw⟩ := Leads.cons_iff.1 hw
  obtain ⟨rest, rfl⟩ : ∃ n, rest = n + 1 := ⟨rest - 1, by omega⟩
  refine ⟨rest, by omega, ?_⟩
  rw [hrun]
  exact extend_step (by rw [ht]; omega) (he t ht hf hn (by omega) hw)

/-- A binary operator reads what stands to its right under its own power, and so groups to the left. -/
theorem Reads.binary {m : Mark} {p : Nat} {f : Expr → Expr → Expr} (hl : Reads last p p ls l)
    (hr : Reads last (p + 1) stop ms r) (hstop : stop ≤ p) (hm : (Lexeme.mark m).power = p)
    (hextend : ∀ {sub : SubParser} {ctx : Context} {t : Token} {l : Expr}, t.lexeme = .mark m →
      extendFrom sub ctx t l = (do return f l (← sub ctx p))) :
    Reads last p stop (ls ++ .mark m :: ms) (f l r) := by
  intro ctx power room ts us hf hp hn hroom h
  simp only [List.length_append, List.length_cons] at hroom ⊢
  obtain ⟨vs, hv, hw⟩ := Leads.append_iff.1 h
  have hroomₗ : ls.length ≤ room := by omega
  obtain ⟨rest, hrest, hrun⟩ := hl hf hp (by rw [hw.nextLexeme_eq]; exact Nat.le_of_eq hm) hroomₗ hv
  obtain ⟨t, ws, rfl, ht, hw⟩ := Leads.cons_iff.1 hw
  obtain ⟨rest, rfl⟩ : ∃ n, rest = n + 1 := ⟨rest - 1, by omega⟩
  have hright : expression rest ctx p ws = .ok (r, us) :=
    hr.run hf p.lt_succ_self hn (Nat.le_trans hn hstop) (by omega) hw
  refine ⟨rest, by omega, ?_⟩
  rw [hrun]
  refine extend_step (by rw [ht]; omega) ?_
  rw [hextend ht]
  exact bind_run_of_ok hright

/-- A negation takes in whatever its operand does, so only a looser operator may come next. -/
theorem Reads.not (h : Reads last 5 4 ls e) (tight : Nat) :
    Reads last tight 4 (.mark .not :: ls) (.not e) := by
  intro ctx power room ts us hf _ hn hroom hl
  obtain ⟨⟨_, start, stop, offset⟩, vs, rfl, rfl, hv⟩ := Leads.cons_iff.1 hl
  obtain ⟨rest, rfl⟩ : ∃ rest, room = rest + 1 := ⟨room - 1, by simp only [List.length_cons] at hroom; omega⟩
  refine ⟨rest, by simp only [List.length_cons]; omega, expression_step ?_⟩
  exact bind_run_of_ok (h.run hf (by decide) hn hn (Nat.le_of_succ_le_succ hroom) hv)

end

/-! ### Derivations -/

/-- What a form in square brackets is to the parser: an operand, or the extension of its base. -/
def TakesBracketed (last : Token) : Option Expr → List Lexeme → Expr → Prop
  | none => TakesAfter last fun t sub ctx => operandFrom sub ctx t
  | some b => Extends last b

theorem takesBracketed_of {b : Option Expr} {l : Lexeme} {ms : List Lexeme} {e : Expr} (hlo : 5 < l.power)
    (hhi : l.power ≤ 55) (hnone : b = none → ∀ t : Token, t.lexeme = l →
      Takes last 55 (fun sub ctx => operandFrom sub ctx t) ms e)
    (hsome : ∀ base, b = some base → ∀ t : Token, t.lexeme = l →
      Takes last 55 (fun sub ctx => extendFrom sub ctx t base) ms e) : TakesBracketed last b (l :: ms) e := by
  cases b with
  | none => exact ⟨l, ms, rfl, hnone rfl⟩
  | some base => exact ⟨l, ms, rfl, hlo, hhi, hsome base rfl⟩

/-- Inside a bracket the parser goes on as it would outside. -/
theorem Takes.inside {p : SubParser → Context → Parser α} {stop : Nat} {ls : List Lexeme} {x : α}
    (h : Takes last stop p ls x) (t : Token) :
    Takes last stop (fun sub ctx => p sub (ctx.inside t)) ls x := by
  intro ctx room ts us hf hn hroom hl
  exact h (hf.inside t) hn hroom hl

theorem selector_takesBracketed {b : Option Expr} {ls : List Lexeme} {e : Expr} (hs : Selector b ls e) :
    TakesBracketed last b (.mark .lbracket :: (ls ++ [.mark .rbracket])) e := by
  refine takesBracketed_of (by decide) (by decide) ?_ ?_
  · rintro rfl ⟨_, _, _, _⟩ rfl
    exact (bracketFrom_selector hs).inside _
  · rintro base rfl ⟨_, _, _, _⟩ rfl
    exact (selectorFrom_selector hs).inside _

theorem items_takesBracketed (b : Option Expr) :
    TakesBracketed last b [.mark .lbracket, .mark .star, .mark .rbracket] (.arrayWildcard b) := by
  refine takesBracketed_of (by decide) (by decide) ?_ ?_
  · rintro rfl ⟨_, _, _, _⟩ rfl
    exact bracketFrom_items.inside _
  · rintro base rfl ⟨_, _, _, _⟩ rfl
    exact selectorFrom_items.inside _

theorem flatten_takesBracketed (b : Option Expr) : TakesBracketed last b [.mark .flatten] (.flatten b) := by
  refine takesBracketed_of (by decide) (by decide) ?_ ?_
  · rintro rfl ⟨_, _, _, _⟩ rfl ctx room ts us hf hn hroom h
    cases Leads.nil_iff.1 h
    rfl
  · rintro base rfl ⟨_, _, _, _⟩ rfl ctx room ts us hf hn hroom h
    cases Leads.nil_iff.1 h
    rfl

theorem filter_takesBracketed {b : Option Expr} {ls : List Lexeme} {p : Expr}
    (hp : Takes last 0 (fun sub ctx => sub ctx 0) ls p) :
    TakesBracketed last b (.mark .filter :: (ls ++ [.mark .rbracket])) (.filter b p) := by
  refine takesBracketed_of (by decide) (by decide) ?_ ?_
  · rintro rfl ⟨_, _, _, _⟩ rfl
    exact (filterFrom_complete hp).inside _
  · rintro base rfl ⟨_, _, _, _⟩ rfl
    exact (filterFrom_complete hp).inside _

theorem literal_takesAfter {text : String} {v : Json} (hv : Json.read .literal text.toList = .ok v) :
    TakesAfter last (fun t sub ctx => operandFrom sub ctx t) [.literal text] (.literal v) := by
  refine ⟨_, _, rfl, ?_⟩
  rintro ⟨_, start, stop, offset⟩ rfl ctx room ts us hf hn hroom h
  cases Leads.nil_iff.1 h
  show literalFrom ctx _ text ts = _
  unfold literalFrom
  rw [hv]
  rfl

theorem parentheses_takesAfter {ls : List Lexeme} {e : Expr}
    (he : Takes last 0 (fun sub ctx => sub ctx 0) ls e) :
    TakesAfter last (fun t sub ctx => operandFrom sub ctx t)
    (.mark .lparen :: (ls ++ [.mark .rparen])) e := by
  refine ⟨_, _, rfl, ?_⟩
  rintro ⟨_, start, stop, offset⟩ rfl ctx room ts us hf hn hroom h
  obtain ⟨vs, hv, hclose⟩ := Leads.append_iff.1 h
  simp only [List.length_append] at hroom
  have he : expression room (ctx.inside ⟨.mark .lparen, start, stop, offset⟩) 0 ts = .ok (e, vs) :=
    he (hf.inside _) (by rw [hclose.nextLexeme_eq]; exact Nat.le_refl 0) (Nat.le_of_add_right_le hroom) hv
  refine (bind_run_of_ok he).trans ?_
  exact bind_run_of_ok ((expect_eq_ok_iff (hf.endsWith.inside _)).2 hclose)

/-- A parser that goes on after one lexeme, as that lexeme alone decides. -/
theorem takesAfter_of {p : Token → SubParser → Context → Parser Expr} {l : Lexeme}
    {ms : List Lexeme} {e : Expr}
    (h : ∀ start stop offset, Takes last 55 (p ⟨l, start, stop, offset⟩) ms e) :
    TakesAfter last p (l :: ms) e := by
  refine ⟨l, ms, rfl, ?_⟩
  rintro ⟨_, start, stop, offset⟩ rfl
  exact h start stop offset

/-- A parser that goes on without taking anything. -/
theorem takes_nil {p : SubParser → Context → Parser α} {x : α} {stop : Nat}
    (h : ∀ {sub ctx ts}, p sub ctx ts = .ok (x, ts)) : Takes last stop p [] x := by
  intro ctx room ts us hf hn hroom hl
  cases Leads.nil_iff.1 hl
  exact h

mutual

theorem pipeline_reads : ∀ {ls : List Lexeme} {e : Expr}, Pipeline ls e → Reads last 1 1 ls e
  | _, _, .disjunction h => (disjunction_reads h).mono (by decide) (by decide)
  | _, _, .pipe hl hr =>
    (pipeline_reads hl).binary ((disjunction_reads hr).mono (by decide) (by decide)) (by decide) rfl
      fun ht => by simp only [extendFrom, ht, Lexeme.power]

theorem disjunction_reads : ∀ {ls : List Lexeme} {e : Expr}, Disjunction ls e → Reads last 2 2 ls e
  | _, _, .conjunction h => (conjunction_reads h).mono (by decide) (by decide)
  | _, _, .or hl hr =>
    (disjunction_reads hl).binary ((conjunction_reads hr).mono (by decide) (by decide)) (by decide) rfl
      fun ht => by simp only [extendFrom, ht, Lexeme.power]

theorem conjunction_reads : ∀ {ls : List Lexeme} {e : Expr}, Conjunction ls e → Reads last 3 3 ls e
  | _, _, .comparison h => (comparison_reads h).mono (by decide) (by decide)
  | _, _, .and hl hr =>
    (conjunction_reads hl).binary ((comparison_reads hr).mono (by decide) (by decide)) (by decide) rfl
      fun ht => by simp only [extendFrom, ht, Lexeme.power]

theorem comparison_reads : ∀ {ls : List Lexeme} {e : Expr}, Comparison ls e → Reads last 5 4 ls e
  | _, _, .not h => (comparison_reads h).not 5
  | _, _, .operands h => (operands_reads h).mono (by decide) (by decide)
  | _, _, .operandsNot _ hl hr =>
    (operands_reads hl).binary ((comparison_reads hr).not 6) (by decide) rfl
      fun ht => by simp only [extendFrom, ht, Lexeme.power]

theorem operands_reads : ∀ {ls : List Lexeme} {e : Expr}, Operands ls e → Reads last 5 5 ls e
  | _, _, .postfixed h => (postfixed_reads h).mono (by decide) (by decide)
  | _, _, .comparison _ hl hr =>
    (operands_reads hl).binary ((postfixed_reads hr).mono (by decide) (by decide)) (by decide) rfl
      fun ht => by simp only [extendFrom, ht, Lexeme.power]

theorem postfixed_reads : ∀ {ls : List Lexeme} {e : Expr}, Postfixed ls e → Reads last 6 55 ls e
  | _, _, .primary h => reads_of_takesAfter (primary_takes h)
  | _, _, .suffixed hb hs => (postfixed_reads hb).extends (suffix_extends hs)

theorem suffix_extends : ∀ {b : Expr} {ls : List Lexeme} {e : Expr}, Suffix b ls e → Extends last b ls e
  | b, _, _, .field h => ⟨_, _, rfl, by decide, by decide, fun t ht => by
      simpa only [extendFrom, ht] using field_takes b h⟩
  | _, _, _, .values => ⟨_, _, rfl, by decide, by decide, fun t ht => by
      simpa only [extendFrom, ht] using fieldFrom_values⟩
  | _, _, _, .bracketed h => bracketed_takes h

theorem bracketed_takes : ∀ {b : Option Expr} {ls : List Lexeme} {e : Expr},
    Bracketed b ls e → TakesBracketed last b ls e
  | _, _, _, .selector hs => selector_takesBracketed hs
  | b, _, _, .items => items_takesBracketed b
  | b, _, _, .flatten => flatten_takesBracketed b
  | _, _, _, .filter hp => filter_takesBracketed (pipeline_reads hp).takes

theorem field_takes : ∀ (left : Expr) {ls : List Lexeme} {r : Expr}, Field ls r →
    Takes last 55 (fun sub ctx => fieldFrom sub ctx left) ls (.subexpression left r)
  | _, _, _, .name f => fieldFrom_name (nameFrom_name f)
  | _, _, _, .quotedName s => fieldFrom_quotedName s
  | _, _, _, .call h => by
    obtain ⟨f, ms, rfl, hc⟩ := call_takes h
    exact fieldFrom_name (nameFrom_call hc)
  | _, _, _, .list hr => fieldFrom_list (multiselectListFrom_complete (pipelines_take hr))
  | _, _, _, .hash h => by
    obtain ⟨ms, rfl, hm⟩ := hash_takes h
    exact fieldFrom_hash hm

theorem primary_takes : ∀ {ls : List Lexeme} {e : Expr}, Primary ls e →
    TakesAfter last (fun t sub ctx => operandFrom sub ctx t) ls e
  | _, _, .literal hv => literal_takesAfter hv
  | _, _, .rawString s => takesAfter_of fun _ _ _ => takes_nil rfl
  | _, _, .name s => takesAfter_of fun _ _ _ => nameFrom_name s
  | _, _, .quotedName s => takesAfter_of fun _ _ _ => fun _ _ _ _ hf hn _ hl => by
      cases Leads.nil_iff.1 hl
      exact quotedNameFrom_complete hf hn s
  | _, _, .current => takesAfter_of fun _ _ _ => takes_nil rfl
  | _, _, .values => takesAfter_of fun _ _ _ => takes_nil rfl
  | _, _, .call h => by
    obtain ⟨f, ms, rfl, hc⟩ := call_takes h
    exact takesAfter_of fun _ _ _ => nameFrom_call hc
  | _, _, .parentheses h => parentheses_takesAfter (pipeline_reads h).takes
  | _, _, .bracketed h => bracketed_takes h
  | _, _, .list hr hne => takesAfter_of fun _ _ _ => (bracketFrom_list (pipelines_take hr) hne).inside _
  | _, _, .hash h => by
    obtain ⟨ms, rfl, hm⟩ := hash_takes h
    exact takesAfter_of fun _ _ _ => hm.inside _

theorem hash_takes : ∀ {ls : List Lexeme} {e : Expr}, Hash ls e →
    ∃ ms, ls = .mark .lbrace :: ms ∧ Takes last 55 multiselectHashFrom ms e
  | _, _, .pairs hr => ⟨_, rfl, multiselectHashFrom_complete (pairs_take hr)⟩

theorem call_takes : ∀ {ls : List Lexeme} {e : Expr}, Call ls e →
    ∃ f ms, ls = .name f :: .mark .lparen :: ms ∧ Takes last 55 (fun sub ctx => callFrom sub ctx f) ms e
  | _, _, .none f => ⟨f, _, rfl, callFrom_none⟩
  | _, _, .some hr => ⟨_, _, rfl, callFrom_some (arguments_take hr)⟩

theorem pipelines_take : ∀ {ls : List Lexeme} {es : List Expr}, Row Pipeline ls es →
    Row (Takes last 0 fun sub ctx => sub ctx 0) ls es
  | _, _, .one h => .one (pipeline_reads h).takes
  | _, _, .more h hr => .more (pipeline_reads h).takes (pipelines_take hr)

theorem pairs_take : ∀ {ls : List Lexeme} {ps : List (String × Expr)}, Row Pair ls ps →
    Row (Takes last 0 pair) ls ps
  | _, _, .one (.pair hk h) => .one (pair_complete hk (pipeline_reads h).takes)
  | _, _, .more (.pair hk h) hr => .more (pair_complete hk (pipeline_reads h).takes) (pairs_take hr)

theorem arguments_take : ∀ {ls : List Lexeme} {args : List Expr}, Row Grammar.Argument ls args →
    Row (Takes last 0 argument) ls args
  | _, _, .one h => .one (argument_takes h)
  | _, _, .more h hr => .more (argument_takes h) (arguments_take hr)

theorem argument_takes : ∀ {ls : List Lexeme} {e : Expr}, Grammar.Argument ls e →
    Takes last 0 argument ls e
  | _, _, .value h => argument_value (pipeline_reads h).takes
  | _, _, .reference h => argument_reference (pipeline_reads h).takes

end

end Expr
end JsonQuery
