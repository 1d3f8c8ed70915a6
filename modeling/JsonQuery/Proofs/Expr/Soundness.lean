import JsonQuery.Proofs.Expr.Step

/-! Whatever the parser reads, the grammar derives. Reading to the right of an operator of some power gives
    a row of the levels that bind tighter. Of what has been read so far two things are kept: that it may
    stand to the right of the operator before it, and that it may stand to the left of the operator that
    comes next. A negation is the reason for the second: it is read under the power of `!`, which is below
    that of the comparators, so nothing but a looser operator can come next. -/

namespace JsonQuery

open Token (nextLexeme Leads)

namespace Grammar

/-- A negation, which is no operand of a comparator but the last. -/
inductive Negation : List Lexeme → Expr → Prop
  | not {ls : List Lexeme} {e : Expr} : Comparison ls e → Negation (.mark .not :: ls) (.not e)

/-- The rows that may stand to the left of an operator of some power. -/
def LeftOf : Nat → List Lexeme → Expr → Prop
  | 0 | 1 => Pipeline
  | 2 => Disjunction
  | 3 => Conjunction
  | 4 => Comparison
  | 5 => Operands
  | _ => Postfixed

/-- The rows that are read to the right of an operator of some power, if what comes next has the power
    `next`. -/
def RightOf (power next : Nat) (ls : List Lexeme) (e : Expr) : Prop :=
  match power with
  | 0 => Pipeline ls e
  | 1 => Disjunction ls e
  | 2 => Conjunction ls e
  | 3 | 4 => Comparison ls e
  | _ => Postfixed ls e ∨ Negation ls e ∧ next ≤ 4

/-- What reading to the right of an operator gives, if what comes next has the power `next`. -/
structure ReadBetween (power next : Nat) (ls : List Lexeme) (e : Expr) : Prop where
  right : RightOf power next ls e
  left : LeftOf next ls e

variable {power next : Nat} {ls : List Lexeme} {e : Expr}

theorem Pipeline.leftOf (h : Pipeline ls e) (hn : next ≤ 1) : LeftOf next ls e := by
  obtain rfl | rfl : next = 0 ∨ next = 1 := by omega
  · exact h
  · exact h

theorem Disjunction.leftOf (h : Disjunction ls e) (hn : next ≤ 2) : LeftOf next ls e := by
  obtain hn | rfl : next ≤ 1 ∨ next = 2 := by omega
  · exact (Pipeline.disjunction h).leftOf hn
  · exact h

theorem Conjunction.leftOf (h : Conjunction ls e) (hn : next ≤ 3) : LeftOf next ls e := by
  obtain hn | rfl : next ≤ 2 ∨ next = 3 := by omega
  · exact (Disjunction.conjunction h).leftOf hn
  · exact h

theorem Comparison.leftOf (h : Comparison ls e) (hn : next ≤ 4) : LeftOf next ls e := by
  obtain hn | rfl : next ≤ 3 ∨ next = 4 := by omega
  · exact (Conjunction.comparison h).leftOf hn
  · exact h

theorem Operands.leftOf (h : Operands ls e) (hn : next ≤ 5) : LeftOf next ls e := by
  obtain hn | rfl : next ≤ 4 ∨ next = 5 := by omega
  · exact (Comparison.operands h).leftOf hn
  · exact h

theorem leftOf_of_five_lt (hn : 5 < next) : LeftOf next ls e ↔ Postfixed ls e := by
  obtain ⟨n, rfl⟩ : ∃ n, next = n + 6 := ⟨next - 6, by omega⟩
  exact Iff.rfl

theorem Postfixed.leftOf (h : Postfixed ls e) : LeftOf next ls e := by
  obtain hn | hn : next ≤ 5 ∨ 5 < next := by omega
  · exact (Operands.postfixed h).leftOf hn
  · exact (leftOf_of_five_lt hn).2 h

theorem Disjunction.rightOf (h : Disjunction ls e) (hp : power < 2) : RightOf power next ls e := by
  obtain rfl | rfl : power = 0 ∨ power = 1 := by omega
  · exact Pipeline.disjunction h
  · exact h

theorem Conjunction.rightOf (h : Conjunction ls e) (hp : power < 3) : RightOf power next ls e := by
  obtain hp | rfl : power < 2 ∨ power = 2 := by omega
  · exact (Disjunction.conjunction h).rightOf hp
  · exact h

theorem Comparison.rightOf (h : Comparison ls e) (hp : power < 5) : RightOf power next ls e := by
  obtain hp | rfl | rfl : power < 3 ∨ power = 3 ∨ power = 4 := by omega
  · exact (Conjunction.comparison h).rightOf hp
  · exact h
  · exact h

theorem rightOf_of_four_lt (hp : 4 < power) :
    RightOf power next ls e ↔ Postfixed ls e ∨ Negation ls e ∧ next ≤ 4 := by
  obtain ⟨n, rfl⟩ : ∃ n, power = n + 5 := ⟨power - 5, by omega⟩
  exact Iff.rfl

theorem Postfixed.rightOf (h : Postfixed ls e) : RightOf power next ls e := by
  obtain hp | hp : power < 5 ∨ 4 < power := by omega
  · exact (Comparison.operands (.postfixed h)).rightOf hp
  · exact (rightOf_of_four_lt hp).2 (.inl h)

theorem Negation.comparison : Negation ls e → Comparison ls e
  | .not h => .not h

theorem Negation.rightOf (h : Negation ls e) (hn : next ≤ 4) : RightOf power next ls e := by
  obtain hp | hp : power < 5 ∨ 4 < power := by omega
  · exact h.comparison.rightOf hp
  · exact (rightOf_of_four_lt hp).2 (.inr ⟨h, hn⟩)

theorem Postfixed.between (h : Postfixed ls e) : ReadBetween power next ls e := ⟨h.rightOf, h.leftOf⟩

theorem Negation.between (h : Negation ls e) (hn : next ≤ 4) : ReadBetween power next ls e :=
  ⟨h.rightOf hn, h.comparison.leftOf hn⟩

end Grammar

namespace Expr

open Grammar

variable {α : Type} {ctx : Context} {last : Token} {sub : SubParser} {ts us : List Token}

/-- A parser of subexpressions takes what its power allows, and stops before an operator that binds
    tighter. -/
def Sound (last : Token) (sub : SubParser) : Prop :=
  ∀ ⦃ctx : Context⦄ ⦃power : Nat⦄ ⦃ts us : List Token⦄ ⦃e : Expr⦄, ctx.EndsWith last →
    sub ctx power ts = .ok (e, us) →
    (nextLexeme us).power ≤ power ∧
      ∃ ls, ReadBetween power (nextLexeme us).power ls e ∧ Leads ts ls us

theorem Sound.pipeline {e : Expr} (hs : Sound last sub) (hc : ctx.EndsWith last)
    (h : sub ctx 0 ts = .ok (e, us)) : ∃ ls, Pipeline ls e ∧ Leads ts ls us := by
  obtain ⟨-, ls, hr, hl⟩ := hs hc h
  exact ⟨ls, hr.right, hl⟩

/-! ### Rows -/

/-- A row takes its items, the commas between them and the mark that closes it; the count is enough for as
    many items as there are tokens. -/
theorem row_sound (hc : ctx.EndsWith last) {closer : Mark} {item : Parser α} {R : List Lexeme → α → Prop}
    (hi : ∀ {ts us x}, item ts = .ok (x, us) → ∃ ls, R ls x ∧ Leads ts ls us) :
    ∀ {n : Nat} {ts us : List Token} {xs : List α}, ts.length < n → row ctx closer item n ts = .ok (xs, us) →
      ∃ ls, Row R ls xs ∧ Leads ts (ls ++ [.mark closer]) us := by
  intro n
  induction n with
  | zero => exact fun hn => absurd hn (Nat.not_lt_zero _)
  | succ n ih =>
    intro ts us xs hn h
    unfold row at h
    obtain ⟨x, vs, hx, h⟩ := bind_eq_ok.1 h
    obtain ⟨ls, hls, hv⟩ := hi hx
    have h := of_peek_bind hc h
    rw [ite_run, lexeme_front hc] at h
    split at h
    next hclose =>
      have h := of_skip_bind hc h
      cases h
      exact ⟨ls, .one hls, Leads.append_iff.2 ⟨vs, hv, leads_tail hclose (by simp)⟩⟩
    next =>
      obtain ⟨_, ws, hcomma, h⟩ := bind_eq_ok.1 h
      obtain ⟨ys, zs, hys, h⟩ := bind_eq_ok.1 h
      cases h
      have hw := (separator_eq_ok_iff hc).1 hcomma
      have hlen : ws.length < n := by
        have h₁ := hv.length_eq
        have h₂ := hw.length_eq
        simp only [List.length_cons, List.length_nil] at h₂
        omega
      obtain ⟨ms, hms, hz⟩ := ih hlen hys
      refine ⟨_, .more hls hms, ?_⟩
      rw [List.append_assoc]
      exact Leads.append_iff.2 ⟨vs, hv, Leads.head_iff.2 ⟨ws, hw, hz⟩⟩

theorem items_sound (hc : ctx.EndsWith last) {closer : Mark} {item : Parser α} {R : List Lexeme → α → Prop}
    {xs : List α} (hi : ∀ {ts us x}, item ts = .ok (x, us) → ∃ ls, R ls x ∧ Leads ts ls us)
    (h : items ctx closer item ts = .ok (xs, us)) :
    ∃ ls, Row R ls xs ∧ Leads ts (ls ++ [.mark closer]) us :=
  row_sound hc hi (Nat.lt_succ_self _) h

theorem multiselectListFrom_sound {e : Expr} (hs : Sound last sub) (hc : ctx.EndsWith last)
    (h : multiselectListFrom sub ctx ts = .ok (e, us)) :
    ∃ ls es, e = .multiselectList es ∧ Row Pipeline ls es ∧ Leads ts (ls ++ [.mark .rbracket]) us := by
  obtain ⟨es, vs, hes, h⟩ := bind_eq_ok.1 h
  cases h
  obtain ⟨ls, hr, hl⟩ := items_sound hc (hs.pipeline hc) hes
  exact ⟨ls, es, rfl, hr, hl⟩

theorem key_sound {k : String} (hc : ctx.EndsWith last) (h : key ctx ts = .ok (k, us)) :
    ∃ l, Key l k ∧ Leads ts [l] us := by
  have h := of_peek_bind hc h
  rw [lexeme_front hc] at h
  cases hk : nextLexeme ts with
  | name s =>
    rw [hk] at h
    have h := of_skip_bind (f := fun _ => pure s) hc h
    cases h
    exact ⟨_, .name k, leads_tail hk (by simp)⟩
  | quotedName s =>
    rw [hk] at h
    have h := of_skip_bind (f := fun _ => pure s) hc h
    cases h
    exact ⟨_, .quotedName k, leads_tail hk (by simp)⟩
  | _ =>
    rw [hk] at h
    exact absurd h not_fail_eq_ok

theorem pair_sound {p : String × Expr} (hs : Sound last sub) (hc : ctx.EndsWith last)
    (h : pair sub ctx ts = .ok (p, us)) : ∃ ls, Pair ls p ∧ Leads ts ls us := by
  obtain ⟨k, vs, hk, h⟩ := bind_eq_ok.1 h
  obtain ⟨_, ws, hcolon, h⟩ := bind_eq_ok.1 h
  obtain ⟨e, xs, he, h⟩ := bind_eq_ok.1 h
  cases h
  obtain ⟨l, hl, hv⟩ := key_sound hc hk
  obtain ⟨ls, hls, hx⟩ := hs.pipeline hc he
  refine ⟨_, .pair hl hls, ?_⟩
  exact Leads.head_iff.2 ⟨vs, hv, Leads.head_iff.2 ⟨ws, (expect_eq_ok_iff hc).1 hcolon, hx⟩⟩

theorem multiselectHashFrom_sound {e : Expr} (hs : Sound last sub) (hc : ctx.EndsWith last)
    (h : multiselectHashFrom sub ctx ts = .ok (e, us)) :
    ∃ ls, Hash (.mark .lbrace :: ls) e ∧ Leads ts ls us := by
  obtain ⟨ps, vs, hps, h⟩ := bind_eq_ok.1 h
  cases h
  obtain ⟨ls, hr, hl⟩ := items_sound hc (pair_sound hs hc) hps
  exact ⟨_, .pairs hr, hl⟩

theorem argument_sound {e : Expr} (hs : Sound last sub) (hc : ctx.EndsWith last)
    (h : argument sub ctx ts = .ok (e, us)) : ∃ ls, Grammar.Argument ls e ∧ Leads ts ls us := by
  have h := of_peek_bind hc h
  rw [ite_run, lexeme_front hc] at h
  split at h
  next hr =>
    have h := of_skip_bind hc h
    obtain ⟨e, vs, he, h⟩ := bind_eq_ok.1 h
    cases h
    obtain ⟨ls, hls, hl⟩ := hs.pipeline hc he
    exact ⟨_, .reference hls, Leads.head_iff.2 ⟨_, leads_tail hr (by simp), hl⟩⟩
  next =>
    obtain ⟨ls, hls, hl⟩ := hs.pipeline hc h
    exact ⟨ls, .value hls, hl⟩

theorem callFrom_sound {f : String} {e : Expr} (hs : Sound last sub) (hc : ctx.EndsWith last)
    (h : callFrom sub ctx f ts = .ok (e, us)) :
    ∃ ls, Call (.name f :: .mark .lparen :: ls) e ∧ Leads ts ls us := by
  have h := of_peek_bind hc h
  rw [ite_run, lexeme_front hc] at h
  split at h
  next hr =>
    have h := of_skip_bind hc h
    cases h
    exact ⟨_, .none f, leads_tail hr (by simp)⟩
  next =>
    obtain ⟨args, vs, hargs, h⟩ := bind_eq_ok.1 h
    cases h
    obtain ⟨ls, hr, hl⟩ := items_sound hc (argument_sound hs hc) hargs
    exact ⟨_, .some hr, hl⟩

/-! ### Operands -/

theorem nameFrom_sound {f : String} {e : Expr} (hs : Sound last sub) (hc : ctx.EndsWith last)
    (h : nameFrom sub ctx f ts = .ok (e, us)) :
    ∃ ls, (Call (.name f :: ls) e ∨ ls = [] ∧ e = .identifier f) ∧ Leads ts ls us := by
  have h := of_peek_bind hc h
  rw [ite_run, lexeme_front hc] at h
  split at h
  next hn =>
    have h := of_skip_bind hc h
    obtain ⟨ls, hcall, hl⟩ := callFrom_sound hs (hc.inside _) h
    exact ⟨_, .inl hcall, Leads.head_iff.2 ⟨_, leads_tail hn (by simp), hl⟩⟩
  next =>
    cases h
    exact ⟨[], .inr ⟨rfl, rfl⟩, Leads.nil_iff.2 rfl⟩

theorem quotedNameFrom_sound {s : String} {e : Expr} (hc : ctx.EndsWith last)
    (h : quotedNameFrom ctx s ts = .ok (e, us)) : e = .identifier s ∧ ts = us := by
  have h := of_peek_bind hc h
  rw [ite_run] at h
  split at h
  next => exact absurd h not_fail_eq_ok
  next =>
    cases h
    exact ⟨rfl, rfl⟩

theorem filterFrom_sound {source : Option Expr} {e : Expr} (hs : Sound last sub) (hc : ctx.EndsWith last)
    (h : filterFrom sub ctx source ts = .ok (e, us)) :
    ∃ ls, Bracketed source (.mark .filter :: ls) e ∧ Leads ts ls us := by
  obtain ⟨p, vs, hp, h⟩ := bind_eq_ok.1 h
  obtain ⟨_, ws, hclose, h⟩ := bind_eq_ok.1 h
  cases h
  obtain ⟨ls, hls, hv⟩ := hs.pipeline hc hp
  exact ⟨_, .filter hls, Leads.append_iff.2 ⟨vs, hv, (expect_eq_ok_iff hc).1 hclose⟩⟩

theorem listed_sound {e : Expr} (hs : Sound last sub) (hc : ctx.EndsWith last)
    (hstar : nextLexeme ts = .mark .star → nextLexeme ts.tail ≠ .mark .rbracket)
    (h : multiselectListFrom sub ctx ts = .ok (e, us)) :
    ∃ ls, Primary (.mark .lbracket :: ls) e ∧ Leads ts ls us := by
  obtain ⟨ls, es, rfl, hr, hl⟩ := multiselectListFrom_sound hs hc h
  refine ⟨_, .list hr ?_, hl⟩
  rintro rfl
  obtain ⟨vs, hv, hclose⟩ := Leads.head_iff.1 hl
  refine hstar hv.nextLexeme_eq ?_
  rw [tail_eq_of_leads hv]
  exact hclose.nextLexeme_eq

theorem bracketFrom_sound {e : Expr} (hs : Sound last sub) (hc : ctx.EndsWith last)
    (h : bracketFrom sub ctx ts = .ok (e, us)) :
    ∃ ls, Primary (.mark .lbracket :: ls) e ∧ Leads ts ls us := by
  have h := of_peek_bind hc h
  rw [ite_run, ite_run, lexeme_front hc] at h
  split at h
  next =>
    obtain ⟨ls, hsel, hl⟩ := selector_sound hc h
    exact ⟨_, .bracketed (.selector hsel), hl⟩
  next =>
    split at h
    next hstar =>
      have h := of_peekSecond_bind hc h
      rw [ite_run, lexeme_front hc] at h
      split at h
      next hclose =>
        have h := of_skip_bind hc (of_skip_bind hc h)
        cases h
        refine ⟨_, .bracketed .items, Leads.head_iff.2 ⟨_, leads_tail hstar (by simp), ?_⟩⟩
        exact leads_tail hclose (by simp)
      next hclose => exact listed_sound hs hc (fun _ => hclose) h
    next hstar => exact listed_sound hs hc (fun hstar' => absurd hstar' hstar) h

theorem literalFrom_sound {t : Token} {text : String} {e : Expr}
    (h : literalFrom ctx t text ts = .ok (e, us)) : Primary [.literal text] e ∧ ts = us := by
  unfold literalFrom at h
  cases hv : Json.read .literal text.toList with
  | ok v =>
    rw [hv] at h
    cases h
    exact ⟨.literal hv, rfl⟩
  | error fault =>
    rw [hv] at h
    exact absurd h not_fail_eq_ok

/-- An operand is a primary, or a negation that a comparator or a tighter operator does not follow. -/
theorem operandFrom_sound {t : Token} {e : Expr} (hs : Sound last sub) (hc : ctx.EndsWith last)
    (h : operandFrom sub ctx t ts = .ok (e, us)) :
    ∃ ls, (Primary (t.lexeme :: ls) e ∨ Negation (t.lexeme :: ls) e ∧ (nextLexeme us).power ≤ 4) ∧
      Leads ts ls us := by
  unfold operandFrom at h
  cases ht : t.lexeme with
  | name f =>
    rw [ht] at h
    obtain ⟨ls, hls, hl⟩ := nameFrom_sound hs hc h
    refine ⟨ls, .inl ?_, hl⟩
    rcases hls with hcall | ⟨rfl, rfl⟩
    · exact .call hcall
    · exact .name f
  | quotedName s =>
    rw [ht] at h
    obtain ⟨rfl, rfl⟩ := quotedNameFrom_sound hc h
    exact ⟨[], .inl (.quotedName s), Leads.nil_iff.2 rfl⟩
  | rawString s =>
    rw [ht] at h
    cases h
    exact ⟨[], .inl (.rawString s), Leads.nil_iff.2 rfl⟩
  | literal text =>
    rw [ht] at h
    obtain ⟨hprim, rfl⟩ := literalFrom_sound h
    exact ⟨[], .inl hprim, Leads.nil_iff.2 rfl⟩
  | number n =>
    rw [ht] at h
    exact absurd h not_fail_eq_ok
  | finish =>
    rw [ht] at h
    exact absurd h not_fail_eq_ok
  | mark m =>
    rw [ht] at h
    cases m with
    | current =>
      cases h
      exact ⟨[], .inl .current, Leads.nil_iff.2 rfl⟩
    | star =>
      cases h
      exact ⟨[], .inl .values, Leads.nil_iff.2 rfl⟩
    | flatten =>
      cases h
      exact ⟨[], .inl (.bracketed .flatten), Leads.nil_iff.2 rfl⟩
    | not =>
      obtain ⟨e, vs, he, h⟩ := bind_eq_ok.1 h
      cases h
      obtain ⟨hn, ls, hr, hl⟩ := hs hc he
      exact ⟨ls, .inr ⟨.not hr.right, hn⟩, hl⟩
    | lparen =>
      obtain ⟨e, vs, he, h⟩ := bind_eq_ok.1 h
      obtain ⟨_, ws, hclose, h⟩ := bind_eq_ok.1 h
      cases h
      obtain ⟨ls, hls, hv⟩ := hs.pipeline (hc.inside t) he
      exact ⟨_, .inl (.parentheses hls),
        Leads.append_iff.2 ⟨vs, hv, (expect_eq_ok_iff (hc.inside t)).1 hclose⟩⟩
    | lbracket =>
      obtain ⟨ls, hls, hl⟩ := bracketFrom_sound hs (hc.inside t) h
      exact ⟨ls, .inl hls, hl⟩
    | lbrace =>
      obtain ⟨ls, hls, hl⟩ := multiselectHashFrom_sound hs (hc.inside t) h
      exact ⟨ls, .inl (.hash hls), hl⟩
    | filter =>
      obtain ⟨ls, hls, hl⟩ := filterFrom_sound hs (hc.inside t) h
      exact ⟨ls, .inl (.bracketed hls), hl⟩
    | _ => exact absurd h not_fail_eq_ok

/-! ### Extensions -/

theorem fieldFrom_sound {left e : Expr} (hs : Sound last sub) (hc : ctx.EndsWith last)
    (h : fieldFrom sub ctx left ts = .ok (e, us)) :
    ∃ ls, Suffix left (.mark .dot :: ls) e ∧ Leads ts ls us := by
  have h := of_peek_bind hc h
  rw [lexeme_front hc] at h
  cases hn : nextLexeme ts with
  | name f =>
    rw [hn] at h
    have h := of_skip_bind hc h
    obtain ⟨r, vs, hr, h⟩ := bind_eq_ok.1 h
    cases h
    obtain ⟨ls, hls, hl⟩ := nameFrom_sound hs hc hr
    have hl := Leads.head_iff.2 ⟨_, leads_tail hn (by simp), hl⟩
    rcases hls with hcall | ⟨rfl, rfl⟩
    · exact ⟨_, .field (.call hcall), hl⟩
    · exact ⟨_, .field (.name f), hl⟩
  | quotedName s =>
    rw [hn] at h
    have h := of_skip_bind hc h
    obtain ⟨r, vs, hr, h⟩ := bind_eq_ok.1 h
    cases h
    obtain ⟨rfl, rfl⟩ := quotedNameFrom_sound hc hr
    exact ⟨_, .field (.quotedName s), leads_tail hn (by simp)⟩
  | mark m =>
    rw [hn] at h
    have htail := leads_tail hn (by simp)
    cases m with
    | star =>
      have h := of_skip_bind hc h
      cases h
      exact ⟨_, .values, htail⟩
    | lbracket =>
      have h := of_skip_bind hc h
      obtain ⟨r, vs, hr, h⟩ := bind_eq_ok.1 h
      cases h
      obtain ⟨ls, es, rfl, hrow, hl⟩ := multiselectListFrom_sound hs (hc.inside _) hr
      exact ⟨_, .field (.list hrow), Leads.head_iff.2 ⟨_, htail, hl⟩⟩
    | lbrace =>
      have h := of_skip_bind hc h
      obtain ⟨r, vs, hr, h⟩ := bind_eq_ok.1 h
      cases h
      obtain ⟨ls, hhash, hl⟩ := multiselectHashFrom_sound hs (hc.inside _) hr
      exact ⟨_, .field (.hash hhash), Leads.head_iff.2 ⟨_, htail, hl⟩⟩
    | _ => exact absurd h not_fail_eq_ok
  | _ =>
    rw [hn] at h
    exact absurd h not_fail_eq_ok

theorem selectorFrom_sound {left e : Expr} (hc : ctx.EndsWith last)
    (h : selectorFrom ctx left ts = .ok (e, us)) :
    ∃ ls, Bracketed (some left) (.mark .lbracket :: ls) e ∧ Leads ts ls us := by
  have h := of_peek_bind hc h
  rw [ite_run, ite_run, lexeme_front hc] at h
  split at h
  next =>
    obtain ⟨ls, hsel, hl⟩ := selector_sound hc h
    exact ⟨_, .selector hsel, hl⟩
  next =>
    split at h
    next hstar =>
      have h := of_skip_bind hc h
      obtain ⟨_, vs, hclose, h⟩ := bind_eq_ok.1 h
      cases h
      exact ⟨_, .items, Leads.head_iff.2 ⟨_, leads_tail hstar (by simp), (expect_eq_ok_iff hc).1 hclose⟩⟩
    next => exact absurd h not_fail_eq_ok

/-- An extension of what may stand to the left of its operator may stand where its operator may. -/
theorem extendFrom_sound {t : Token} {ls : List Lexeme} {left e : Expr} {power : Nat} (hs : Sound last sub)
    (hc : ctx.EndsWith last) (hleft : LeftOf t.lexeme.power ls left) (hp : power < t.lexeme.power)
    (h : extendFrom sub ctx t left ts = .ok (e, us)) :
    ∃ ms, ReadBetween power (nextLexeme us).power (ls ++ t.lexeme :: ms) e ∧ Leads ts ms us := by
  have bracketed {ms : List Lexeme} (hp : 5 < t.lexeme.power)
    (hb : Bracketed (some left) (t.lexeme :: ms) e) :
      ReadBetween power (nextLexeme us).power (ls ++ t.lexeme :: ms) e :=
    (Postfixed.suffixed ((leftOf_of_five_lt hp).1 hleft) (.bracketed hb)).between
  unfold extendFrom at h
  cases ht : t.lexeme with
  | mark m =>
    rw [ht] at h hp hleft bracketed
    cases m with
    | dot =>
      obtain ⟨ms, hsuf, hl⟩ := fieldFrom_sound hs hc h
      exact ⟨ms, (Postfixed.suffixed hleft hsuf).between, hl⟩
    | pipe =>
      obtain ⟨r, vs, hr, h⟩ := bind_eq_ok.1 h
      cases h
      obtain ⟨hn, ms, hms, hl⟩ := hs hc hr
      obtain rfl : power = 0 := Nat.lt_one_iff.1 hp
      have hpipe := Pipeline.pipe hleft hms.right
      exact ⟨ms, ⟨hpipe, hpipe.leftOf hn⟩, hl⟩
    | or =>
      obtain ⟨r, vs, hr, h⟩ := bind_eq_ok.1 h
      cases h
      obtain ⟨hn, ms, hms, hl⟩ := hs hc hr
      have hor := Disjunction.or hleft hms.right
      exact ⟨ms, ⟨hor.rightOf hp, hor.leftOf hn⟩, hl⟩
    | and =>
      obtain ⟨r, vs, hr, h⟩ := bind_eq_ok.1 h
      cases h
      obtain ⟨hn, ms, hms, hl⟩ := hs hc hr
      have hand := Conjunction.and hleft hms.right
      exact ⟨ms, ⟨hand.rightOf hp, hand.leftOf hn⟩, hl⟩
    | comparator op =>
      obtain ⟨r, vs, hr, h⟩ := bind_eq_ok.1 h
      cases h
      obtain ⟨hn, ms, hms, hl⟩ := hs hc hr
      refine ⟨ms, ?_, hl⟩
      rcases hms.right with hpost | ⟨⟨hcmp⟩, hn⟩
      · have hops := Operands.comparison op hleft hpost
        exact ⟨(Comparison.operands hops).rightOf hp, hops.leftOf hn⟩
      · have hnot := Comparison.operandsNot op hleft hcmp
        exact ⟨hnot.rightOf hp, hnot.leftOf hn⟩
    | flatten =>
      cases h
      exact ⟨[], bracketed (by decide) .flatten, Leads.nil_iff.2 rfl⟩
    | filter =>
      obtain ⟨ms, hb, hl⟩ := filterFrom_sound hs (hc.inside t) h
      exact ⟨ms, bracketed (by decide) hb, hl⟩
    | lbracket =>
      obtain ⟨ms, hb, hl⟩ := selectorFrom_sound (hc.inside t) h
      exact ⟨ms, bracketed (by decide) hb, hl⟩
    | _ => exact absurd h not_fail_eq_ok
  | _ =>
    rw [ht] at h
    exact absurd h not_fail_eq_ok

/-! ### Expressions -/

theorem failDeep_ne_ok (hc : ctx.EndsWith last) {r : α × List Token} :
    ¬ (failDeep ctx : Parser α) ts = .ok r := by
  intro h
  exact not_fail_eq_ok (of_peek_bind hc h)

/-- Where the stack does not give out, what follows goes on from the same tokens. -/
theorem of_hold_bind {halt? : Option Token → Option Nat} {f : Unit → Parser α} {r : α × List Token}
    (h : (hold halt? ctx >>= f) ts = .ok r) : f () ts = .ok r := by
  obtain ⟨_, vs, hhold, h⟩ := bind_eq_ok.1 h
  unfold hold at hhold
  split at hhold <;> cases hhold
  exact h

/-- Extending keeps what has been read between the operators on both sides. -/
theorem extendOn_sound {halt? : Option Token → Option Nat} : ∀ {room : Nat},
    (∀ r < room, Sound last (expressionOn halt? r)) →
    ∀ {ctx : Context} {power : Nat} {ts us : List Token} {ls : List Lexeme} {left e : Expr},
    ctx.EndsWith last →
    ReadBetween power (nextLexeme ts).power ls left → extendOn halt? room ctx power left ts = .ok (e, us) →
    (nextLexeme us).power ≤ power ∧
      ∃ ms, ReadBetween power (nextLexeme us).power (ls ++ ms) e ∧ Leads ts ms us := by
  intro room
  induction room with
  | zero =>
    intro _ ctx power ts us ls left e hc hr h
    unfold extendOn at h
    have h := of_peek_bind hc h
    rw [ite_run, lexeme_front hc] at h
    split at h
    next => exact absurd h (failDeep_ne_ok hc)
    next hp =>
      cases h
      exact ⟨by omega, [], by simpa using hr, Leads.nil_iff.2 rfl⟩
  | succ room ih =>
    intro hsub ctx power ts us ls left e hc hr h
    unfold extendOn at h
    have h := of_peek_bind hc h
    rw [ite_run, lexeme_front hc] at h
    split at h
    next hp =>
      have h := of_skip_bind hc h
      obtain ⟨left', vs, he, h⟩ := bind_eq_ok.1 h
      rw [← lexeme_front hc] at hr hp
      obtain ⟨ms, hms, hv⟩ := extendFrom_sound (hsub room room.lt_succ_self) hc hr.left hp he
      obtain ⟨hn, ns, hns, hl⟩ := ih (fun r hr => hsub r (Nat.lt_succ_of_lt hr)) hc hms h
      refine ⟨hn, (front last ts).lexeme :: ms ++ ns, by simpa using hns, ?_⟩
      have hfin : (front last ts).lexeme ≠ .finish := by
        intro hfin
        rw [hfin] at hp
        exact Nat.not_lt_zero _ hp
      have htail := leads_tail (lexeme_front hc ts).symm hfin
      exact Leads.append_iff.2 ⟨_, Leads.head_iff.2 ⟨_, htail, hv⟩, hl⟩
    next hp =>
      cases h
      exact ⟨by omega, [], by simpa using hr, Leads.nil_iff.2 rfl⟩

/-- What an operand starts with is not the end. -/
theorem operand_ne_finish {l : Lexeme} {ls : List Lexeme} {e : Expr} {next : Nat}
    (h : Primary (l :: ls) e ∨ Negation (l :: ls) e ∧ next ≤ 4) : l ≠ .finish := by
  rintro rfl
  rcases h with h | ⟨⟨⟩, -⟩
  cases h with
  | call h => cases h
  | bracketed h => cases h
  | hash h => cases h

theorem expressionOn_sound (halt? : Option Token → Option Nat) (last : Token) :
    ∀ room, Sound last (expressionOn halt? room)
  | 0 => by
    intro ctx power ts us e hc h
    unfold expressionOn at h
    exact absurd (of_hold_bind h) (failDeep_ne_ok hc)
  | room + 1 => by
    intro ctx power ts us e hc h
    have hsub : ∀ r < room + 1, Sound last (expressionOn halt? r) := fun r hr => expressionOn_sound halt? last r
    unfold expressionOn at h
    obtain ⟨left, vs, hop, h⟩ := bind_eq_ok.1 (of_advance_bind hc (of_hold_bind h))
    obtain ⟨ls, hls, hv⟩ := operandFrom_sound (hsub room room.lt_succ_self) hc hop
    have hb : ReadBetween power (nextLexeme vs).power ((front last ts).lexeme :: ls) left := by
      rcases hls with hprim | ⟨hneg, hn⟩
      · exact (Postfixed.primary hprim).between
      · exact hneg.between hn
    obtain ⟨hn, ms, hms, hl⟩ := extendOn_sound (fun r hr => hsub r (Nat.lt_succ_of_lt hr)) hc hb h
    have htail := leads_tail (lexeme_front hc ts).symm (operand_ne_finish hls)
    exact ⟨hn, _, hms, Leads.append_iff.2 ⟨_, Leads.head_iff.2 ⟨_, htail, hv⟩, hl⟩⟩
termination_by room => room

theorem expression_sound (last : Token) (room : Nat) : Sound last (expression room) := expressionOn_sound _ last room

end Expr
end JsonQuery
