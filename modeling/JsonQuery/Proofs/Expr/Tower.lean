import JsonQuery.Proofs.Expr.Height
import JsonQuery.Proofs.Token.Spelling

/-! The highest trees. A tower is a list of one tower, flattened as often as the room allows once the
    bracket is closed: `@`, `[@][]`, `[[@][]][][]` and so on. With the room that its text needs it has the
    greatest height of all trees that are read with that room. -/

namespace JsonQuery

open Token (nextLexeme Leads)

namespace Expr

/-- An expression flattened a number of times. -/
def flattened : Nat → Expr → Expr
  | 0, e => e
  | n + 1, e => flattened n (flatten (some e))

/-- The tower of some number of stages on top of the current value. -/
def tower : Nat → Expr
  | 0 => current
  | n + 1 => flattened (n + 1) (multiselectList [tower n])

/-- The lexemes of a tower. -/
def towerLexemes : Nat → List Lexeme
  | 0 => [.mark .current]
  | n + 1 => .mark .lbracket :: (towerLexemes n ++ .mark .rbracket :: List.replicate (n + 1) (.mark .flatten))

/-- The text of a tower. -/
def towerText (n : Nat) : String := String.ofList (spellings (towerLexemes n))

theorem flattened_succ : ∀ (n : Nat) (e : Expr), flattened (n + 1) e = flatten (some (flattened n e)) := by
  intro n
  induction n with
  | zero => exact fun _ => rfl
  | succ n ih => exact fun e => ih (flatten (some e))

theorem height_flattened : ∀ (n : Nat) (e : Expr), (flattened n e).height = e.height + n := by
  intro n
  induction n with
  | zero => exact fun _ => rfl
  | succ n ih =>
    intro e
    rw [flattened, ih]
    simp only [height, heightOption]
    omega

theorem height_tower : ∀ n, (tower n).height = highest (n + 1) := by
  intro n
  induction n with
  | zero => rfl
  | succ n ih =>
    rw [tower, height_flattened, highest]
    simp only [height, heightList, ih]
    omega

/-! ### The text -/

theorem separate_flattens {rest : List Lexeme} (h : Separate rest) :
    ∀ n, Separate (List.replicate n (.mark .flatten) ++ rest) := by
  intro n
  induction n with
  | zero => exact h
  | succ n ih => exact separate_cons trivial (fun _ => rfl) ih

/-- A tower starts with a bracket or the mark of the current value, which the bracket before it does not go
    on with. -/
theorem lbracket_endsAt_tower (n : Nat) (rest : List Lexeme) :
    (Lexeme.mark .lbracket).EndsAt (spellings (towerLexemes n ++ rest)) := by
  cases n with
  | zero =>
    rintro c ⟨⟩
    rfl
  | succ n =>
    rintro c ⟨⟩
    rfl

theorem separate_tower :
    ∀ (n : Nat) {rest : List Lexeme}, Separate rest → Separate (towerLexemes n ++ rest) := by
  intro n
  induction n with
  | zero => exact fun h => separate_cons trivial (fun _ => rfl) h
  | succ n ih =>
    intro rest h
    have hclosed : Separate (.mark .rbracket :: (List.replicate (n + 1) (.mark .flatten) ++ rest)) :=
      separate_cons trivial (fun _ => rfl) (separate_flattens h (n + 1))
    have hinner := ih hclosed
    rw [towerLexemes, List.cons_append, List.append_assoc]
    exact ⟨trivial, lbracket_endsAt_tower n _, hinner⟩

/-! ### Reading a tower -/

variable {ctx : Context} {last : Token} {ts us : List Token}

theorem extend_flattens : ∀ {n : Nat} {e : Expr} {ts : List Token},
    Leads ts (List.replicate n (.mark .flatten)) us →
    extend n ctx 0 e ts = extend 0 ctx 0 (flattened n e) us := by
  intro n
  induction n with
  | zero =>
    intro e ts h
    rw [Leads.nil_iff.1 h]
    rfl
  | succ n ih =>
    intro e ts h
    obtain ⟨⟨_, start, stop, offset⟩, vs, rfl, rfl, hv⟩ := Leads.cons_iff.1 h
    have hstep : extend (n + 1) ctx 0 e (⟨.mark .flatten, start, stop, offset⟩ :: vs)
        = extend n ctx 0 (flatten (some e)) vs := extend_step (show 0 < 9 by decide) rfl
    rw [hstep, ih hv, flattened]

theorem nextLexeme_tower {n : Nat} {ls : List Lexeme} (h : Leads ts (towerLexemes n ++ ls) us) :
    nextLexeme ts = .mark .current ∨ nextLexeme ts = .mark .lbracket := by
  cases n with
  | zero => exact .inl h.nextLexeme_eq
  | succ n => exact .inr h.nextLexeme_eq

/-- A bracket around one expression that starts with neither a number nor a star. -/
theorem bracketFrom_one {e : Expr} {sub : SubParser} (hf : ctx.Finishes last)
    (hfirst : nextLexeme ts = .mark .current ∨ nextLexeme ts = .mark .lbracket) {vs : List Token}
    (he : sub ctx 0 ts = .ok (e, vs)) (hclose : Leads vs [.mark .rbracket] us) :
    bracketFrom sub ctx ts = .ok (multiselectList [e], us) := by
  have hselector : startsSelector (nextLexeme ts) = false := by
    rcases hfirst with h | h <;> rw [h] <;> rfl
  have hstar : nextLexeme ts ≠ .mark .star := by
    rcases hfirst with h | h <;> rw [h] <;> decide
  have hrow : items ctx .rbracket (sub ctx 0) ts = .ok ([e], us) := by
    obtain ⟨t, ws, rfl, ht, hw⟩ := Leads.cons_iff.1 hclose
    cases Leads.nil_iff.1 hw
    unfold items row
    rw [bind_run_of_ok he, peek_bind_cons, ite_run, if_pos ht, skip_bind_cons]
    rfl
  unfold bracketFrom
  rw [peek_bind hf, ite_run, ite_run, lexeme_front hf.endsWith, if_neg (by simp [hselector]), if_neg hstar]
  exact bind_run_of_ok hrow

theorem expression_tower : ∀ {n : Nat} {ctx : Context} {ts us : List Token}, ctx.Finishes last →
    (nextLexeme us).power = 0 → Leads ts (towerLexemes n) us →
    expression (n + 1) ctx 0 ts = .ok (tower n, us) := by
  intro n
  induction n with
  | zero =>
    intro ctx ts us hf hn h
    obtain ⟨⟨_, start, stop, offset⟩, vs, rfl, rfl, hv⟩ := Leads.cons_iff.1 h
    cases Leads.nil_iff.1 hv
    exact (expression_step rfl).trans (extend_stop hf (Nat.le_of_eq hn) current)
  | succ n ih =>
    intro ctx ts us hf hn h
    obtain ⟨⟨_, start, stop, offset⟩, vs, rfl, rfl, hv⟩ := Leads.cons_iff.1 h
    have hfirst := nextLexeme_tower hv
    obtain ⟨ws, hw, hclose⟩ := Leads.append_iff.1 hv
    have hnext : (nextLexeme ws).power = 0 := by rw [hclose.nextLexeme_eq]; rfl
    obtain ⟨xs, hclose, hx⟩ := Leads.head_iff.1 hclose
    have hinside := hf.inside ⟨.mark .lbracket, start, stop, offset⟩
    have hoperand : operandFrom (expression (n + 1)) ctx ⟨.mark .lbracket, start, stop, offset⟩ vs
        = .ok (multiselectList [tower n], xs) :=
      bracketFrom_one hinside hfirst (ih hinside hnext hw) hclose
    calc expression (n + 2) ctx 0 (⟨.mark .lbracket, start, stop, offset⟩ :: vs)
      _ = extend (n + 1) ctx 0 (multiselectList [tower n]) xs := expression_step hoperand
      _ = extend 0 ctx 0 (tower (n + 1)) us := extend_flattens hx
      _ = .ok (tower (n + 1), us) := extend_stop hf (Nat.le_of_eq hn) (tower (n + 1))

/-- The text of a tower is accepted under a limit of one more than its stages. -/
theorem parse_tower (n : Nat) : parse (towerText n) (n + 1 : Nat) = .ok (tower n) := by
  have hseparate : Separate (towerLexemes n) := by
    have h : Separate (towerLexemes n ++ []) := separate_tower n trivial
    rwa [List.append_nil] at h
  obtain ⟨tokens, last, hscan, hlexemes⟩ := Scan.ofText_spellings hseparate
  have hscan : Scan.ofText (towerText n).toList = ⟨tokens, .finish last⟩ := by
    rw [towerText, String.toList_ofList, hscan]
  have hne : tokens ≠ [] := by
    rintro rfl
    cases n <;> cases hlexemes
  refine parse_of_expression hscan hne fun hf => ?_
  exact expression_tower hf rfl (hlexemes ▸ Leads.self tokens)

end Expr
end JsonQuery
