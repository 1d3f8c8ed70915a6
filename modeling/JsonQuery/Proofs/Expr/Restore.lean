import JsonQuery.Proofs.Expr.Balance
import JsonQuery.Proofs.Expr.Record

/-! Sub-parses restore the state. The part of the machine for expressions may be run anywhere in a text, at any depth,
    with any brackets open and under any power. In the end the depth is what it was, also after an error. After a tree
    the open brackets are what they were, some tokens have been taken one after the other, which are balanced, and the
    next token does not bind tighter than the power. -/

namespace JsonQuery.Expr.Descent

variable {scan : Scan} {limit d : Int} {n room power : Nat} {u ts us : List Token} {s s' : State} {ctx : Context}
  {e left : Expr} {last : Token}

/-! ### The token after an expression -/

/-- What comes next, a token or the end, does not bind tighter than a power; it is not a fault. -/
def LooserNext (ctx : Context) (power : Nat) (ts : List Token) : Prop :=
  ∃ t, ctx.first ts = .ok t ∧ t.lexeme.power ≤ power

/-- Either the loop goes on with the token that it has looked at, or that token is the one that comes next. -/
theorem looserNext_or_extendedBy (h : Expr.extend room ctx power left ts = .ok (e, us)) :
    LooserNext ctx power us ∨ ∃ t, extendedBy room ctx power left t ts = .ok (e, us) := by
  rw [extend_eq_extendedBy] at h
  obtain ⟨t, vs, hpeek, hrest⟩ := bind_eq_ok.1 h
  obtain ⟨hfirst, rfl⟩ := first_of_peek hpeek
  rw [ite_run] at hrest
  split at hrest
  next => exact .inr ⟨t, hrest⟩
  next hpower =>
    cases hrest
    exact .inl ⟨t, hfirst, Nat.le_of_not_lt hpower⟩

theorem looserNext_of_extend (hc : ctx.EndsWith last) (h : Expr.extend room ctx power left ts = .ok (e, us)) :
    LooserNext ctx power us := by
  induction room generalizing left ts with
  | zero =>
    rcases looserNext_or_extendedBy h with hnext | ⟨t, hdeep⟩
    · exact hnext
    · exact absurd hdeep (failDeep_ne_ok hc)
  | succ room ih =>
    rcases looserNext_or_extendedBy h with hnext | ⟨t, hmore⟩
    · exact hnext
    · obtain ⟨_, _, -, hextended⟩ := bind_eq_ok.1 hmore
      obtain ⟨_, _, -, hrest⟩ := bind_eq_ok.1 hextended
      exact ih hrest

theorem looserNext_of_expression (hc : ctx.EndsWith last) (h : Expr.expression room ctx power ts = .ok (e, us)) :
    LooserNext ctx power us := by
  cases room with
  | zero =>
    rw [expression_zero] at h
    exact absurd h (failDeep_ne_ok hc)
  | succ room =>
    rw [expression_add_one] at h
    obtain ⟨_, _, -, hoperand⟩ := bind_eq_ok.1 h
    obtain ⟨_, _, -, hextend⟩ := bind_eq_ok.1 hoperand
    exact looserNext_of_extend hc hextend

/-! ### States before and after -/

/-- A state somewhere in a text: the tokens left are the last ones of the text, and they end as those do. All states of
    a descent into the text are such, which takes tokens from the head and leaves their end alone. The limit, the
    depth, the open brackets, the frame and the record may be any. -/
structure State.StandsIn (s : State) (text : String) : Prop where
  ending : s.context.ending = (Scan.ofText text.toList).ending
  tokens : s.tokens <:+ (Scan.ofText text.toList).tokens

/-- What the return from a sub-parse makes of a state. The open brackets, and all else that is known around the tokens,
    are as before; at least one token has been taken, and those taken are balanced; what comes next does not bind
    tighter than the power. -/
structure Returned (power : Nat) (s s' : State) : Prop where
  context : s'.context = s.context
  taken : ∃ run, run ≠ [] ∧ s.tokens = run ++ s'.tokens ∧ s'.taken = s.taken ++ run ∧ unclosed? run = some []
  next : LooserNext s'.context power s'.tokens

/-- What a sub-parse comes to that leaves the state in order. It ends as the parser does with the room that the depth
    leaves: with the same tree and the same tokens left, or with the same error. However it ends, the depth is as
    before, and so is the count of entries of the frame around it. -/
structure Restores (power : Nat) (s : State) (r : Except Halt Expr × State) : Prop where
  ended : r.1.map (fun e => (e, r.2.tokens)) =
    (Expr.expression (s.context.limit - s.depth).toNat s.context power s.tokens).mapError .failed
  depth : r.2.depth = s.depth
  entered : r.2.entered = s.entered
  returned : ∀ e, r.1 = .ok e → Returned power s r.2

theorem Returned.behind (h : Returned power s s') (earlier : State) :
    Returned power (s.behind earlier) (s'.behind earlier) := by
  obtain ⟨run, hne, htokens, htaken, hunclosed⟩ := h.taken
  refine ⟨h.context, ⟨run, hne, htokens, ?_, hunclosed⟩, h.next⟩
  show earlier.taken ++ s'.taken = earlier.taken ++ s.taken ++ run
  rw [htaken, List.append_assoc]

theorem Restores.behind {r : Except Halt Expr × State} (h : Restores power s r) (earlier : State) :
    Restores power (s.behind earlier) (r.1, r.2.behind earlier) :=
  ⟨h.ended, h.depth, h.entered, fun e he => (h.returned e he).behind earlier⟩

/-! ### Sub-parses -/

theorem returned_of_expression (hscan : scan.WellEnded) (hs : At scan limit d u s) (hs' : At scan limit d u s')
    (hlength : s'.tokens.length < s.tokens.length)
    (h : Expr.expression room (within scan limit u) power s.tokens = .ok (e, s'.tokens)) : Returned power s s' := by
  obtain ⟨last, hlast⟩ : ∃ last, (within scan limit u).EndsWith last := endsWith_of_wellEnded hscan rfl
  obtain ⟨run, hrun, hbalanced⟩ := run_of_expression hlast h
  have htaken : s'.taken ++ s'.tokens = (s.taken ++ run) ++ s'.tokens := by
    rw [hs'.recorded.tokens, List.append_assoc, ← hrun, hs.recorded.tokens]
  have hne : run ≠ [] := by
    rintro rfl
    rw [hrun] at hlength
    exact Nat.lt_irrefl _ hlength
  have hnext : LooserNext s'.context power s'.tokens := by
    rw [hs'.context]
    exact looserNext_of_expression hlast h
  have hcontext : s'.context = s.context := hs'.context.trans hs.context.symm
  exact ⟨hcontext, ⟨run, hne, hrun, List.append_cancel_right htaken, hbalanced.unclosed?_eq⟩, hnext⟩

theorem restores_of_at (hscan : scan.WellEnded) (hs : At scan limit d u s) (hlength : s.tokens.length < n) :
    Restores power s (expression n power s) := by
  have hstep := (expression_mirrors hscan limit n).1 d u power s hs hlength
  have hroom : Expr.expression (s.context.limit - s.depth).toNat s.context power s.tokens =
      Expr.expression (limit - d).toNat (within scan limit u) power s.tokens := by rw [hs.context, hs.depth]
  generalize hq : Expr.expression (limit - d).toNat (within scan limit u) power s.tokens = q at hstep hroom
  generalize expression n power s = r at hstep
  cases hstep with
  | @ok e s' hs' =>
    obtain ⟨hat, hentered, hless⟩ := hs'
    refine ⟨by rw [hroom]; rfl, hat.depth.trans hs.depth.symm, hentered, fun _ _ => ?_⟩
    exact returned_of_expression hscan hs hat hless hq
  | failed hs' => exact ⟨by rw [hroom]; rfl, hs'.2.1.trans hs.depth.symm, hs'.2.2, nofun⟩

/-- With nothing recorded, a state is one of a descent into the tokens that are left. -/
theorem State.at_bare (s : State) :
    At ⟨s.tokens, s.context.ending⟩ s.context.limit s.depth s.context.unclosed s.bare :=
  ⟨rfl, rfl, rfl, Nat.le_refl _, nofun⟩

theorem State.StandsIn.wellEnded {text : String} (h : s.StandsIn text) :
    Scan.WellEnded ⟨s.tokens, s.context.ending⟩ where
  ne_finish := fun _ ht => Cursor.lexeme_of_mem_tokens (h.tokens.subset ht)
  finish := fun _ ht => Cursor.lexeme_of_ending (h.ending.symm.trans ht)

/-- Wherever in a text a sub-parse is run, with a bound over the number of the tokens left, and whatever the limit, the
    depth, the open brackets and the power: the depth is in the end as before, after a tree and after an error alike.
    After a tree the open brackets are as before too, at least one token has been taken, those taken are balanced, and
    the next one does not bind tighter than the power. -/
theorem expression_restores {text : String} (power : Nat) (hs : s.StandsIn text) (hlength : s.tokens.length < n) :
    Restores power s (expression n power s) := by
  -- the lockstep is about records in order, which `s` need not have; so the run is taken with an empty one first
  have hbare : Restores power s.bare (expression n power s.bare) := restores_of_at hs.wellEnded s.at_bare hlength
  have hbehind := hbare.behind s
  rwa [← (records_expression n).1 power s.bare s, s.bare_behind] at hbehind

/-- In a call of a function with a short name, at the first argument. -/
def State.atArgument (text : String) : State :=
  let scan := Scan.ofText text.toList
  ⟨within scan 128 [⟨.mark .lparen, 1, 2, 1⟩], scan.tokens.drop 2, 1, 1, scan.tokens.take 2, [.operand], []⟩

/-- Six tokens are taken, a bracket with what closes it among them, and the comma comes next. -/
theorem expression_restores_argument :
    (State.atArgument "f(a || b[0], c)").StandsIn "f(a || b[0], c)" ∧
    (State.atArgument "f(a || b[0], c)").tokens.length < 10 ∧
    (expression 10 0 (State.atArgument "f(a || b[0], c)")).2.tokens.map Token.lexeme =
      [.mark .comma, .name "c", .mark .rparen] ∧
    Restores 0 (State.atArgument "f(a || b[0], c)") (expression 10 0 (State.atArgument "f(a || b[0], c)")) := by
  have hs : (State.atArgument "f(a || b[0], c)").StandsIn "f(a || b[0], c)" := ⟨rfl, List.drop_suffix 2 _⟩
  have hlength : (State.atArgument "f(a || b[0], c)").tokens.length < 10 := by decide +kernel
  exact ⟨hs, hlength, by decide +kernel, expression_restores 0 hs hlength⟩

/-- After an error in the bracket at 8 the depth is that of the start, but both brackets are still open. -/
example : (Descent.parse 16 "f(a || b[c], d)" 128).2.depth = 0 ∧
    (Descent.parse 16 "f(a || b[c], d)" 128).2.context.unclosed.map Token.start = [8, 1] := by decide +kernel

end JsonQuery.Expr.Descent
