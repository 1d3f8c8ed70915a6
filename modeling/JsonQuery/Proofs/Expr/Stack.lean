import JsonQuery.Proofs.Expr.Places
import JsonQuery.Proofs.Expr.Reasons
import JsonQuery.Proofs.Expr.Runs

/-! What the stack of a machine changes. On the same tokens a run on a machine and one with stack enough do the same
    until the stack of the machine gives out. So what comes of a text on a machine is what comes of it with stack
    enough, or the one error that says that the stack gave out; and what holds of all errors with stack enough
    holds on every machine, that one error apart. -/

namespace JsonQuery

/-- An error on account of the stack of a machine, which does give out somewhere: it names the limit, and is put at a
    token of the text or at its end. -/
def ParserStack.Fails (stack : ParserStack) (text : String) (limit : Int) (e : SyntaxError) : Prop :=
  (∃ next, stack.givesOut next ≠ none) ∧ ∃ p, e = .grammar (.exhausted limit) p ∧
    (p = text.length ∨ ∃ t ∈ (Scan.ofText text.toList).tokens, p = t.start)

namespace Expr

/-! ### A row of tokens beside itself -/

/-- A row of tokens beside itself. The second run may have more room, and the first may have a stack that gives
    out. -/
def Pairing.itself (deeper : Prop) (limit : Int) (halts : Nat → Prop) : Pairing where
  Same := Eq
  more := []
  cut := False
  deeper := deeper
  limit := limit
  halts := halts
  lexeme_eq := congrArg Token.lexeme
  more_eq_nil := nothing_more

namespace Pairing

variable {deeper : Prop} {limit limit' : Int} {halts : Nat → Prop} {ctx : Context} {last : Token}
  {ts us : List Token}

theorem rows_itself (ts : List Token) : (itself deeper limit halts).Rows ts ts :=
  ⟨ts, (List.append_nil ts).symm, List.forall₂_same.2 fun _ _ => rfl⟩

theorem eq_of_rows_itself (h : (itself deeper limit halts).Rows ts us) : us = ts := by
  obtain ⟨vs, rfl, hvs⟩ := h
  have hsame : List.Forall₂ Eq ts vs := hvs
  rw [List.forall₂_eq_eq_eq] at hsame
  rw [hsame]
  exact List.append_nil vs

theorem Beside.itself (hc : ctx.EndsWith last) (hlimit : ctx.limit = limit) (hdeeper : limit' = limit ∨ deeper) :
    (Pairing.itself deeper limit halts).Beside last ctx { ctx with limit := limit' } where
  endsWith := hc
  ending _ := by
    show (Pairing.itself deeper limit halts).Ends ctx.ending ctx.ending
    cases ctx.ending with
    | finish t => exact rfl
    | fault f => exact rfl
  unclosed := List.forall₂_same.2 fun _ _ => rfl
  limit := hlimit
  limit' := hdeeper

theorem eq_of_alike_itself {e e' : SyntaxError} (h : (itself deeper limit halts).Alike e e') : e' = e := by
  cases e with
  | lexical f =>
    cases e' with
    | lexical f' => exact congrArg SyntaxError.lexical (Eq.symm h)
    | _ => exact h.elim
  | grammar cause p =>
    cases e' with
    | grammar cause' p' =>
      obtain ⟨rfl, t, _, rfl, rfl, rfl⟩ := h
      rfl
    | _ => exact h.elim
  | incomplete cause opener p =>
    cases e' with
    | incomplete cause' opener' p' =>
      obtain ⟨rfl, rfl, t, _, rfl, rfl, rfl⟩ := h
      rfl
    | _ => exact h.elim

/-- Two runs on one row end in the same way, unless the first one fails in a way that says nothing. -/
theorem Follows.of_itself {α : Type} {r r' : Except SyntaxError (α × List Token)}
    (h : (itself deeper limit halts).Follows True r r') :
    (∃ e, r = .error e ∧ (itself deeper limit halts).Excused e) ∨ r' = r := by
  rcases h with hsilent | hmatch
  · cases r with
    | ok r => exact hsilent.1.elim
    | error e => exact .inl ⟨e, rfl, hsilent⟩
  · refine .inr ?_
    cases r with
    | ok r =>
      cases r' with
      | ok r' =>
        obtain ⟨x, us⟩ := r
        obtain ⟨x', us'⟩ := r'
        obtain ⟨rfl, hrows⟩ := hmatch
        rw [eq_of_rows_itself hrows]
      | error e' => exact hmatch.elim
    | error e =>
      cases r' with
      | ok r' => exact hmatch.elim
      | error e' => rw [eq_of_alike_itself hmatch]

end Pairing

section
variable {stack : ParserStack} {text : String} {limit : Int} {e : SyntaxError}

theorem parseOn_of_blank (h : Text.trim Text.isBlank text.toList = []) (stack : ParserStack) :
    parseOn stack text limit = parse text limit := by
  rw [parse, parseOn, if_pos h, parseOn, if_pos h]

theorem parseOn_of_not_blank (h : ¬ Text.trim Text.isBlank text.toList = []) (stack : ParserStack) (limit : Int) :
    parseOn stack text limit = (wholeOn (stack.halt? text.toList.length (Scan.ofText text.toList)) limit.toNat
      ⟨limit, (Scan.ofText text.toList).ending, []⟩).run' (Scan.ofText text.toList).tokens := by
  rw [parseOn, if_neg h, ofScanOn]

/-- A machine puts its error at a token or at the end of the text. -/
theorem place_of_halt? {s : Scan} {length p : Nat} {next : Option Token}
    (h : stack.halt? length s next = some p) :
    (∃ next, stack.givesOut next ≠ none) ∧ (p = length ∨ ∃ t ∈ s.tokens, p = t.start) := by
  obtain ⟨i, hi, rfl⟩ := Option.map_eq_some_iff.1 h
  refine ⟨⟨_, Option.ne_none_iff_exists'.2 ⟨i, hi⟩⟩, ?_⟩
  cases ht : s.tokens[i]? with
  | none => exact .inl rfl
  | some t => exact .inr ⟨t, List.mem_of_getElem? ht, rfl⟩

/-- On a machine a text is read as with stack enough, or the stack gives out. -/
theorem parseOn_eq_or (stack : ParserStack) (text : String) (limit : Int) :
    parseOn stack text limit = parse text limit ∨
      ∃ e, parseOn stack text limit = .error e ∧ stack.Fails text limit e := by
  by_cases hblank : Text.trim Text.isBlank text.toList = []
  · exact .inl (parseOn_of_blank hblank stack)
  let halts (p : Nat) : Prop := (∃ next, stack.givesOut next ≠ none) ∧
    (p = text.length ∨ ∃ t ∈ (Scan.ofText text.toList).tokens, p = t.start)
  obtain ⟨last, hc⟩ := (stands_start text limit).endsWith
  have hh : (Pairing.itself False limit halts).Halts
      (stack.halt? text.toList.length (Scan.ofText text.toList)) fun _ => none := ⟨place_of_halt?, fun _ _ => rfl⟩
  rw [parse, parseOn_of_not_blank hblank, parseOn_of_not_blank hblank]
  rcases (Pairing.follows_wholeOn hh (.inl rfl) (.itself hc rfl (.inl rfl))
    (Pairing.rows_itself (Scan.ofText text.toList).tokens)).of_itself with ⟨e, hrun, he⟩ | hrun
  · refine .inr ⟨e, run'_eq_error_iff.2 hrun, ?_⟩
    cases e with
    | lexical f => exact he.elim
    | grammar cause p =>
      obtain ⟨-, hnot⟩ | ⟨rfl, hgives, hplace⟩ := he
      · exact (hnot.elim id id).elim
      · exact ⟨hgives, p, rfl, hplace⟩
    | incomplete cause opener p => exact (he.elim id fun h => h.2).elim
  · exact .inl (congrArg (Except.map Prod.fst) hrun).symm

/-! ### Where errors are on a machine -/

/-- Every error of the parser is in its place, but for that of a stack that gives out. -/
theorem parse_error_place (h : parseOn stack text limit = .error e) :
    InPlace text e ∨ stack.Fails text limit e := by
  rcases parseOn_eq_or stack text limit with hsame | ⟨e', he', hfails⟩
  · exact .inl (inPlace_of_parse (hsame.symm.trans h))
  · cases he'.symm.trans h
    exact .inr hfails

/-- Two brackets are left open; the inner one, a parenthesis, is the place. -/
theorem parse_error_place_call : parseOn .ample "a[?b(" 128 =
      .error (.incomplete (.notAnExpression .finish) (some (.mark .lparen)) 4) ∧
    (InPlace "a[?b(" (.incomplete (.notAnExpression .finish) (some (.mark .lparen)) 4) ∨
      ParserStack.ample.Fails "a[?b(" 128 (.incomplete (.notAnExpression .finish) (some (.mark .lparen)) 4)) := by
  have hrun : parseOn .ample "a[?b(" 128 =
      .error (.incomplete (.notAnExpression .finish) (some (.mark .lparen)) 4) :=
    eq_error_of_failure? (by decide +kernel)
  exact ⟨hrun, parse_error_place hrun⟩

/-- A stack that gives out inside the parenthesis, when no token is looked at, has its error at the end of the text;
    no token starts there. -/
theorem parse_error_out_of_place :
    parseOn ⟨fun next => if next = some 1 then some 3 else none⟩ "(@)" 128 = .error (.grammar (.exhausted 128) 3) ∧
      ¬ InPlace "(@)" (.grammar (.exhausted 128) 3) := by
  refine ⟨eq_error_of_failure? (by decide +kernel), ?_⟩
  rintro ⟨t, ht, -, hstart⟩
  have hstarts : (Scan.ofText "(@)".toList).tokens.map Token.start = [0, 1, 2] := by decide +kernel
  have hmem := List.mem_map_of_mem (f := Token.start) ht
  rw [hstarts, ← hstart] at hmem
  revert hmem
  decide

/-- The parser and the tokens of a text agree on its fault, whatever the limit. A lexical error of the parser is the
    fault of the text. A text with a fault is refused on account of the fault, or of the grammar at a token that
    stands wholly before it, and never because the expression ended too early; or the stack gave out. -/
theorem parse_agrees_on_fault (stack : ParserStack) (text : String) (limit : Int) :
    (∀ f, parseOn stack text limit = .error (.lexical f) → (Scan.ofText text.toList).ending = .fault f) ∧
    ∀ f, (Scan.ofText text.toList).ending = .fault f → ∃ e, parseOn stack text limit = .error e ∧
      (e = .lexical f ∨ (∃ cause, ∃ t ∈ (Scan.ofText text.toList).tokens,
        e = .grammar cause t.start ∧ t.start < t.stop ∧ t.stop ≤ f.position) ∨ stack.Fails text limit e) := by
  rcases parseOn_eq_or stack text limit with hsame | ⟨e, he, hfails⟩
  · rw [hsame]
    refine ⟨fun f h => placedIn_of_parse h, fun f hf => ?_⟩
    rcases parse_of_fault hf limit with h | ⟨cause, t, ht, h⟩
    · exact ⟨_, h, .inl rfl⟩
    · exact ⟨_, h, .inr (.inl ⟨cause, t, ht, rfl, stop_le_of_fault hf ht⟩)⟩
  · refine ⟨fun f h => ?_, fun f _ => ⟨e, he, .inr (.inr hfails)⟩⟩
    obtain ⟨-, p, rfl, -⟩ := hfails
    cases he.symm.trans h

/-- A stack that gives out inside the parenthesis, when no token is looked at, has its error after the fault of the
    text. -/
theorem parse_passes_fault :
    parseOn ⟨fun next => if next = some 1 then some 2 else none⟩ "(@ #" 128 = .error (.grammar (.exhausted 128) 4) ∧
      (Scan.ofText "(@ #".toList).ending = .fault ⟨.unknownCharacter '#', 3⟩ ∧
      ∀ t ∈ (Scan.ofText "(@ #".toList).tokens, t.start ≠ 4 := by
  have hfault : (Scan.ofText "(@ #".toList).ending = .fault ⟨.unknownCharacter '#', 3⟩ := by decide +kernel
  refine ⟨eq_error_of_failure? (by decide +kernel), hfault, fun t ht hstart => ?_⟩
  have hbefore := stop_le_of_fault hfault ht
  have hstop : t.stop ≤ 3 := hbefore.2
  omega

end

end Expr
end JsonQuery
