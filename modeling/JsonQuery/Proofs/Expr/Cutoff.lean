import JsonQuery.Proofs.Expr.Room
import JsonQuery.Proofs.Expr.Stack

/-! The limit on the depth is a cut-off. A run with more room follows one with less, on the same tokens and the same
    machine, until the latter is out of room or out of stack; so what is not refused for its depth under a limit is
    read in the same way, or refused for the same reason, under every higher one. And a limit of at least the
    number of tokens, with that of the end, is never met. -/

namespace JsonQuery.Expr

section
variable {stack : ParserStack} {text : String} {limit limit' : Int}

/-- A higher limit changes nothing, unless the lower one is exceeded or the stack gives out before. -/
theorem parse_deeper (h : limit ≤ limit') :
    (∃ e, parseOn stack text limit = .error e ∧ e.IsDepth) ∨ parseOn stack text limit' = parseOn stack text limit := by
  by_cases hblank : Text.trim Text.isBlank text.toList = []
  · rw [parseOn_of_blank hblank, parseOn_of_blank hblank, parse_of_blank hblank, parse_of_blank hblank]
    exact .inr rfl
  obtain ⟨last, hc⟩ := (stands_start text limit).endsWith
  have hrooms : (Pairing.itself True limit fun _ => True).Rooms limit.toNat limit'.toNat :=
    .inr ⟨trivial, Int.toNat_le_toNat h⟩
  have hh : (Pairing.itself True limit fun _ => True).Halts
      (stack.halt? text.toList.length (Scan.ofText text.toList))
      (stack.halt? text.toList.length (Scan.ofText text.toList)) :=
    ⟨fun _ => trivial, fun hrows hnone => by rwa [Pairing.eq_of_rows_itself hrows]⟩
  rw [parseOn_of_not_blank hblank, parseOn_of_not_blank hblank]
  rcases (Pairing.follows_wholeOn hh hrooms (.itself hc rfl (.inr trivial))
    (Pairing.rows_itself (Scan.ofText text.toList).tokens)).of_itself with ⟨e, hrun, he⟩ | hrun
  · refine .inl ⟨e, run'_eq_error_iff.2 hrun, ?_⟩
    cases e with
    | lexical f => exact he
    | grammar cause p => exact he.elim And.left fun h => ⟨limit, .inr h.1⟩
    | incomplete cause opener p => exact he.elim False.elim And.left
  · exact .inr (congrArg (Except.map Prod.fst) hrun)

/-- Where the limit is at least the number of tokens, that of the end included, a text is not refused for its
    depth. -/
theorem not_isDepth_of_parse {e : SyntaxError} (hlimit : (Scan.ofText text.toList).tokens.length + 1 ≤ limit)
    (h : parse text limit = .error e) : ¬ e.IsDepth := by
  obtain ⟨last, hc⟩ := (stands_start text limit).endsWith
  have hroom : (Scan.ofText text.toList).tokens.length < limit.toNat := by omega
  have hrun {p : Parser Expr} (hp : Roomy (Scan.ofText text.toList).tokens.length p)
      (h : p.run' (Scan.ofText text.toList).tokens = .error e) : ¬ e.IsDepth := by
    have hkept := hp _ (Nat.le_refl _)
    rw [run'_eq_error_iff.1 h] at hkept
    exact hkept
  rw [parse_eq] at h
  split at h
  next =>
    refine hrun ((roomy_peek _).bind fun _ => .fail ?_) h
    rintro ⟨limit, hlimit | hlimit⟩ <;> cases hlimit
  next => exact hrun (roomy_whole hroom hc) h

/-- A limit on the depth only cuts off. A text that is accepted under a limit is read as the same tree under
    every higher one; what is wrong with it but for its depth is wrong with it under every higher one; and under a
    limit of at least the number of its tokens and of one more for the end a text, with a fault or without, is never
    too deep, unless the stack gives out. -/
theorem parse_cutoff (h : limit ≤ limit') :
    (∀ e, parseOn stack text limit = .ok e → parseOn stack text limit' = .ok e) ∧
    (∀ err, parseOn stack text limit = .error err → ¬ err.SaysTooDeep → parseOn stack text limit' = .error err) ∧
    ((Scan.ofText text.toList).tokens.length + 1 ≤ limit →
      ∀ err, parseOn stack text limit = .error err → err.SaysTooDeep → stack.Fails text limit err) := by
  refine ⟨fun e he => ?_, fun err herr hdepth => ?_, fun hlimit err herr hdepth => ?_⟩
  · rcases parse_deeper h with ⟨err, herr, -⟩ | hsame
    · cases he.symm.trans herr
    · exact hsame.trans he
  · rcases parse_deeper h with ⟨err', herr', hdepth'⟩ | hsame
    · cases herr.symm.trans herr'
      exact absurd (SyntaxError.saysTooDeep_iff.2 hdepth') hdepth
    · exact hsame.trans herr
  · rw [SyntaxError.saysTooDeep_iff] at hdepth
    rcases parseOn_eq_or stack text limit with hsame | ⟨err', herr', hfails⟩
    · exact absurd hdepth (not_isDepth_of_parse hlimit (hsame.symm.trans herr))
    · cases herr.symm.trans herr'
      exact hfails

/-- The text of a filter that is not closed has three tokens and the end; three levels are enough to find what is
    wrong. -/
theorem parse_cutoff_filter :
    parseOn .ample "a[?b" 3 = .error (.incomplete (.expected (.mark .rbracket) .finish) (some (.mark .filter)) 1) ∧
    parseOn .ample "a[?b" 4 = .error (.incomplete (.expected (.mark .rbracket) .finish) (some (.mark .filter)) 1) ∧
    ∀ err, parseOn .ample "a[?b" 4 = .error err → err.SaysTooDeep → ParserStack.ample.Fails "a[?b" 4 err := by
  have hrun : parseOn .ample "a[?b" 3 =
      .error (.incomplete (.expected (.mark .rbracket) .finish) (some (.mark .filter)) 1) :=
    eq_error_of_failure? (by decide +kernel)
  have hdepth : ¬ (SyntaxError.incomplete (.expected (.mark .rbracket) .finish)
      (some (.mark .filter)) 1).SaysTooDeep := by
    rw [SyntaxError.saysTooDeep_iff]
    rintro ⟨limit, hlimit | hlimit⟩ <;> cases hlimit
  have htokens : (Scan.ofText "a[?b".toList).tokens.length = 3 := by decide +kernel
  exact ⟨hrun, (parse_cutoff (by decide)).2.1 _ hrun hdepth,
    (parse_cutoff (Int.le_refl 4)).2.2 (by omega)⟩

/-- A text of one token is too deep under a limit of 2, if the stack gives out. -/
theorem parse_exhausted : (Scan.ofText "@".toList).tokens.length + 1 ≤ 2 ∧
    parseOn ⟨fun _ => some 1⟩ "@" 2 = .error (.grammar (.exhausted 2) 1) ∧
      (SyntaxError.grammar (.exhausted 2) 1).SaysTooDeep := by
  refine ⟨by decide +kernel, eq_error_of_failure? (by decide +kernel), ?_⟩
  rw [SyntaxError.saysTooDeep_iff]
  exact ⟨2, .inr rfl⟩

-- a pipe without a right side has three tokens, and a limit of two is met before the end is
example : failure? (parse "a|" 2) = some (.incomplete (.tooDeep 2) none 2) := by decide +kernel

end

end JsonQuery.Expr
