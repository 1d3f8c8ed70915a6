import JsonQuery.Proofs.Expr.Places
import JsonQuery.Proofs.Expr.Runs

/-! Errors that no continuation mends. The tokens of a text come first in every text that goes on from it after a
    blank. What the parser says of the shorter text without having looked at its end it therefore says of the
    longer one. An error of the grammar is such, since whatever is read at the end fails on account of the end;
    but for the depth, since a wildcard after a bracket counts as an item of a list until the bracket is
    closed. -/

namespace JsonQuery.Expr

/-- A row of tokens beside the same row going on. -/
def Pairing.goingOn (limit : Int) (more : List Token) : Pairing where
  Same := Eq
  more := more
  cut := True
  deeper := False
  limit := limit
  halts _ := False
  lexeme_eq := congrArg Token.lexeme
  more_eq_nil hcut := absurd trivial hcut

/-- A run that fails for a rule of the grammar other than the depth is followed by one that does. -/
theorem Pairing.Follows.of_grammar {α : Type} {P : Pairing} {stops : Prop} {cause : GrammarCause} {p : Nat}
    {r r' : Except SyntaxError (α × List Token)} (h : P.Follows stops r r') (hr : r = .error (.grammar cause p))
    (hcause : ¬ IsDepth cause) : ∃ p', r' = .error (.grammar cause p') ∧ P.At p p' := by
  subst hr
  rcases h with (⟨hdepth, -⟩ | ⟨hexhausted, -⟩) | hmatch
  · exact absurd hdepth hcause
  · exact absurd ⟨_, .inr hexhausted⟩ hcause
  cases r' with
  | ok r' => exact hmatch.elim
  | error e' =>
    cases e' with
    | grammar cause' p' =>
      obtain ⟨rfl, hat⟩ := hmatch
      exact ⟨p', rfl, hat⟩
    | _ => exact hmatch.elim

section
variable {x y : String} {limit : Int} {cause : GrammarCause} {p : Nat}

theorem toList_append_blank (x y : String) : (x ++ " " ++ y).toList = x.toList ++ ' ' :: y.toList := by simp

theorem tokens_append_blank (x y : String) : ∃ us, (Scan.ofText (x ++ " " ++ y).toList).tokens =
    (Scan.ofText x.toList).tokens ++ us := by
  rw [toList_append_blank]
  exact Cursor.tokens_extended rfl y.toList (.start x.toList)

theorem ofScan_append_blank (h : ofScan limit (Scan.ofText x.toList) = .error (.grammar cause p))
    (hcause : ¬ IsDepth cause) : ofScan limit (Scan.ofText (x ++ " " ++ y).toList) = .error (.grammar cause p) := by
  obtain ⟨us, hus⟩ := tokens_append_blank x y
  obtain ⟨last, hc⟩ := (stands_start x limit).endsWith
  have hbeside : (Pairing.goingOn limit us).Beside last ⟨limit, (Scan.ofText x.toList).ending, []⟩
      ⟨limit, (Scan.ofText (x ++ " " ++ y).toList).ending, []⟩ :=
    ⟨hc, fun hcut => absurd trivial hcut, .nil, rfl, .inl rfl⟩
  have hrows : (Pairing.goingOn limit us).Rows (Scan.ofText x.toList).tokens
      (Scan.ofText (x ++ " " ++ y).toList).tokens := ⟨_, hus, List.forall₂_same.2 fun _ _ => rfl⟩
  obtain ⟨p', hrun, t, _, rfl, rfl, rfl⟩ :=
    (Pairing.follows_whole (.inl rfl) hbeside hrows).of_grammar (run'_eq_error_iff.1 h) hcause
  exact run'_eq_error_iff.2 hrun

/-- An error of the grammar that is not about the depth is kept, in its place, if the text goes on after a blank;
    so a text that may be completed in this way is never refused for such an error. -/
theorem parse_error_final (h : parse x limit = .error (.grammar cause p)) (hcause : ¬ IsDepth cause)
    (y : String) : parse (x ++ " " ++ y) limit = .error (.grammar cause p) ∧
      (SyntaxError.grammar cause p).offset (x ++ " " ++ y) = (SyntaxError.grammar cause p).offset x := by
  obtain ⟨us, hus⟩ := tokens_append_blank x y
  obtain ⟨t, ht, rfl⟩ := placedIn_of_parse h
  have hmore : t ∈ (Scan.ofText (x ++ " " ++ y).toList).tokens := hus ▸ List.mem_append_left us ht
  rw [parse_of_tokens (List.ne_nil_of_mem ht)] at h
  rw [parse_of_tokens (List.ne_nil_of_mem hmore)]
  refine ⟨ofScan_append_blank h hcause, ?_⟩
  calc Text.utf8Length ((x ++ " " ++ y).toList.take t.start)
      = bytesBefore (x ++ " " ++ y) t.start := (bytesBefore_eq _ _).symm
    _ = t.offset := (Scan.offset_of_mem hmore).symm
    _ = bytesBefore x t.start := Scan.offset_of_mem ht
    _ = Text.utf8Length (x.toList.take t.start) := bytesBefore_eq _ _

/-- The step of zero is found when the bracket has been closed, at the end of the text. -/
theorem parse_error_final_step : parse "a[::0]" 128 = .error (.grammar .zeroStep 4) ∧
    parse ("a[::0]" ++ " " ++ "[?b") 128 = .error (.grammar .zeroStep 4) ∧
      (SyntaxError.grammar .zeroStep 4).offset ("a[::0]" ++ " " ++ "[?b") =
        (SyntaxError.grammar .zeroStep 4).offset "a[::0]" := by
  have hrun : parse "a[::0]" 128 = .error (.grammar .zeroStep 4) := eq_error_of_failure? (by decide +kernel)
  have hcause : ¬ IsDepth .zeroStep := by
    rintro ⟨limit, hlimit | hlimit⟩ <;> cases hlimit
  exact ⟨hrun, parse_error_final hrun hcause "[?b"⟩

-- without the blank the last mark may become another
example : failure? (parse "a !" 128) = some (.grammar (.notAnOperator (.mark .not)) 2) ∧
    failure? (parse "a !=b" 128) = none := by decide +kernel

-- a wildcard is too deep as the item of a list, but not between its brackets
example : failure? (parse "[*" 1) = some (.grammar (.tooDeep 1) 1) ∧ failure? (parse "[* ]" 1) = none := by
  decide +kernel

end

end JsonQuery.Expr
