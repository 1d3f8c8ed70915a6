import JsonQuery.Proofs.Expr.Places
import JsonQuery.Proofs.Expr.Runs
import JsonQuery.Proofs.Token.Layout

/-! Layout does not matter. Blanks at the boundaries of tokens leave the lexemes of a text as they are, and texts
    with the same lexemes are read alike: as the same tree, or with the same error at the tokens of the same
    index. -/

namespace JsonQuery

/-- The same error at another position. -/
def SyntaxError.movedTo (position : Nat) : SyntaxError → SyntaxError
  | .lexical f => .lexical { f with position := position }
  | .grammar cause _ => .grammar cause position
  | .incomplete cause opener _ => .incomplete cause opener position

namespace SyntaxError

@[simp] theorem reason_movedTo (position : Nat) (e : SyntaxError) : (e.movedTo position).reason = e.reason := by
  cases e with
  | lexical f => rfl
  | grammar cause p => rfl
  | incomplete cause opener p => cases opener <;> rfl

@[simp] theorem expectations_movedTo (position : Nat) (e : SyntaxError) :
    (e.movedTo position).expectations = e.expectations := by cases e <;> rfl

/-- Errors of the same kind, with the same reason and expectations, at the tokens of the same index in two
    rows. -/
structure SameInRows (row row' : List Token) (e e' : SyntaxError) : Prop where
  eq_movedTo : e' = e.movedTo e'.position
  reason : e'.reason = e.reason
  expectations : e'.expectations = e.expectations
  index : ∃ (i : Nat) (t t' : Token), row[i]? = some t ∧ row'[i]? = some t' ∧
    e.position = t.start ∧ e'.position = t'.start

end SyntaxError

/-- What does not depend on the position need not be looked at twice. -/
theorem SyntaxError.SameInRows.of_movedTo {row row' : List Token} {e e' : SyntaxError}
    (h : e' = e.movedTo e'.position) (hindex : ∃ (i : Nat) (t t' : Token), row[i]? = some t ∧
      row'[i]? = some t' ∧ e.position = t.start ∧ e'.position = t'.start) : SameInRows row row' e e' where
  eq_movedTo := h
  reason := by rw [h, reason_movedTo]
  expectations := by rw [h, expectations_movedTo]
  index := hindex

namespace Expr

/-- Outcomes of two texts that are read alike. -/
def ReadAlike (text text' : String) (r r' : Except SyntaxError Expr) : Prop :=
  match r, r' with
  | .ok e, .ok e' => e = e'
  | .error err, .error err' =>
    SyntaxError.SameInRows (Scan.ofText text.toList).row (Scan.ofText text'.toList).row err err'
  | _, _ => False

/-! ### Rows with the same lexemes -/

/-- The rows of two scans with the same lexemes. -/
def Pairing.ofRows (limit : Int) (s s' : Scan) (h : s.row.map Token.lexeme = s'.row.map Token.lexeme) :
    Pairing where
  Same t t' := ∃ i : Nat, s.row[i]? = some t ∧ s'.row[i]? = some t'
  more := []
  cut := False
  deeper := False
  limit := limit
  halts _ := False
  lexeme_eq := by
    rintro t t' ⟨i, ht, ht'⟩
    have hi := congrArg (·[i]?) h
    simpa [ht, ht'] using hi
  more_eq_nil := nothing_more

theorem Pairing.Follows.toMatch {α : Type} {P : Pairing} {r r' : Except SyntaxError (α × List Token)}
    (h : P.Follows True r r') (hcut : ¬ P.cut) (hdeeper : ¬ P.deeper) (hhalts : ∀ p, ¬ P.halts p) :
    P.Match r r' := by
  refine h.resolve_left fun hsilent => ?_
  cases r with
  | ok r => exact hcut hsilent.1
  | error e =>
    cases e with
    | lexical f => exact hcut hsilent
    | grammar cause p => exact hsilent.elim (fun h => h.2.elim hcut hdeeper) fun h => hhalts p h.2
    | incomplete cause opener p => exact hsilent.elim hcut fun h => hdeeper h.2

section
variable {text text' : String} {limit : Int} {ls : List Lexeme} {last last' : Token} {s s' : Scan}

theorem rows_ofRows (h : s.row.map Token.lexeme = s'.row.map Token.lexeme) (hlast : s.ending = .finish last)
    (hlast' : s'.ending = .finish last') : (Pairing.ofRows limit s s' h).Rows s.tokens s'.tokens ∧
      (Pairing.ofRows limit s s' h).Same last last' := by
  have hrow := Scan.row_of_finish hlast
  have hrow' := Scan.row_of_finish hlast'
  have hlength : s.tokens.length = s'.tokens.length := by
    have := congrArg List.length h
    simpa [hrow, hrow'] using this
  refine ⟨⟨s'.tokens, (List.append_nil _).symm, List.forall₂_iff_get.2 ⟨hlength, fun i hi hi' => ⟨i, ?_, ?_⟩⟩⟩,
    s.tokens.length, ?_, ?_⟩
  · rw [hrow, List.getElem?_append_left hi]
    exact List.getElem?_eq_getElem hi
  · rw [hrow', List.getElem?_append_left hi']
    exact List.getElem?_eq_getElem hi'
  · simp [hrow]
  · simp [hrow', hlength]

theorem beside_ofRows (limit : Int) (h : s.row.map Token.lexeme = s'.row.map Token.lexeme)
    (hlast : s.ending = .finish last)
    (hlast' : s'.ending = .finish last') (hfin : last.lexeme = .finish) :
    (Pairing.ofRows limit s s' h).Beside last ⟨limit, s.ending, []⟩ ⟨limit, s'.ending, []⟩ where
  endsWith := ⟨fun t ht => Ending.finish.inj (ht.symm.trans hlast), hfin⟩
  ending _ := by
    show (Pairing.ofRows limit s s' h).Ends s.ending s'.ending
    rw [hlast, hlast']
    exact (rows_ofRows h hlast hlast').2
  unclosed := .nil
  limit := rfl
  limit' := .inl rfl

theorem sameInRows_of_alike {h : s.row.map Token.lexeme = s'.row.map Token.lexeme} {e e' : SyntaxError}
    (hlexical : ∀ f, e ≠ .lexical f) (halike : (Pairing.ofRows limit s s' h).Alike e e') :
    SyntaxError.SameInRows s.row s'.row e e' := by
  cases e with
  | lexical f => exact absurd rfl (hlexical f)
  | grammar cause p =>
    cases e' with
    | grammar cause' p' =>
      obtain ⟨rfl, t, t', ⟨i, ht, ht'⟩, rfl, rfl⟩ := halike
      exact .of_movedTo rfl ⟨i, t, t', ht, ht', rfl, rfl⟩
    | _ => exact halike.elim
  | incomplete cause opener p =>
    cases e' with
    | incomplete cause' opener' p' =>
      obtain ⟨rfl, rfl, t, t', ⟨i, ht, ht'⟩, rfl, rfl⟩ := halike
      exact .of_movedTo rfl ⟨i, t, t', ht, ht', rfl, rfl⟩
    | _ => exact halike.elim

/-- Runs that match, one for each of two texts without faults, give outcomes that are alike. -/
theorem readAlike_of_match {p p' : Parser Expr}
    {h : (Scan.ofText text.toList).row.map Token.lexeme = (Scan.ofText text'.toList).row.map Token.lexeme}
    (hlast : (Scan.ofText text.toList).ending = .finish last)
    (hp : parse text limit = p.run' (Scan.ofText text.toList).tokens)
    (hp' : parse text' limit = p'.run' (Scan.ofText text'.toList).tokens)
    (hmatch : (Pairing.ofRows limit _ _ h).Match (p (Scan.ofText text.toList).tokens)
      (p' (Scan.ofText text'.toList).tokens)) :
    ReadAlike text text' (parse text limit) (parse text' limit) := by
  cases hrun : p (Scan.ofText text.toList).tokens with
  | ok r =>
    cases hrun' : p' (Scan.ofText text'.toList).tokens with
    | ok r' =>
      rw [hp, hp', run'_eq_ok_iff.2 ⟨r.2, hrun⟩, run'_eq_ok_iff.2 ⟨r'.2, hrun'⟩]
      rw [hrun, hrun'] at hmatch
      exact hmatch.1
    | error e' =>
      rw [hrun, hrun'] at hmatch
      exact hmatch.elim
  | error e =>
    cases hrun' : p' (Scan.ofText text'.toList).tokens with
    | ok r' =>
      rw [hrun, hrun'] at hmatch
      exact hmatch.elim
    | error e' =>
      have hparse := hp.trans (run'_eq_error_iff.2 hrun)
      rw [hparse, hp', run'_eq_error_iff.2 hrun']
      rw [hrun, hrun'] at hmatch
      refine sameInRows_of_alike ?_ hmatch
      rintro f rfl
      have hfault : (Scan.ofText text.toList).ending = .fault f := placedIn_of_parse hparse
      rw [hlast] at hfault
      cases hfault

theorem of_lexemes? (h : s.lexemes? = some ls) :
    ∃ last, s.ending = .finish last ∧ s.tokens.map Token.lexeme = ls := by
  unfold Scan.lexemes? at h
  split at h
  next last hlast =>
    cases h
    exact ⟨last, hlast, rfl⟩
  next => cases h

/-- Texts with the same lexemes are read alike. -/
theorem readAlike_of_lexemes (h : (Scan.ofText text.toList).lexemes? = some ls)
    (h' : (Scan.ofText text'.toList).lexemes? = some ls) (limit : Int) :
    ReadAlike text text' (parse text limit) (parse text' limit) := by
  obtain ⟨last, hlast, hls⟩ := of_lexemes? h
  obtain ⟨last', hlast', hls'⟩ := of_lexemes? h'
  have hfin := Cursor.lexeme_of_ending hlast
  have hrow : (Scan.ofText text.toList).row.map Token.lexeme = (Scan.ofText text'.toList).row.map Token.lexeme := by
    simp [Scan.row_of_finish hlast, Scan.row_of_finish hlast', hls, hls', hfin, Cursor.lexeme_of_ending hlast']
  obtain ⟨hrows, -⟩ := rows_ofRows hrow hlast hlast'
  have hbeside := beside_ofRows limit hrow hlast hlast' hfin
  have hnil : (Scan.ofText text.toList).tokens = [] ↔ (Scan.ofText text'.toList).tokens = [] := by
    rw [← List.map_eq_nil_iff, hls, ← hls', List.map_eq_nil_iff]
  by_cases hempty : (Scan.ofText text.toList).tokens = []
  · have htrim := (Scan.tokens_eq_nil_iff hlast).1 hempty
    have htrim' := (Scan.tokens_eq_nil_iff hlast').1 (hnil.1 hempty)
    refine readAlike_of_match (h := hrow) hlast (parse_of_blank htrim) (parse_of_blank htrim') ?_
    refine (Pairing.follows_peek hbeside hrows False.elim fun t t' hsame _ _ => ?_).toMatch id id fun _ => id
    exact Pairing.follows_fail hbeside hsame
  · refine readAlike_of_match (h := hrow) hlast (parse_of_tokens hempty)
      (parse_of_tokens fun hempty' => hempty (hnil.2 hempty')) ?_
    exact (Pairing.follows_whole (.inl rfl) hbeside hrows).toMatch id id fun _ => id

/-- Layout does not matter to a text without faults. Blanks put in at the boundary of a token, and blanks in
    place of what is between tokens, leave its lexemes as they are; and every text with these lexemes is read as
    it is. -/
theorem layout_irrelevant (h : (Scan.ofText text.toList).lexemes? = some ls) :
    (∀ p blanks, IsBoundary text p → (∀ c ∈ blanks, Json.isSpace c = true) →
      (Scan.ofText (relaid text p p blanks).toList).lexemes? = some ls) ∧
    (∀ p q blanks, p < q → Gap text p q → blanks ≠ [] → (∀ c ∈ blanks, Json.isSpace c = true) →
      (Scan.ofText (relaid text p q blanks).toList).lexemes? = some ls) ∧
    ∀ text' limit, (Scan.ofText text'.toList).lexemes? = some ls →
      ReadAlike text text' (parse text limit) (parse text' limit) := by
  refine ⟨fun p blanks hp hblank => ?_, fun p q blanks _ hgap hne hblank => ?_, fun text' limit h' => ?_⟩
  · obtain ⟨last, hlast, -⟩ := of_lexemes? h
    exact lexemes?_relaid h (gap_of_boundary hp hlast) hblank fun hlt => absurd hlt (Nat.lt_irrefl p)
  · exact lexemes?_relaid h hgap hblank fun _ => hne
  · exact readAlike_of_lexemes h h' limit

/-- Blanks before a bracket and after it, and the error that is left with other blanks between the tokens. -/
theorem layout_irrelevant_index :
    (Scan.ofText "a [0".toList).lexemes? = some [.name "a", .mark .lbracket, .number 0] ∧
    (Scan.ofText (relaid "a [0" 3 3 ['\t']).toList).lexemes? = some [.name "a", .mark .lbracket, .number 0] ∧
    (Scan.ofText (relaid "a [0" 1 2 ['\n', ' ']).toList).lexemes? = some [.name "a", .mark .lbracket, .number 0] ∧
    ReadAlike "a [0" " a[ 0\r" (parse "a [0" 128) (parse " a[ 0\r" 128) := by
  have hls : (Scan.ofText "a [0".toList).lexemes? = some [.name "a", .mark .lbracket, .number 0] := by
    decide +kernel
  obtain ⟨hinsert, hreplace, hread⟩ := layout_irrelevant hls
  have hboundary : IsBoundary "a [0" 3 :=
    ⟨⟨.mark .lbracket, 2, 3, 2⟩, by decide +kernel, .inr rfl⟩
  have hgap : Gap "a [0" 1 2 := ⟨by decide, by decide, by decide +kernel⟩
  refine ⟨hls, hinsert 3 _ hboundary ?_, hreplace 1 2 _ (by decide) hgap (by simp) ?_, hread _ _ ?_⟩
  · simp [Json.isSpace]
  · simp [Json.isSpace]
  · decide +kernel

end

end Expr
end JsonQuery
