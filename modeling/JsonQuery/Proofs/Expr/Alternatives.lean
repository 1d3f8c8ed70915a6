import JsonQuery.Proofs.Expr.Offers
import JsonQuery.Proofs.Expr.Places
import JsonQuery.Proofs.Token.Layout

/-! The alternatives of an error. An error names what would have been accepted in its place: so the text up to there,
    a blank and a sample of it make up an expression, or one that has yet to be completed. For the tokens of such a
    text are those before the place and that of the sample, and the parser does what it has done before. -/

namespace JsonQuery

open Token (nextLexeme Leads)

/-- The text before a token is cut into the lexemes before the token. -/
theorem Cursor.cut_before {cs : List Char} {c : Cursor} {ls : List Lexeme} {t : Token} {us : List Token}
    (hc : c.On cs) (h : Leads c.scan.tokens ls (t :: us)) :
    c.position ≤ t.start ∧ Cut (cs.extract c.position t.start) ls := by
  have hfrom := next_from hc
  cases hn : c.next with
  | finish t' =>
    rw [scan_of_finish hn] at h
    have hlength := h.length_eq
    simp at hlength
  | fault f =>
    rw [scan_of_fault hn] at h
    have hlength := h.length_eq
    simp at hlength
  | token t' after =>
    rw [hn] at hfrom
    rw [scan_of_token hn] at h
    cases hfrom with
    | token hblank hread _ hafter hstop =>
      cases ls with
      | nil =>
        cases Leads.nil_iff.1 h
        exact ⟨hblank.le, hblank.cut_extract⟩
      | cons l ls =>
        obtain ⟨rfl, h⟩ := h
        obtain ⟨hle, hcut⟩ := cut_before hafter h
        rw [hstop] at hle hcut
        refine ⟨Nat.le_trans hblank.le (Nat.le_trans hread.lt.le hle), (hread.cut hle hcut).of_skipSpace ?_⟩
        rw [← extract_append_extract cs hblank.le (Nat.le_trans hread.lt.le hle),
          Cut.skipSpace_append_of_nil hblank.skipSpace_extract]
termination_by c.rest.length
decreasing_by exact c.length_lt_of_next hn

/-- A text up to the place of an error; all of it, if the error is about its end. -/
def SyntaxError.upTo (text : String) : SyntaxError → String
  | .grammar _ p => String.ofList (text.toList.take p)
  | .lexical _ | .incomplete _ _ _ => text

/-- Up to its place an error leaves the tokens before it. -/
theorem SyntaxError.cut_upTo {text : String} {e : SyntaxError} {ls : List Lexeme} {us : List Token}
    (h : e.PlacedIn (Scan.ofText text.toList)) (hl : Leads (Scan.ofText text.toList).tokens ls us)
    (hat : e.AtFirst us) : Cut (e.upTo text).toList ls := by
  cases e with
  | lexical f => exact hat.elim
  | grammar cause p =>
    obtain ⟨t, vs, rfl, rfl⟩ := hat
    have hcut := (Cursor.cut_before (Cursor.on_start text.toList) hl).2
    rw [List.extract_eq_take_drop] at hcut
    rw [upTo, String.toList_ofList]
    exact hcut
  | incomplete cause opener p =>
    obtain ⟨last, -, hlast, -⟩ := h
    have hnil : us = [] := by
      cases us with
      | nil => rfl
      | cons t us => exact absurd hat (Cursor.lexeme_of_mem_tokens (hl.mem_of_mem t List.mem_cons_self))
    subst hnil
    rw [← hl.map_eq]
    exact Cursor.cut_of_scan (c := .start text.toList) hlast

namespace Expr

/-- What comes of a text that goes on with what an error has offered: an expression or one that is not complete; or the
    bracket has been offered after the step of a slice, and the step is 0. -/
def Mended (e : SyntaxError) (w : Expectation) : Except SyntaxError Expr → Prop
  | .ok _ | .error (.incomplete _ _ _) => True
  | .error (.grammar .zeroStep _) => OffersClose e w
  | .error _ => False

variable {text sample : String} {limit : Int} {e : SyntaxError} {w : Expectation} {ls : List Lexeme} {blank : Char}

theorem mended_of_met {r : Except SyntaxError (Expr × List Token)} (h : Met e w r) : Mended e w (r.map Prod.fst) := by
  obtain h | ⟨hclose, p, rfl⟩ := h
  · cases r with
    | ok r => trivial
    | error e' => cases e' <;> trivial
  · exact hclose

theorem parse_of_cut_nil (h : Cut text.toList []) (limit : Int) :
    ∃ p, parse text limit = .error (.incomplete .empty none p) := by
  obtain ⟨tokens, last, hscan, htokens⟩ := Scan.ofText_of_cut h
  obtain rfl := List.map_eq_nil_iff.1 htokens
  have hlast : (Scan.ofText text.toList).ending = .finish last := by rw [hscan]
  have hblank := (Scan.tokens_eq_nil_iff hlast).1 (by rw [hscan])
  have hf : Context.Finishes ⟨limit, .finish last, []⟩ last := ⟨rfl, Cursor.lexeme_of_ending hlast⟩
  refine ⟨last.start, ?_⟩
  simp only [parse_eq, hscan]
  rw [if_pos hblank, run'_eq_error_iff, peek_bind hf]
  show Except.error (if last.lexeme = .finish then _ else _) = _
  rw [if_pos hf.lexeme]
  rfl

/-- A name alone is accepted wherever any expression is. -/
theorem mended_of_name (hcut : Cut text.toList ls) (hmet : Expectation.expression.MetBy ls) (hlimit : 0 < limit) :
    Mended e w (parse text limit) := by
  obtain ⟨l, k, rfl, hkey⟩ := hmet
  have hname : Grammar.Primary [l] (.identifier k) := by
    cases hkey with
    | name => exact .name k
    | quotedName => exact .quotedName k
  have hroom : (([l] : List Lexeme).length : Int) ≤ limit := Int.add_one_le_iff.2 hlimit
  rw [parse_of_cut hcut hroom (Grammar.pipeline_of_postfixed (.primary hname))]
  trivial

/-- A text of the tokens before an error and of what the error offers is mended if its tokens are. -/
theorem mended_of_whole {ks : List Lexeme} (hcut : Cut text.toList (ks ++ ls)) (hls : w.MetBy ls)
    (hmet : ∀ {c : FaultFree} {ts tail : List Token}, Leads ts ks tail → w.MetBy (tail.map Token.lexeme) →
      Met e w (whole limit.toNat c.ctx ts)) : Mended e w (parse text limit) := by
  obtain ⟨tokens, last, hscan, htokens⟩ := Scan.ofText_of_cut hcut
  by_cases hnil : tokens = []
  · subst hnil
    rw [← htokens] at hcut
    obtain ⟨p, hp⟩ := parse_of_cut_nil hcut limit
    rw [hp]
    trivial
  · have hlast : (Scan.ofText text.toList).ending = .finish last := by rw [hscan]
    have hself := Leads.self tokens
    rw [htokens] at hself
    obtain ⟨tail, hks, htail⟩ := Leads.append_iff.1 hself
    rw [parse_of_tokens (by rwa [hscan]), hscan]
    exact mended_of_met (hmet (c := ⟨⟨limit, .finish last, []⟩, last, rfl, Cursor.lexeme_of_ending hlast⟩) hks
      (htail.map_eq ▸ hls))

/-- What an error offers stands after the tokens before its place, and with these it is read. -/
theorem offers_of_parse (h : parse text limit = .error e) (hw : w ∈ e.expectations)
    (hlimit : Text.trim Text.isBlank text.toList = [] → 0 < limit) :
    ∃ ks us, Leads (Scan.ofText text.toList).tokens ks us ∧ e.AtFirst us ∧
      ∀ {text' : String} {ls}, Cut text'.toList (ks ++ ls) → w.MetBy ls → Mended e w (parse text' limit) := by
  obtain ⟨last, hc⟩ := (stands_start text limit).endsWith
  rw [parse_eq] at h
  split at h
  next hblank =>
    have h := of_peek_bind_error hc hw (run'_eq_error_iff.1 h)
    rw [SyntaxError.expectations_of_cause (cause_of_fail h)] at hw
    obtain rfl := List.mem_singleton.1 hw
    exact ⟨[], _, Leads.nil_iff.2 rfl, atFirst_of_fail hc h,
      fun hcut hmet => mended_of_name hcut hmet (hlimit hblank)⟩
  next =>
    obtain ⟨ks, us, hl, hat, hmet⟩ := whole_offers hc (run'_eq_error_iff.1 h) hw
    exact ⟨ks, us, hl, hat, fun hcut hls => mended_of_whole hcut hls hmet⟩

/-- What an error offers is accepted. The text up to the error, a blank and a sample of any kind of token that would
    have been accepted there are read as an expression, or as one that is not complete. The only exception is the
    bracket that closes a slice of which the step is 0. A blank text offers an expression whatever the limit, so there
    the limit has to admit one. -/
theorem parse_accepts_offered (h : parse text limit = .error e) (hw : w ∈ e.expectations)
    (hlimit : Text.trim Text.isBlank text.toList = [] → 0 < limit) (hblank : Json.isSpace blank = true)
    (hsample : (Scan.ofText sample.toList).lexemes? = some ls) (hmet : w.MetBy ls) :
    Mended e w (parse (e.upTo text ++ String.ofList [blank] ++ sample) limit) := by
  obtain ⟨ks, us, hl, hat, hmended⟩ := offers_of_parse h hw hlimit
  refine hmended ?_ hmet
  have hcut := (SyntaxError.cut_upTo (placedIn_of_parse h) hl hat).append_blank hblank (Scan.cut_iff.2 hsample)
  simpa using hcut

/-- A bracket with an index and a name: a colon would have been accepted, and then the slice is not complete. -/
theorem parse_accepts_offered_colon : let e := SyntaxError.grammar (.unclosedSelector true (.name "b")) 4
    parse "a[1 b]" 128 = .error e ∧ Expectation.mark .colon ∈ e.expectations ∧
      Mended e (.mark .colon) (parse (e.upTo "a[1 b]" ++ String.ofList [' '] ++ ":") 128) := by
  have hrun : parse "a[1 b]" 128 = .error (.grammar (.unclosedSelector true (.name "b")) 4) :=
    eq_error_of_failure? (by decide +kernel)
  have hw : Expectation.mark .colon ∈ (SyntaxError.grammar (.unclosedSelector true (.name "b")) 4).expectations := by
    decide
  have hsample : (Scan.ofText ":".toList).lexemes? = some [.mark .colon] := by decide +kernel
  exact ⟨hrun, hw, parse_accepts_offered hrun hw (fun _ => by decide) rfl hsample rfl⟩

/-- Under a limit that admits none, a blank text offers an expression all the same, and each is refused as too deep. -/
theorem parse_refuses_offered : parse "" 0 = .error (.incomplete .empty none 0) ∧
    Expectation.expression ∈ (SyntaxError.incomplete .empty none 0).expectations ∧
    (Scan.ofText "a".toList).lexemes? = some [.name "a"] ∧ Expectation.expression.MetBy [.name "a"] ∧
    ¬ Mended (.incomplete .empty none 0) .expression
      (parse ((SyntaxError.incomplete .empty none 0).upTo "" ++ String.ofList [' '] ++ "a") 0) := by
  have hempty : parse "" 0 = .error (.incomplete .empty none 0) := eq_error_of_failure? (by decide +kernel)
  have hname : parse ((SyntaxError.incomplete .empty none 0).upTo "" ++ String.ofList [' '] ++ "a") 0 =
      .error (.grammar (.tooDeep 0) 1) := eq_error_of_failure? (by decide +kernel)
  refine ⟨hempty, by decide, by decide +kernel, ⟨_, "a", rfl, .name "a"⟩, ?_⟩
  rw [hname]
  exact id

-- the exception: the step of the slice is refused only when the bracket has come
example : failure? (parse "a[::0" 128) =
      some (.incomplete (.unclosedSelector false .finish) (some (.mark .lbracket)) 1) ∧
    failure? (parse "a[::0 ]" 128) = some (.grammar .zeroStep 4) := by decide +kernel

end Expr
end JsonQuery
