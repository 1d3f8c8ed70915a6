import JsonQuery.Proofs.Expr.Pairing
import JsonQuery.Proofs.Number.Digits
import Mathlib.Tactic.ByContra

/-! Telling errors by their reasons. The reason of a depth error ends with the limit and so with a digit, or in a
    parenthesis with a letter that no other parenthesis ends with; every other reason, be it of a broken rule or of
    a lexical fault, ends in another way. A bracket left open changes how a reason starts and not how it ends. -/

namespace JsonQuery

/-- How the reasons of depth errors end. -/
inductive DepthEnd : List Char → Prop
  | limit {c : Char} (h : c.isDigit = true) : DepthEnd [c]
  | exhausted : DepthEnd ['d', ')']

/-- How other reasons end. -/
inductive OtherEnd : List Char → Prop
  | plain {c : Char} (hdigit : ¬ c.isDigit = true) (hparen : c ≠ ')') : OtherEnd [c]
  | closed {c : Char} (h : c ≠ 'd') : OtherEnd [c, ')']

/-- A text with an end of some kind. -/
def EndsIn (kind : List Char → Prop) (s : String) : Prop := ∃ cs ds, s.toList = cs ++ ds ∧ kind ds

namespace EndsIn

variable {kind : List Char → Prop} {s t : String} {c : Char}

theorem append (s : String) (h : EndsIn kind t) : EndsIn kind (s ++ t) := by
  obtain ⟨cs, ds, ht, hds⟩ := h
  exact ⟨s.toList ++ cs, ds, by rw [String.toList_append, ht, List.append_assoc], hds⟩

theorem of_last (h : s.toList.getLast? = some c) (hc : kind [c]) : EndsIn kind s := by
  obtain ⟨cs, hcs⟩ := List.getLast?_eq_some_iff.1 h
  exact ⟨cs, [c], hcs, hc⟩

theorem paren (h : s.toList.getLast? = some c) (hc : kind [c, ')']) : EndsIn kind (s ++ ")") := by
  obtain ⟨cs, hcs⟩ := List.getLast?_eq_some_iff.1 h
  exact ⟨cs, [c, ')'], by rw [String.toList_append, hcs, List.append_assoc]; rfl, hc⟩

end EndsIn

/-- No text ends as a depth error does and otherwise. -/
theorem not_depthEnd_and_otherEnd {s : String} (h : EndsIn DepthEnd s) : ¬ EndsIn OtherEnd s := by
  rintro ⟨cs', ds', hs', hother⟩
  obtain ⟨cs, ds, hs, hdepth⟩ := h
  have hends := congrArg List.reverse (hs.symm.trans hs')
  cases hdepth with
  | limit hdigit =>
    cases hother with
    | plain hother _ =>
      obtain rfl : _ = _ := by simpa using congrArg List.head? hends
      exact hother hdigit
    | closed _ =>
      obtain rfl : _ = _ := by simpa using congrArg List.head? hends
      cases hdigit
  | exhausted =>
    cases hother with
    | plain _ hparen =>
      obtain rfl : _ = _ := by simpa using congrArg List.head? hends
      exact hparen rfl
    | closed hne =>
      simp only [List.reverse_append, List.reverse_cons, List.reverse_nil, List.nil_append, List.cons_append,
        List.cons.injEq] at hends
      exact hne hends.2.1.symm

theorem getLast?_toString (n : Nat) : ∃ c, (toString n).toList.getLast? = some c ∧ c.isDigit = true := by
  have hne := natDigits_ne_nil n
  refine ⟨(natDigits n).getLast hne, ?_, isDigit_of_mem_natDigits (List.getLast_mem hne)⟩
  rw [Nat.toString_eq_ofList_toDigits, String.toList_ofList]
  exact List.getLast?_eq_some_getLast hne

theorem depthEnd_intText (n : Int) : EndsIn DepthEnd (String.ofList (intText n)) := by
  have hne := natDigits_ne_nil n.natAbs
  refine .of_last ?_ (.limit (isDigit_of_mem_natDigits (List.getLast_mem hne)))
  rw [String.toList_ofList, intText, List.getLast?_append, List.getLast?_eq_some_getLast hne, Option.some_or]

theorem otherEnd_quoted (cs : List Char) : EndsIn OtherEnd (String.ofList (Text.quoted cs)) := by
  refine .of_last (c := Text.quoteFor cs) ?_ ?_
  · rw [String.toList_ofList, Text.quoted, ← List.cons_append, List.getLast?_concat]
  · unfold Text.quoteFor
    split <;> exact .plain (by decide) (by decide)

theorem Lexeme.otherEnd_describe (l : Lexeme) : EndsIn OtherEnd l.describe := by
  have hquote (s : String) : EndsIn OtherEnd (s ++ "'") :=
    .append s (.of_last rfl (.plain (by decide) (by decide)))
  cases l with
  | finish => exact .of_last (c := 'n') rfl (.plain (by decide) (by decide))
  | _ => exact hquote _

theorem Overlong.otherEnd_message (o : Overlong) : EndsIn OtherEnd o.message :=
  .append _ (.of_last (c := 't') rfl (.plain (by decide) (by decide)))

theorem JsonFault.otherEnd_message (f : JsonFault) (cs : List Char) : EndsIn OtherEnd (f.message cs) := by
  have hplace (s : String) (n : Nat) : EndsIn OtherEnd (s ++ toString n ++ ")") := by
    obtain ⟨c, hlast, hc⟩ := getLast?_toString n
    refine .paren (c := c) ?_ (.closed ?_)
    · rw [String.toList_append, List.getLast?_append, hlast, Option.some_or]
    · rintro rfl
      cases hc
  obtain ⟨cause, position⟩ := f
  cases cause with
  | constant name => exact .append _ (.of_last (c := 'N') rfl (.plain (by decide) (by decide)))
  | overlong number => exact number.otherEnd_message
  | _ => exact hplace _ _

theorem LexicalCause.otherEnd_reason (cause : LexicalCause) : EndsIn OtherEnd cause.reason := by
  cases cause with
  | unknownCharacter c => exact .append _ (.of_last rfl (.plain (by decide) (by decide)))
  | singleEquals => exact .paren (s := "Unknown token '=' (did you mean '=='?") rfl (.closed (by decide))
  | unterminated q => cases q <;> exact .append _ (.of_last rfl (.plain (by decide) (by decide)))
  | badEscape body => exact .append _ (otherEnd_quoted body.toList)
  | overlong number => exact number.otherEnd_message

theorem GrammarCause.otherEnd_reason {cause : GrammarCause} (h : ¬ Expr.IsDepth cause) :
    EndsIn OtherEnd cause.reason := by
  cases cause with
  | tooDeep limit => exact absurd ⟨limit, .inl rfl⟩ h
  | exhausted limit => exact absurd ⟨limit, .inr rfl⟩ h
  | notAnExpression found =>
    cases found with
    | finish => exact .of_last (c := 'n') rfl (.plain (by decide) (by decide))
    | _ => exact .append _ (Lexeme.otherEnd_describe _)
  | badLiteral text fault => exact .append _ (fault.otherEnd_message text.toList)
  | zeroStep => exact .paren (s := "Slice step cannot be 0 (invalid step 0") rfl (.closed (by decide))
  | trailing found | notAnOperator found | expected _ found | notASelector found | notAField found
  | notASeparator _ found | notAKey found | unclosedSelector _ found => exact .append _ found.otherEnd_describe
  | _ => exact .of_last rfl (.plain (by decide) (by decide))

theorem GrammarCause.depthEnd_reason {cause : GrammarCause} (h : Expr.IsDepth cause) :
    EndsIn DepthEnd cause.reason := by
  obtain ⟨limit, rfl | rfl⟩ := h
  · exact .append _ (depthEnd_intText limit)
  · exact .append _ (.paren (s := " (interpreter stack exhausted") rfl .exhausted)

namespace SyntaxError

/-- The rule that is broken is that of the depth, or the stack gave out. -/
def IsDepth : SyntaxError → Prop
  | lexical _ => False
  | grammar cause _ | incomplete cause _ _ => Expr.IsDepth cause

/-- The reason given is that of the depth, be it after a bracket left open or not, and with a word on the stack or
    not. -/
def SaysTooDeep (e : SyntaxError) : Prop := ∃ limit, ∃ cause ∈ [GrammarCause.tooDeep limit, .exhausted limit],
  e.reason = cause.reason ∨ ∃ opener : String, e.reason = "Unclosed '" ++ opener ++ "': " ++ cause.reason

theorem otherEnd_reason {e : SyntaxError} (h : ¬ e.IsDepth) : EndsIn OtherEnd e.reason := by
  cases e with
  | lexical f => exact f.cause.otherEnd_reason
  | grammar cause p => exact GrammarCause.otherEnd_reason h
  | incomplete cause opener p =>
    have hcause := GrammarCause.otherEnd_reason h
    cases opener with
    | none => exact hcause
    | some opener => exact .append _ hcause

theorem SaysTooDeep.depthEnd {e : SyntaxError} (h : e.SaysTooDeep) : EndsIn DepthEnd e.reason := by
  obtain ⟨limit, cause, hcause, hreason⟩ := h
  have hdepth : Expr.IsDepth cause := ⟨limit, by simpa using hcause⟩
  obtain hreason | ⟨opener, hreason⟩ := hreason <;> rw [hreason]
  · exact GrammarCause.depthEnd_reason hdepth
  · exact .append _ (GrammarCause.depthEnd_reason hdepth)

/-- An error is about the depth just if it says so. -/
theorem saysTooDeep_iff {e : SyntaxError} : e.SaysTooDeep ↔ e.IsDepth := by
  constructor
  · intro h
    by_contra hother
    exact not_depthEnd_and_otherEnd h.depthEnd (otherEnd_reason hother)
  · intro h
    cases e with
    | lexical f => exact h.elim
    | grammar cause p =>
      obtain ⟨limit, hcause⟩ := h
      exact ⟨limit, cause, by simpa using hcause, .inl rfl⟩
    | incomplete cause opener p =>
      obtain ⟨limit, hcause⟩ := h
      refine ⟨limit, cause, by simpa using hcause, ?_⟩
      cases opener with
      | none => exact .inl rfl
      | some opener => exact .inr ⟨opener.text, rfl⟩

end SyntaxError
end JsonQuery
