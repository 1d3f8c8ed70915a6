import JsonQuery.Proofs.Expr.Soundness
import JsonQuery.Proofs.Token.Brackets

/-! Balanced rows. A row of lexemes is balanced if every bracket that opens in it is closed in it by its own mark, and
    if it closes no other: whatever brackets are open before its tokens are open after them. Every row that the grammar
    derives is balanced, and so is what the parser takes for an expression, whatever the operator before it. -/

namespace JsonQuery

open Token (Leads)
open Grammar

/-- Whether a lexeme opens or closes a bracket. -/
def Lexeme.isBracket (l : Lexeme) : Bool := l.closer?.isSome || l.closes

/-- A row of lexemes whose tokens leave the brackets as they are, whichever are open. -/
def Balanced (ls : List Lexeme) : Prop :=
  ∀ ts outer : List Token, ts.map Token.lexeme = ls → ts.foldlM Token.matched? outer = some outer

namespace Balanced

variable {ls ms : List Lexeme} {l : Lexeme} {closer : Mark}

theorem nil : Balanced [] := fun _ _ h => by
  rw [List.map_eq_nil_iff.1 h]
  rfl

theorem append (h : Balanced ls) (h' : Balanced ms) : Balanced (ls ++ ms) := by
  intro ts outer hts
  obtain ⟨us, vs, rfl, hus, hvs⟩ := List.map_eq_append_iff.1 hts
  rw [List.foldlM_append, h us outer hus]
  exact h' vs outer hvs

theorem skip (hl : l.isBracket = false) (h : Balanced ls) : Balanced (l :: ls) := by
  intro ts outer hts
  obtain ⟨t, us, rfl, rfl, hus⟩ := List.map_eq_cons_iff.1 hts
  obtain ⟨hopens, hcloses⟩ := Bool.or_eq_false_iff.1 hl
  have hnone := Option.isNone_iff_eq_none.1 (Option.isSome_eq_false_iff.1 hopens)
  rw [List.foldlM_cons, matched?_plain hnone hcloses]
  exact h us outer hus

theorem single (hl : l.isBracket = false) : Balanced [l] := .skip hl .nil

/-- Two rows with a lexeme between them that is no bracket. -/
theorem joined (hl : l.isBracket = false) (h : Balanced ls) (h' : Balanced ms) : Balanced (ls ++ l :: ms) :=
  h.append (h'.skip hl)

/-- A row between a bracket and the mark that closes it. -/
theorem enclosed (hl : l.closer? = some closer) (h : Balanced ls) : Balanced (l :: (ls ++ [.mark closer])) := by
  intro ts outer hts
  obtain ⟨t, us, rfl, rfl, hus⟩ := List.map_eq_cons_iff.1 hts
  obtain ⟨vs, ws, rfl, hvs, hws⟩ := List.map_eq_append_iff.1 hus
  obtain ⟨t', rfl, ht'⟩ := List.map_eq_singleton_iff.1 hws
  -- the bracket comes on top, the row in between leaves it there, and its mark takes it away
  rw [List.foldlM_cons, matched?_opener hl, Option.bind_eq_bind, Option.bind_some, List.foldlM_append, h vs _ hvs,
    Option.bind_eq_bind, Option.bind_some, List.foldlM_cons, matched?_closer hl ht']
  rfl

/-- The tokens of a balanced row leave no bracket open. -/
theorem unclosed?_eq {ts : List Token} (h : Balanced (ts.map Token.lexeme)) : unclosed? ts = some [] := h ts [] rfl

end Balanced

/-! ### The grammar -/

theorem balanced_integer {ls : List Lexeme} {i : Int} (h : Integer ls i) : Balanced ls := by
  cases h with
  | plain n => exact .single rfl
  | minus n => exact .skip rfl (.single rfl)

theorem balanced_bound {ls : List Lexeme} {b : Option Int} (h : Bound ls b) : Balanced ls := by
  cases h with
  | absent => exact .nil
  | present h => exact balanced_integer h

theorem balanced_selector {b : Option Expr} {ls : List Lexeme} {e : Expr} (h : Selector b ls e) : Balanced ls := by
  cases h with
  | index h => exact balanced_integer h
  | slice hstart hstop => exact (balanced_bound hstart).joined rfl (balanced_bound hstop)
  | stepped hstart hstop hstep _ =>
    exact (balanced_bound hstart).joined rfl ((balanced_bound hstop).joined rfl (balanced_bound hstep))

theorem balanced_star : Balanced [.mark .star] := .single rfl

theorem isBracket_key {l : Lexeme} {k : String} (h : Key l k) : l.isBracket = false := by
  cases h <;> rfl

mutual

/-- What the grammar derives is balanced. -/
theorem balanced_pipeline : ∀ {ls : List Lexeme} {e : Expr}, Pipeline ls e → Balanced ls
  | _, _, .disjunction h => balanced_disjunction h
  | _, _, .pipe hl hr => (balanced_pipeline hl).joined rfl (balanced_disjunction hr)

theorem balanced_disjunction : ∀ {ls : List Lexeme} {e : Expr}, Disjunction ls e → Balanced ls
  | _, _, .conjunction h => balanced_conjunction h
  | _, _, .or hl hr => (balanced_disjunction hl).joined rfl (balanced_conjunction hr)

theorem balanced_conjunction : ∀ {ls : List Lexeme} {e : Expr}, Conjunction ls e → Balanced ls
  | _, _, .comparison h => balanced_comparison h
  | _, _, .and hl hr => (balanced_conjunction hl).joined rfl (balanced_comparison hr)

theorem balanced_comparison : ∀ {ls : List Lexeme} {e : Expr}, Comparison ls e → Balanced ls
  | _, _, .not h => (balanced_comparison h).skip rfl
  | _, _, .operands h => balanced_operands h
  | _, _, .operandsNot _ hl hr => (balanced_operands hl).joined rfl ((balanced_comparison hr).skip rfl)

theorem balanced_operands : ∀ {ls : List Lexeme} {e : Expr}, Operands ls e → Balanced ls
  | _, _, .postfixed h => balanced_postfixed h
  | _, _, .comparison _ hl hr => (balanced_operands hl).joined rfl (balanced_postfixed hr)

theorem balanced_postfixed : ∀ {ls : List Lexeme} {e : Expr}, Postfixed ls e → Balanced ls
  | _, _, .primary h => balanced_primary h
  | _, _, .suffixed hb hs => (balanced_postfixed hb).append (balanced_suffix hs)

theorem balanced_suffix : ∀ {b : Expr} {ls : List Lexeme} {e : Expr}, Suffix b ls e → Balanced ls
  | _, _, _, .field h => (balanced_field h).skip rfl
  | _, _, _, .values => balanced_star.skip rfl
  | _, _, _, .bracketed h => balanced_bracketed h

theorem balanced_bracketed : ∀ {b : Option Expr} {ls : List Lexeme} {e : Expr}, Bracketed b ls e → Balanced ls
  | _, _, _, .selector h => (balanced_selector h).enclosed rfl
  | _, _, _, .items => balanced_star.enclosed rfl
  | _, _, _, .flatten => .single rfl
  | _, _, _, .filter h => (balanced_pipeline h).enclosed rfl

theorem balanced_field : ∀ {ls : List Lexeme} {e : Expr}, Field ls e → Balanced ls
  | _, _, .name _ => .single rfl
  | _, _, .quotedName _ => .single rfl
  | _, _, .call h => balanced_call h
  | _, _, .list h => (balanced_row h).enclosed rfl
  | _, _, .hash h => balanced_hash h

theorem balanced_primary : ∀ {ls : List Lexeme} {e : Expr}, Primary ls e → Balanced ls
  | _, _, .literal _ => .single rfl
  | _, _, .rawString _ => .single rfl
  | _, _, .name _ => .single rfl
  | _, _, .quotedName _ => .single rfl
  | _, _, .current => .single rfl
  | _, _, .values => .single rfl
  | _, _, .call h => balanced_call h
  | _, _, .parentheses h => (balanced_pipeline h).enclosed rfl
  | _, _, .bracketed h => balanced_bracketed h
  | _, _, .list h _ => (balanced_row h).enclosed rfl
  | _, _, .hash h => balanced_hash h

theorem balanced_row : ∀ {ls : List Lexeme} {es : List Expr}, Row Pipeline ls es → Balanced ls
  | _, _, .one h => balanced_pipeline h
  | _, _, .more h hr => (balanced_pipeline h).joined rfl (balanced_row hr)

theorem balanced_hash : ∀ {ls : List Lexeme} {e : Expr}, Hash ls e → Balanced ls
  | _, _, .pairs h => (balanced_pairs h).enclosed rfl

theorem balanced_pair : ∀ {ls : List Lexeme} {p : String × Expr}, Pair ls p → Balanced ls
  | _, _, .pair hk h => .skip (isBracket_key hk) (.skip rfl (balanced_pipeline h))

theorem balanced_pairs : ∀ {ls : List Lexeme} {ps : List (String × Expr)}, Row Pair ls ps → Balanced ls
  | _, _, .one h => balanced_pair h
  | _, _, .more h hr => (balanced_pair h).joined rfl (balanced_pairs hr)

theorem balanced_call : ∀ {ls : List Lexeme} {e : Expr}, Call ls e → Balanced ls
  | _, _, .none _ => .skip rfl (Balanced.nil.enclosed rfl)
  | _, _, .some h => .skip rfl ((balanced_arguments h).enclosed rfl)

theorem balanced_argument : ∀ {ls : List Lexeme} {e : Expr}, Grammar.Argument ls e → Balanced ls
  | _, _, .value h => balanced_pipeline h
  | _, _, .reference h => (balanced_pipeline h).skip rfl

theorem balanced_arguments : ∀ {ls : List Lexeme} {args : List Expr}, Row Grammar.Argument ls args → Balanced ls
  | _, _, .one h => balanced_argument h
  | _, _, .more h hr => (balanced_argument h).joined rfl (balanced_arguments hr)

end

/-! ### Runs of the parser -/

/-- What is read to the right of an operator is an expression by itself. -/
theorem Grammar.pipeline_of_rightOf {power next : Nat} {ls : List Lexeme} {e : Expr} (h : RightOf power next ls e) :
    Pipeline ls e := by
  have hcomparison : Comparison ls e → Pipeline ls e := fun h => .disjunction (.conjunction (.comparison h))
  obtain rfl | rfl | rfl | rfl | rfl | hp :
      power = 0 ∨ power = 1 ∨ power = 2 ∨ power = 3 ∨ power = 4 ∨ 4 < power := by omega
  · exact h
  · exact .disjunction h
  · exact .disjunction (.conjunction h)
  · exact hcomparison h
  · exact hcomparison h
  · rcases (rightOf_of_four_lt hp).1 h with h | ⟨h, -⟩
    · exact pipeline_of_postfixed h
    · exact hcomparison h.comparison

/-- Tokens that start with some lexemes fall into those and the rest. -/
theorem Token.Leads.exists_append : ∀ {ts us : List Token} {ls : List Lexeme}, Leads ts ls us →
    ∃ run, ts = run ++ us ∧ run.map Token.lexeme = ls
  | _, _, [], h => ⟨[], nil_iff.1 h, rfl⟩
  | t :: _, _, _ :: _, h => by
    obtain ⟨run, rfl, rfl⟩ := exists_append h.2
    exact ⟨t :: run, rfl, by rw [List.map_cons, h.1]⟩

/-- The tokens that are taken for an expression come one after the other and are balanced. -/
theorem Expr.run_of_expression {ctx : Context} {last : Token} {ts us : List Token} {room power : Nat} {e : Expr}
    (hc : ctx.EndsWith last) (h : expression room ctx power ts = .ok (e, us)) :
    ∃ run, ts = run ++ us ∧ Balanced (run.map Token.lexeme) := by
  obtain ⟨-, ls, hread, hleads⟩ := expression_sound last room hc h
  obtain ⟨run, hrun, rfl⟩ := hleads.exists_append
  exact ⟨run, hrun, balanced_pipeline (pipeline_of_rightOf hread.right)⟩

end JsonQuery
