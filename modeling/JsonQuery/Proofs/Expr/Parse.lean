import JsonQuery.Proofs.Expr.Completeness
import JsonQuery.Proofs.Expr.Soundness
import JsonQuery.Proofs.Token.Scan
import Mathlib.Data.List.TakeWhile

/-! The parser and the grammar agree. A text that is accepted has tokens without a fault, and they form a
    pipeline with the tree that was read; and with a limit of at least the number of tokens every text is
    accepted whose tokens form one. -/

namespace JsonQuery

open Token (nextLexeme Leads)
open Grammar

theorem Text.mem_of_trim_eq_nil {kind : Char → Bool} {cs : List Char} (h : trim kind cs = []) :
    ∀ c ∈ cs, kind c = true := by
  have hall : ∀ c ∈ (cs.dropWhile kind).reverse, kind c = true :=
    List.dropWhile_eq_nil_iff.1 (List.reverse_eq_nil_iff.1 h)
  refine List.dropWhile_eq_nil_iff.1 ?_
  by_contra hne
  have hhead := List.head_dropWhile_not kind hne
  rw [hall _ (List.mem_reverse.2 (List.head_mem hne))] at hhead
  cases hhead

theorem Text.trim_eq_nil {kind : Char → Bool} {cs : List Char} (h : ∀ c ∈ cs, kind c = true) :
    trim kind cs = [] := by
  rw [trim, List.dropWhile_eq_nil_iff.2 h]
  rfl

theorem Text.isBlank_of_isSpace {c : Char} (h : Json.isSpace c = true) : isBlank c = true := by
  rcases Json.eq_of_isSpace h with rfl | rfl | rfl | rfl <;> rfl

/-- A text without faults is blank just if it has no tokens. -/
theorem Scan.tokens_eq_nil_iff {cs : List Char} {last : Token} (hlast : (ofText cs).ending = .finish last) :
    (ofText cs).tokens = [] ↔ Text.trim Text.isBlank cs = [] := by
  constructor
  · intro h
    have hcut : Cut cs ((ofText cs).tokens.map Token.lexeme) := Cursor.cut_of_scan hlast
    rw [h] at hcut
    cases hcut with
    | nil hnil =>
      exact Text.trim_eq_nil fun c hc => Text.isBlank_of_isSpace (List.dropWhile_eq_nil_iff.1 hnil c hc)
  · exact fun h => tokens_of_blank (Text.mem_of_trim_eq_nil h)

namespace Expr

variable {text : String} {limit : Int} {e : Expr} {tokens : List Token} {last : Token}

/-- What is read to the end is all that there is. -/
theorem whole_sound {room : Nat} {ctx : Context} {us : List Token} (hc : ctx.EndsWith last)
    (hts : ∀ t ∈ tokens, t.lexeme ≠ .finish) (h : whole room ctx tokens = .ok (e, us)) :
    Pipeline (tokens.map Token.lexeme) e ∧ ∃ t, ctx.ending = .finish t := by
  rw [whole_eq] at h
  obtain ⟨e', vs, he, h⟩ := bind_eq_ok.1 h
  obtain ⟨ls, hls, hv⟩ := (expression_sound last room).pipeline hc he
  obtain ⟨t, ws, hpeek, -⟩ := bind_eq_ok.1 h
  have h := of_peek_bind hc h
  rw [ite_run, lexeme_front hc] at h
  split at h
  next hfin =>
    cases h
    cases us with
    | cons t us => exact absurd hfin (hts t (hv.mem_of_mem t List.mem_cons_self))
    | nil =>
      rw [hv.map_eq]
      refine ⟨hls, ?_⟩
      cases hending : ctx.ending with
      | finish t => exact ⟨t, rfl⟩
      | fault f => simp [peek, Context.first, Context.last, hending, Except.map] at hpeek
  next => exact absurd h not_fail_eq_ok

theorem whole_of_expression {room : Nat} {ctx : Context} (hf : ctx.Finishes last)
    (h : expression room ctx 0 tokens = .ok (e, [])) : whole room ctx tokens = .ok (e, []) := by
  rw [whole_eq, bind_run_of_ok h, peek_bind hf, ite_run, front, if_pos hf.lexeme]
  rfl

theorem pipeline_ne_nil {ls : List Lexeme} (h : Pipeline ls e) : ls ≠ [] := by
  rintro rfl
  have hf : Context.Finishes ⟨0, .finish ⟨.finish, 0, 0, 0⟩, []⟩ ⟨.finish, 0, 0, 0⟩ := ⟨rfl, rfl⟩
  have hrun : expression 0 _ 0 [] = .ok (e, []) := (pipeline_reads h).takes hf (Nat.le_refl 0)
    (Nat.le_refl 0) rfl
  rw [expression_zero] at hrun
  exact not_fail_eq_ok (of_peek_bind hf.endsWith hrun)

/-! ### Texts -/

theorem run'_eq_ok_iff {α : Type} {p : Parser α} {x : α} :
    p.run' tokens = .ok x ↔ ∃ us, p tokens = .ok (x, us) := by
  show (fun r : α × List Token => r.1) <$> p tokens = .ok x ↔ _
  cases p tokens with
  | error err => simp [Functor.map, Except.map]
  | ok r => exact ⟨fun h => by cases h; exact ⟨r.2, rfl⟩, fun ⟨us, h⟩ => by cases h; rfl⟩

theorem run'_eq_error_iff {α : Type} {p : Parser α} {err : SyntaxError} :
    p.run' tokens = .error err ↔ p tokens = .error err := by
  show (fun r : α × List Token => r.1) <$> p tokens = .error err ↔ _
  cases p tokens with
  | error err => simp [Functor.map, Except.map]
  | ok r => simp [Functor.map, Except.map]

/-- A text that is accepted is read to the end of its tokens. -/
theorem of_parse (h : parse text limit = .ok e) :
    ∃ ctx last us, ctx.EndsWith last ∧ ctx.ending = (Scan.ofText text.toList).ending ∧
      whole limit.toNat ctx (Scan.ofText text.toList).tokens = .ok (e, us) := by
  rw [parse_eq] at h
  split at h
  next =>
    obtain ⟨us, h⟩ := run'_eq_ok_iff.1 h
    obtain ⟨t, vs, -, h⟩ := bind_eq_ok.1 h
    exact absurd h not_fail_eq_ok
  next =>
    obtain ⟨us, h⟩ := run'_eq_ok_iff.1 h
    cases hending : (Scan.ofText text.toList).ending with
    | finish last =>
      have hc : Context.EndsWith ⟨limit, (Scan.ofText text.toList).ending, []⟩ last := by
        refine ⟨fun t ht => ?_, Cursor.lexeme_of_ending hending⟩
        exact Ending.finish.inj (ht.symm.trans hending)
      exact ⟨_, last, us, hc, hending, h⟩
    | fault f =>
      have hc : Context.EndsWith ⟨limit, (Scan.ofText text.toList).ending, []⟩ ⟨.finish, 0, 0, 0⟩ := by
        refine ⟨fun t ht => ?_, rfl⟩
        have hne := ht.symm.trans hending
        cases hne
      exact ⟨_, _, us, hc, hending, h⟩

/-- Whatever the limit, the tokens of a text that is accepted form a pipeline with the tree that was read. -/
theorem parse_sound (h : parse text limit = .ok e) :
    Pipeline ((Scan.ofText text.toList).tokens.map Token.lexeme) e ∧
      ∃ last, (Scan.ofText text.toList).ending = .finish last := by
  obtain ⟨ctx, last, us, hc, hending, h⟩ := of_parse h
  rw [← hending]
  exact whole_sound hc (fun t => Cursor.lexeme_of_mem_tokens) h

/-- A text that has tokens is not refused as empty. -/
theorem parse_of_tokens (h : (Scan.ofText text.toList).tokens ≠ []) :
    parse text limit = ofScan limit (Scan.ofText text.toList) := by
  rw [parse_eq, if_neg fun htrim => h (Scan.tokens_of_blank (Text.mem_of_trim_eq_nil htrim))]

theorem parse_of_blank (h : Text.trim Text.isBlank text.toList = []) : parse text limit =
    (peek ⟨limit, (Scan.ofText text.toList).ending, []⟩ >>=
      fail ⟨limit, (Scan.ofText text.toList).ending, []⟩ .empty : Parser Expr).run'
        (Scan.ofText text.toList).tokens := by
  rw [parse_eq, if_pos h]

/-- A text of some tokens is read as what the whole of them is read as. -/
theorem parse_of_expression (hscan : Scan.ofText text.toList = ⟨tokens, .finish last⟩) (hne : tokens ≠ [])
    (h : ∀ {ctx : Context}, ctx.Finishes last → expression limit.toNat ctx 0 tokens = .ok (e, [])) :
    parse text limit = .ok e := by
  have hf : Context.Finishes ⟨limit, .finish last, []⟩ last :=
    ⟨rfl, Cursor.lexeme_of_ending (show (Scan.ofText text.toList).ending = _ by rw [hscan])⟩
  rw [parse_of_tokens (by rwa [hscan]), ofScan, hscan]
  exact run'_eq_ok_iff.2 ⟨[], whole_of_expression hf (h hf)⟩

/-- A text whose tokens form a pipeline is accepted under a limit of at least their number. -/
theorem parse_complete (hscan : Scan.ofText text.toList = ⟨tokens, .finish last⟩)
    (hlimit : tokens.length ≤ limit)
    (h : Pipeline (tokens.map Token.lexeme) e) : parse text limit = .ok e := by
  refine parse_of_expression hscan (fun hnil => pipeline_ne_nil h (by rw [hnil]; rfl)) fun hf => ?_
  exact (pipeline_reads h).takes hf (Nat.le_refl 0) (by rw [List.length_map]; omega) (Leads.self tokens)

/-- A text that is accepted is cut into lexemes that form a pipeline. -/
theorem cut_of_parse (h : parse text limit = .ok e) : ∃ ls, Cut text.toList ls ∧ Pipeline ls e := by
  obtain ⟨hpipeline, last, hlast⟩ := parse_sound h
  exact ⟨_, Cursor.cut_of_scan (c := .start text.toList) hlast, hpipeline⟩

/-- A text is accepted that is cut into lexemes that form a pipeline, under a limit of at least their number. -/
theorem parse_of_cut {ls : List Lexeme} (hcut : Cut text.toList ls) (hlimit : ls.length ≤ limit)
    (h : Pipeline ls e) : parse text limit = .ok e := by
  obtain ⟨tokens, last, hscan, rfl⟩ := Scan.ofText_of_cut hcut
  exact parse_complete hscan (by rwa [List.length_map] at hlimit) h

/-- Under a limit of at least the number of its tokens, a text without faults is read as a tree just if the
    grammar derives the tree from its tokens. -/
theorem parse_eq_ok_iff (hscan : Scan.ofText text.toList = ⟨tokens, .finish last⟩)
    (hlimit : tokens.length ≤ limit) :
    parse text limit = .ok e ↔ Pipeline (tokens.map Token.lexeme) e := by
  constructor
  · intro h
    have hsound := (parse_sound h).1
    rwa [hscan] at hsound
  · exact parse_complete hscan hlimit

/-- A wildcard, an index and a negated comparison in one text. -/
theorem parse_negation_after_index : parse "a[*].b[0] != !c" 12 = .ok (.comparison .ne
    (.index (some (.subexpression (.arrayWildcard (some (.identifier "a"))) (.identifier "b"))) 0)
    (.not (.identifier "c"))) := by
  have hscan : Scan.ofText "a[*].b[0] != !c".toList =
      ⟨(Scan.ofText "a[*].b[0] != !c".toList).tokens, .finish ⟨.finish, 15, 15, 15⟩⟩ := by decide +kernel
  have hlexemes : (Scan.ofText "a[*].b[0] != !c".toList).tokens.map Token.lexeme =
      [.name "a", .mark .lbracket, .mark .star, .mark .rbracket, .mark .dot, .name "b",
        .mark .lbracket, .number 0,
        .mark .rbracket, .mark (.comparator .ne), .mark .not, .name "c"] := by decide +kernel
  have hitems := Postfixed.suffixed (.primary (.name "a")) (.bracketed .items)
  have hfield := Postfixed.suffixed hitems (.field (.name "b"))
  have hindex := Postfixed.suffixed hfield (.bracketed (.selector (.index (.plain 0))))
  have hnot := Comparison.operandsNot .ne (.postfixed hindex) (.operands (.postfixed (.primary (.name "c"))))
  refine (parse_eq_ok_iff hscan (by decide +kernel)).2 ?_
  rw [hlexemes]
  exact .disjunction (.conjunction (.comparison hnot))

end Expr
end JsonQuery
