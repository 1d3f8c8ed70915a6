import JsonQuery.Proofs.Expr.Embedding
import JsonQuery.Proofs.Expr.Operands
import JsonQuery.Proofs.Json.Numbers
import JsonQuery.Proofs.Number.Magnitude

/-! The numbers of literals. A literal of a tree is read from a token of the text, and each number in its value
    from a numeral in the token. No named constant comes in, but a numeral with a fraction or an exponent can be
    too large for a double, and then the number is infinite. Such a number is printed as a named constant; so the
    literal of what is printed for a value of the tree is accepted just if all its numbers are finite. -/

namespace JsonQuery

namespace Operand

theorem eq_of_ofLexeme?_literal {l : Lexeme} {next : Option Lexeme} {s : String}
    (h : ofLexeme? l next = some (.literal s)) : l = .literal s := by
  unfold ofLexeme? at h
  split at h
  next =>
    split at h
    next => cases h
    next => split at h <;> cases h
  next => split at h <;> cases h
  next => cases h
  next => cases h
  next =>
    cases h
    rfl
  next => cases h

/-- A literal among the operands is a literal among the lexemes. -/
theorem literal_mem_of_ofLexemes {s : String} : ∀ {ls : List Lexeme}, .literal s ∈ ofLexemes ls → .literal s ∈ ls := by
  intro ls
  induction ls with
  | nil => exact nofun
  | cons l ls ih =>
    intro h
    rcases List.mem_append.1 h with h | h
    · rw [eq_of_ofLexeme?_literal (Option.mem_toList.1 h)]
      exact List.mem_cons_self
    · exact List.mem_cons_of_mem l (ih h)

end Operand

namespace Expr

open Grammar

variable {text : String} {limit : Int} {e : Expr} {v : Json}

theorem exists_of_forall₂ {α β : Type} {R : α → β → Prop} {as : List α} {bs : List β} {b : β}
    (h : List.Forall₂ R as bs) (hb : b ∈ bs) : ∃ a ∈ as, R a b := by
  induction h with
  | nil => cases hb
  | cons hr _ ih =>
    rcases List.mem_cons.1 hb with rfl | hb
    · exact ⟨_, List.mem_cons_self, hr⟩
    · obtain ⟨a, ha, hr⟩ := ih hb
      exact ⟨a, List.mem_cons_of_mem _ ha, hr⟩

/-- A literal of a tree is read from a token of the text. -/
theorem exists_of_literal_mem_walk (h : parse text limit = .ok e) (hv : literal v ∈ e.walk) :
    ∃ s, .literal s ∈ (Scan.ofText text.toList).tokens.map Token.lexeme ∧ Json.read .literal s.toList = .ok v := by
  have hmem : literal v ∈ e.operands := List.mem_filter.2 ⟨hv, rfl⟩
  obtain ⟨o, ho, hdenotes⟩ := exists_of_forall₂ (operands_of_parse h) hmem
  cases hdenotes with
  | literal hread => exact ⟨_, Operand.literal_mem_of_ofLexemes ho, hread⟩

/-- The literal of a text is accepted just if the text can be read. -/
theorem parse_literal_iff (hticks : Lexeme.Unticked text.toList) (hlimit : 1 ≤ limit) :
    parse (literalText text) limit = .ok e ↔ ∃ v, Json.read .literal text.toList = .ok v ∧ e = literal v := by
  constructor
  · intro h
    obtain ⟨tokens, last, hscan, htokens⟩ := Scan.ofText_of_cut (cut_literalText hticks)
    have hoperands := operands_of_parse h
    rw [hscan, htokens] at hoperands
    obtain ⟨operand, -, hdenotes, -⟩ := List.forall₂_cons_left_iff.1 hoperands
    cases hdenotes with
    | @literal _ v hread =>
      rw [parse_literal hticks hread hlimit] at h
      exact ⟨v, hread, (Except.ok.inj h).symm⟩
  · rintro ⟨v, hread, rfl⟩
    exact parse_literal hticks hread hlimit

/-- The literal of what is printed for a value that was read from a literal. -/
theorem parse_literalText_iff {cs : List Char} (h : Json.SpelledIn cs v) (hlimit : 1 ≤ limit) :
    parse (literalText (Json.text v)) limit = .ok e ↔ e = literal v ∧ v.Finite := by
  rw [parse_literal_iff (legible_literal v) hlimit]
  constructor
  · rintro ⟨w, hread, rfl⟩
    obtain ⟨rfl, hfinite⟩ := (Json.read_text_iff h w).1 hread
    exact ⟨rfl, hfinite⟩
  · rintro ⟨rfl, hfinite⟩
    exact ⟨v, (Json.read_text_iff h v).2 ⟨rfl, hfinite⟩, rfl⟩

theorem not_finite_infinite : ¬ Value.Finite (.number (.double (.infinite false)) : Json) :=
  fun h => nomatch h _ .number

/-- Each literal of an accepted text has its numbers from numerals in one of its tokens. A number is finite unless
    its numeral has a fraction or an exponent and a magnitude that is rounded past the largest double; then it is
    the infinity with the sign of the numeral. The literal of what `to_string` gives for the value, or of the
    quoted text of a string, stands for the value again where all its numbers are finite, and is refused
    otherwise. -/
theorem literals_of_parse (h : parse text limit = .ok e) (hv : literal v ∈ e.walk) :
    ∃ s, .literal s ∈ (Scan.ofText text.toList).tokens.map Token.lexeme ∧ Json.read .literal s.toList = .ok v ∧
      (∀ x, v.HasNumber x → ∃ cs n, cs <:+: s.toList ∧ Numeral.Derives asciiDigit? cs n ∧ n.value = x ∧
        (x.isFinite = true ↔ (n.fraction = [] ∧ n.exponent = none) ∨ n.magnitude < Double.leastOverflow) ∧
        (x.isFinite = true ∨ x = .double (.infinite n.negative))) ∧
      ∀ printed, v.CompactText printed → ∀ room, 1 ≤ room → ∀ e',
        parse (literalText printed) room = .ok e' ↔ e' = literal v ∧ v.Finite := by
  obtain ⟨s, hs, hread⟩ := exists_of_literal_mem_walk h hv
  have hspelled := Json.spelledIn_of_read hread
  refine ⟨s, hs, hread, fun x hx => ?_, fun printed hprinted room hroom e' => ?_⟩
  · obtain ⟨cs, n, hcs, hn, rfl⟩ := hspelled.of_hasNumber hx
    exact ⟨cs, n, hcs, hn, rfl, n.isFinite_value, n.value_finite_or_infinite⟩
  · rw [hprinted.eq_text]
    exact parse_literalText_iff hspelled hroom

/-- Two literals, of which one is too large for a double: what is printed for it is refused, and what is printed
    for the other is accepted. -/
theorem literals_of_parse_or : ∃ e half, parse "\x601e400\x60 || \x605e-1\x60" 3 = .ok e ∧
    e = or (literal (.number (.double (.infinite false)))) (literal half) ∧
    (∀ e', parse "\x60Infinity\x60" 1 ≠ .ok e') ∧ parse "\x600.5\x60" 1 = .ok (literal half) := by
  have hcut : Cut "\x601e400\x60 || \x605e-1\x60".toList [.literal "1e400", .mark .or, .literal "5e-1"] := by
    decide +kernel
  have hlarge : Json.read .literal "1e400".toList = .ok (.number (.double (.infinite false))) := rfl
  have hsmall : Json.read .literal "5e-1".toList = .ok (.number (Numeral.mk false [5] [] (some (-1))).value) := rfl
  have hleft := Disjunction.conjunction (.comparison (.operands (.postfixed (.primary (.literal hlarge)))))
  have hright := Conjunction.comparison (.operands (.postfixed (.primary (.literal hsmall))))
  have hparse : parse "\x601e400\x60 || \x605e-1\x60" 3 = .ok _ :=
    parse_of_cut hcut (by decide) (.disjunction (.or hleft hright))
  refine ⟨_, _, hparse, rfl, ?_, ?_⟩
  · obtain ⟨s, -, -, -, hprinted⟩ := literals_of_parse hparse (List.mem_cons_of_mem _ List.mem_cons_self)
    exact fun e' h => not_finite_infinite ((hprinted "Infinity" rfl 1 le_rfl e').1 h).2
  · obtain ⟨s, -, -, -, hprinted⟩ := literals_of_parse hparse
      (List.mem_cons_of_mem _ (List.mem_cons_of_mem _ List.mem_cons_self))
    have hwritable : Json.Writable (.number (Numeral.mk false [5] [] (some (-1))).value) :=
      ⟨by decide +kernel, by decide +kernel⟩
    have htext : "0.5" = Json.text (.number (Numeral.mk false [5] [] (some (-1))).value) := by decide +kernel
    have hcompact := htext ▸ Json.compactText_of_writable hwritable
    exact (hprinted "0.5" hcompact 1 le_rfl _).2 ⟨rfl, Json.finite_of_writable hwritable⟩

/-- An infinite literal: it is printed as a named constant, and the literal of that is refused. -/
theorem parse_literal_infinite :
    parse "\x601e400\x60" 128 = .ok (literal (.number (.double (.infinite false)))) ∧
    ¬ Value.Finite (.number (.double (.infinite false)) : Json) ∧
    Builtin.toString (.number (.double (.infinite false)) : Json) = .ok (.string "Infinity") ∧
    ∀ e, parse "\x60Infinity\x60" 128 ≠ .ok e := by
  have hread : Json.read .literal "1e400".toList = .ok (.number (.double (.infinite false))) := rfl
  have hspelled := Json.spelledIn_of_read hread
  have hcut : Cut "\x601e400\x60".toList [.literal "1e400"] := by decide +kernel
  have hparse : parse "\x601e400\x60" 128 = .ok _ :=
    parse_of_cut hcut (by decide) (pipeline_of_postfixed (.primary (.literal hread)))
  refine ⟨hparse, not_finite_infinite, rfl, fun e h => ?_⟩
  exact not_finite_infinite ((parse_literalText_iff hspelled (by decide)).1 h).2

end Expr
end JsonQuery
