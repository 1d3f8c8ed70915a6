import JsonQuery.Proofs.Expr.Parse
import JsonQuery.Proofs.Expr.Shape
import JsonQuery.Proofs.Json.ReadBack
import JsonQuery.Proofs.Token.Spelling

/-! Printing expressions. Every child stands in parentheses, but for what is to the right of a point, and
    lexemes are written without anything between them. The grammar derives the tree from the lexemes that
    are printed for it, and these are cut apart again where they were put together. -/

namespace JsonQuery

open Grammar

namespace Expr

/-- Lexemes in parentheses. -/
def inParens (ls : List Lexeme) : List Lexeme := .mark .lparen :: (ls ++ [.mark .rparen])

/-- Lexemes in brackets. -/
def inBrackets (ls : List Lexeme) : List Lexeme := .mark .lbracket :: (ls ++ [.mark .rbracket])

/-- An integer in decimal. -/
def integerLexemes (i : Int) : List Lexeme :=
  if i < 0 then [.mark .minus, .number i.natAbs] else [.number i.natAbs]

/-- A bound of a slice, if there is one. -/
def boundLexemes (i : Option Int) : List Lexeme := i.elim [] integerLexemes

/-- A step of a slice with its colon, if there is one. -/
def stepLexemes (i : Option Int) : List Lexeme := i.elim [] fun i => .mark .colon :: integerLexemes i

/-- An argument, given the lexemes of the expression: a reference has its mark before its parentheses
    already. -/
def asArgument : Expr → List Lexeme → List Lexeme
  | reference _, ls => ls
  | _, ls => inParens ls

mutual

/-- An expression as printed. -/
def lexemes : Expr → List Lexeme
  | identifier name => [.quotedName name]
  | current => [.mark .current]
  | literal v => [.literal (Json.text v)]
  | rawString text => [.rawString text]
  | index base i => baseLexemes base ++ inBrackets (integerLexemes i)
  | slice base start stop step => baseLexemes base
    ++ inBrackets (boundLexemes start ++ .mark .colon :: (boundLexemes stop ++ stepLexemes step))
  | flatten base => baseLexemes base ++ [.mark .flatten]
  | subexpression left right => inParens (lexemes left) ++ .mark .dot :: lexemes right
  | objectWildcard none => [.mark .star]
  | objectWildcard (some base) => inParens (lexemes base) ++ [.mark .dot, .mark .star]
  | arrayWildcard base => baseLexemes base ++ inBrackets [.mark .star]
  | pipe left right => inParens (lexemes left) ++ .mark .pipe :: inParens (lexemes right)
  | or left right => inParens (lexemes left) ++ .mark .or :: inParens (lexemes right)
  | and left right => inParens (lexemes left) ++ .mark .and :: inParens (lexemes right)
  | not operand => .mark .not :: inParens (lexemes operand)
  | comparison op left right => inParens (lexemes left) ++ .mark (.comparator op) :: inParens (lexemes right)
  | filter source predicate =>
    baseLexemes source ++ .mark .filter :: (inParens (lexemes predicate) ++ [.mark .rbracket])
  | multiselectList items => inBrackets (itemLexemes items)
  | multiselectHash pairs => .mark .lbrace :: (pairLexemes pairs ++ [.mark .rbrace])
  | call function args => .name function :: inParens (argLexemes args)
  | reference expression => .mark .reference :: inParens (lexemes expression)
  | extension _ => []

/-- A child that may be absent, as printed. -/
def baseLexemes : Option Expr → List Lexeme
  | none => []
  | some e => inParens (lexemes e)

/-- Expressions as printed, separated by commas. -/
def itemLexemes : List Expr → List Lexeme
  | [] => []
  | [e] => inParens (lexemes e)
  | e :: e' :: es => inParens (lexemes e) ++ .mark .comma :: itemLexemes (e' :: es)

/-- Keyed expressions as printed, separated by commas. -/
def pairLexemes : List (String × Expr) → List Lexeme
  | [] => []
  | [(key, e)] => .quotedName key :: .mark .colon :: inParens (lexemes e)
  | (key, e) :: p :: ps =>
    .quotedName key :: .mark .colon :: (inParens (lexemes e) ++ .mark .comma :: pairLexemes (p :: ps))

/-- Arguments as printed, separated by commas. -/
def argLexemes : List Expr → List Lexeme
  | [] => []
  | [e] => asArgument e (lexemes e)
  | e :: e' :: es => asArgument e (lexemes e) ++ .mark .comma :: argLexemes (e' :: es)

end

/-- An expression as text. -/
def text (e : Expr) : String := String.ofList (spellings (lexemes e))

/-- A tree that a text can denote: functions have names without quotes, and literals, indices and bounds are values
    that JSON text can hold. -/
abbrev Printable : Expr → Prop := Shaped (Lexeme.isName · = true) Json.Writable

/-! ### The grammar derives what is printed -/

theorem postfixed_inParens {ls : List Lexeme} {e : Expr} (h : Pipeline ls e) : Postfixed (inParens ls) e :=
  .primary (.parentheses h)

theorem pipeline_inParens {ls : List Lexeme} {e : Expr} (h : Pipeline ls e) : Pipeline (inParens ls) e :=
  pipeline_of_postfixed (postfixed_inParens h)

theorem comparison_inParens {ls : List Lexeme} {e : Expr} (h : Pipeline ls e) : Comparison (inParens ls) e :=
  .operands (.postfixed (postfixed_inParens h))

theorem integer_lexemes (i : Int) : Integer (integerLexemes i) i := by
  unfold integerLexemes
  split
  next h =>
    have hminus := Integer.minus i.natAbs
    rwa [show -(i.natAbs : Int) = i by omega] at hminus
  next h =>
    have hplain := Integer.plain i.natAbs
    rwa [show (i.natAbs : Int) = i by omega] at hplain

theorem bound_lexemes : ∀ i : Option Int, Bound (boundLexemes i) i
  | none => .absent
  | some i => .present (integer_lexemes i)

theorem selector_slice {base : Option Expr} (start stop : Option Int) : ∀ {step : Option Int}, step ≠ some 0 →
    Selector base (boundLexemes start ++ .mark .colon :: (boundLexemes stop ++ stepLexemes step))
      (.slice base start stop step)
  | none, _ => by
    rw [show stepLexemes none = [] from rfl, List.append_nil]
    exact .slice (bound_lexemes start) (bound_lexemes stop)
  | some i, h => .stepped (bound_lexemes start) (bound_lexemes stop) (.present (integer_lexemes i)) h

theorem itemLexemes_ne_star : ∀ {es : List Expr}, es ≠ [] → itemLexemes es ≠ [.mark .star]
  | [], h => absurd rfl h
  | [_], _ => nofun
  | _ :: _ :: _, _ => nofun

mutual

theorem pipeline_lexemes : ∀ {e : Expr}, Printable e → Pipeline (lexemes e) e
  | identifier name, _ => pipeline_of_postfixed (.primary (.quotedName name))
  | current, _ => pipeline_of_postfixed (.primary .current)
  | literal _, h => pipeline_of_postfixed (.primary (.literal (Json.read_text h)))
  | rawString s, _ => pipeline_of_postfixed (.primary (.rawString s))
  | index _ i, ⟨_, h⟩ => pipeline_of_postfixed (postfixed_bracketed h (.selector (.index (integer_lexemes i))))
  | slice _ start stop _, ⟨hstep, _, h⟩ =>
    pipeline_of_postfixed (postfixed_bracketed h (.selector (selector_slice start stop hstep)))
  | flatten _, h => pipeline_of_postfixed (postfixed_bracketed h .flatten)
  | subexpression _ _, ⟨hfield, hl, hr⟩ =>
    pipeline_of_postfixed (.suffixed (postfixed_inParens (pipeline_lexemes hl))
      (.field (field_lexemes hfield hr)))
  | objectWildcard none, _ => pipeline_of_postfixed (.primary .values)
  | objectWildcard (some _), h => pipeline_of_postfixed
    (.suffixed (postfixed_inParens (pipeline_lexemes h)) .values)
  | arrayWildcard _, h => pipeline_of_postfixed (postfixed_bracketed h .items)
  | pipe _ _, ⟨hl, hr⟩ =>
    .pipe (pipeline_inParens (pipeline_lexemes hl))
      (.conjunction (.comparison (comparison_inParens (pipeline_lexemes hr))))
  | or _ _, ⟨hl, hr⟩ =>
    .disjunction (.or (.conjunction (.comparison (comparison_inParens (pipeline_lexemes hl))))
      (.comparison (comparison_inParens (pipeline_lexemes hr))))
  | and _ _, ⟨hl, hr⟩ =>
    .disjunction (.conjunction (.and (.comparison (comparison_inParens (pipeline_lexemes hl)))
      (comparison_inParens (pipeline_lexemes hr))))
  | not _, h => .disjunction (.conjunction (.comparison (.not (comparison_inParens (pipeline_lexemes h)))))
  | comparison op _ _, ⟨hl, hr⟩ =>
    .disjunction (.conjunction (.comparison (.operands (.comparison op
      (.postfixed (postfixed_inParens (pipeline_lexemes hl))) (postfixed_inParens (pipeline_lexemes hr))))))
  | filter _ _, ⟨hsource, hp⟩ =>
    pipeline_of_postfixed (postfixed_bracketed hsource
      (.filter (pipeline_inParens (pipeline_lexemes hp))))
  | multiselectList _, ⟨hne, h⟩ =>
    pipeline_of_postfixed (.primary (.list (row_itemLexemes hne h) (itemLexemes_ne_star hne)))
  | multiselectHash _, ⟨hne, h⟩ => pipeline_of_postfixed (.primary (.hash (.pairs (row_pairLexemes hne h))))
  | call f [], _ => pipeline_of_postfixed (.primary (.call (.none f)))
  | call _ (_ :: _), ⟨_, h⟩ => pipeline_of_postfixed (.primary (.call (.some (row_argLexemes (by simp) h))))

theorem field_lexemes : ∀ {e : Expr}, e.isField = true → Printable e → Field (lexemes e) e
  | identifier name, _, _ => .quotedName name
  | multiselectList _, _, ⟨hne, h⟩ => .list (row_itemLexemes hne h)
  | multiselectHash _, _, ⟨hne, h⟩ => .hash (.pairs (row_pairLexemes hne h))
  | call f [], _, _ => .call (.none f)
  | call _ (_ :: _), _, ⟨_, h⟩ => .call (.some (row_argLexemes (by simp) h))

theorem postfixed_bracketed : ∀ {base : Option Expr} {ls : List Lexeme} {e : Expr},
    ShapedOption (Lexeme.isName · = true) Json.Writable base → Bracketed base ls e →
    Postfixed (baseLexemes base ++ ls) e
  | none, _, _, _, h => .primary (.bracketed h)
  | some _, _, _, hb, h => .suffixed (postfixed_inParens (pipeline_lexemes hb)) (.bracketed h)

theorem row_itemLexemes : ∀ {es : List Expr}, es ≠ [] →
    ShapedList (Lexeme.isName · = true) Json.Writable es → Row Pipeline (itemLexemes es) es
  | [_], _, ⟨he, _⟩ => .one (pipeline_inParens (pipeline_lexemes he))
  | _ :: _ :: _, _, ⟨he, hes⟩ =>
    .more (pipeline_inParens (pipeline_lexemes he)) (row_itemLexemes (by simp) hes)

theorem row_pairLexemes : ∀ {ps : List (String × Expr)}, ps ≠ [] →
    ShapedPairs (Lexeme.isName · = true) Json.Writable ps → Row Pair (pairLexemes ps) ps
  | [(key, _)], _, ⟨he, _⟩ =>
    .one (.pair (.quotedName key) (pipeline_inParens (pipeline_lexemes he)))
  | (key, _) :: _ :: _, _, ⟨he, hes⟩ =>
    .more (.pair (.quotedName key) (pipeline_inParens (pipeline_lexemes he)))
      (row_pairLexemes (by simp) hes)

theorem row_argLexemes : ∀ {es : List Expr}, es ≠ [] →
    ShapedArgs (Lexeme.isName · = true) Json.Writable es →
    Row Grammar.Argument (argLexemes es) es
  | [e], _, h => by
    cases e with
    | reference e => exact .one (.reference (pipeline_inParens (pipeline_lexemes h.1)))
    | _ => exact .one (.value (pipeline_inParens (pipeline_lexemes h.1)))
  | e :: _ :: _, _, h => by
    cases e with
    | reference e =>
      exact .more (.reference (pipeline_inParens (pipeline_lexemes h.1)))
        (row_argLexemes (by simp) h.2)
    | _ =>
      exact .more (.value (pipeline_inParens (pipeline_lexemes h.1)))
        (row_argLexemes (by simp) h.2)

end

/-! ### What is printed is cut apart again -/

/-- Lexemes that are cut apart in front of any lexemes that are. -/
def Solid (ls : List Lexeme) : Prop := ∀ rest, Separate rest → Separate (ls ++ rest)

namespace Solid

variable {l : Lexeme} {ls ms : List Lexeme}

theorem nil : Solid [] := fun _ h => h

theorem append (h : Solid ls) (h' : Solid ms) : Solid (ls ++ ms) := by
  intro rest hrest
  rw [List.append_assoc]
  exact h _ (h' rest hrest)

theorem cons (hl : l.Legible) (hends : ∀ c, l.endsBefore c = true) (h : Solid ls) : Solid (l :: ls) :=
  fun rest hrest => separate_cons hl hends (h rest hrest)

theorem mark (m : Mark) (hends : ∀ c, (Lexeme.mark m).endsBefore c = true) (h : Solid ls) :
    Solid (.mark m :: ls) :=
  cons trivial hends h

theorem inParens (h : Solid ls) : Solid (inParens ls) :=
  mark .lparen (fun _ => rfl) (h.append (mark .rparen (fun _ => rfl) nil))

/-- Whatever ends before a parenthesis may stand before one. -/
theorem before (hl : l.Legible) (hends : l.endsBefore '(' = true) (h : Solid ls) :
    Solid (l :: Expr.inParens ls) := by
  refine fun rest hrest => ⟨hl, ?_, h.inParens rest hrest⟩
  rintro c ⟨⟩
  exact hends

theorem inBrackets (hstart : ∀ rest, (Lexeme.mark .lbracket).EndsAt
    (spellings (ls ++ .mark .rbracket :: rest)))
    (h : ∀ rest, Separate (.mark .rbracket :: rest) → Separate (ls ++ .mark .rbracket :: rest)) :
    Solid (inBrackets ls) := by
  intro rest hrest
  rw [Expr.inBrackets, List.cons_append, List.append_assoc]
  exact ⟨trivial, hstart rest, h rest (separate_cons trivial (fun _ => rfl) hrest)⟩

end Solid

/-- A digit is never what makes a bracket another mark. -/
theorem lbracket_endsBefore {c : Char} (h : c.isDigit = true) :
    (Lexeme.mark .lbracket).endsBefore c = true := by
  have hclose : c ≠ ']' := by
    rintro rfl
    cases h
  have hask : c ≠ '?' := by
    rintro rfl
    cases h
  simp [Lexeme.endsBefore, hclose, hask]

theorem lbracket_endsAt_integer (i : Int) (rest : List Lexeme) :
    (Lexeme.mark .lbracket).EndsAt (spellings (integerLexemes i ++ rest)) := by
  unfold integerLexemes
  split
  next =>
    rintro c ⟨⟩
    rfl
  next =>
    intro c hc
    refine lbracket_endsBefore (isDigit_of_mem_natDigits (n := i.natAbs) ?_)
    cases hn : natDigits i.natAbs with
    | nil => exact absurd hn (natDigits_ne_nil _)
    | cons d ds =>
      have hspell : spellings ([.number i.natAbs] ++ rest) = d :: (ds ++ spellings rest) := by
        show natDigits i.natAbs ++ spellings rest = _
        rw [hn]
        rfl
      rw [hspell] at hc
      cases hc
      exact List.mem_cons_self

theorem legible_number {i : Int} (h : Json.Writable (.number (.int i))) : (Lexeme.number i.natAbs).Legible :=
  Number.isWritable_int.1 h.2

/-- An integer is cut off before anything that starts with no digit. -/
theorem separate_integer {i : Int} (hi : Json.Writable (.number (.int i))) {rest : List Lexeme}
    (hnext : NoDigitNext (spellings rest)) (hrest : Separate rest) : Separate (integerLexemes i ++ rest) := by
  have hnumber : ∀ n, (Lexeme.number n).EndsAt (spellings rest) := fun n c hc => by
    simp [Lexeme.endsBefore, hnext c hc]
  unfold integerLexemes
  split
  · exact separate_cons trivial (fun _ => rfl) ⟨legible_number hi, hnumber _, hrest⟩
  · exact ⟨legible_number hi, hnumber _, hrest⟩

theorem separate_bound {rest : List Lexeme} (hnext : NoDigitNext (spellings rest)) (hrest : Separate rest) :
    ∀ {i : Option Int}, (∀ n ∈ i, Json.Writable (.number (.int n))) → Separate (boundLexemes i ++ rest)
  | none, _ => hrest
  | some _, hi => separate_integer (hi _ rfl) hnext hrest

theorem separate_step {rest : List Lexeme} (hnext : NoDigitNext (spellings rest)) (hrest : Separate rest) :
    ∀ {i : Option Int}, (∀ n ∈ i, Json.Writable (.number (.int n))) → Separate (stepLexemes i ++ rest)
  | none, _ => hrest
  | some _, hi => separate_cons trivial (fun _ => rfl) (separate_integer (hi _ rfl) hnext hrest)

theorem noDigitNext_rbracket (rest : List Lexeme) : NoDigitNext (spellings (.mark .rbracket :: rest)) := by
  rintro c ⟨⟩
  rfl

theorem solid_index {i : Int} (hi : Json.Writable (.number (.int i))) : Solid (inBrackets (integerLexemes i)) :=
  .inBrackets (fun _ => lbracket_endsAt_integer i _) fun rest =>
    separate_integer hi (noDigitNext_rbracket rest)

theorem solid_slice {start stop step : Option Int}
    (hbounds : ∀ i, some i ∈ [start, stop, step] → Json.Writable (.number (.int i))) :
    Solid (inBrackets (boundLexemes start ++ .mark .colon :: (boundLexemes stop ++ stepLexemes step))) := by
  have hheld {i : Option Int} (hi : i ∈ [start, stop, step]) : ∀ n ∈ i, Json.Writable (.number (.int n)) := by
    rintro n rfl
    exact hbounds n hi
  refine .inBrackets (fun rest => ?_) fun rest hrest => ?_
  · rw [List.append_assoc]
    cases start with
    | none =>
      rintro c ⟨⟩
      rfl
    | some i => exact lbracket_endsAt_integer i _
  · have hstep := separate_step (noDigitNext_rbracket rest) hrest (hheld (i := step) (by simp))
    have hstop : Separate (boundLexemes stop ++ (stepLexemes step ++ .mark .rbracket :: rest)) := by
      refine separate_bound ?_ hstep (hheld (by simp))
      cases step with
      | none => exact noDigitNext_rbracket rest
      | some i =>
        rintro c ⟨⟩
        rfl
    have hcolon : Separate (.mark .colon :: (boundLexemes stop ++
      (stepLexemes step ++ .mark .rbracket :: rest))) :=
      separate_cons trivial (fun _ => rfl) hstop
    rw [List.append_assoc, List.cons_append, List.append_assoc]
    refine separate_bound ?_ hcolon (hheld (by simp))
    rintro c ⟨⟩
    rfl

theorem solid_star : Solid (inBrackets [.mark .star]) := by
  refine .inBrackets ?_ fun rest => separate_cons trivial fun _ => rfl
  rintro rest c ⟨⟩
  rfl

theorem solid_list {es : List Expr} (hne : es ≠ []) (h : Solid (itemLexemes es)) :
    Solid (inBrackets (itemLexemes es)) := by
  refine .inBrackets (fun rest => ?_) fun rest => h _
  have hparen : ∃ ls, itemLexemes es = .mark .lparen :: ls := by
    match es, hne with
    | [_], _ => exact ⟨_, rfl⟩
    | _ :: _ :: _, _ => exact ⟨_, rfl⟩
  obtain ⟨ls, hls⟩ := hparen
  rw [hls]
  rintro c ⟨⟩
  rfl

theorem legible_literal (v : Json) : (Lexeme.literal (Json.text v)).Legible := by
  show Lexeme.Unticked (Json.text v).toList
  rw [Json.text, String.toList_ofList]
  exact Lexeme.unticked_chars v

mutual

theorem solid_lexemes : ∀ {e : Expr}, Printable e → Solid (lexemes e)
  | identifier _, _ => .cons trivial (fun _ => rfl) .nil
  | current, _ => .mark .current (fun _ => rfl) .nil
  | literal v, _ => .cons (legible_literal v) (fun _ => rfl) .nil
  | rawString _, _ => .cons trivial (fun _ => rfl) .nil
  | index _ _, ⟨hi, h⟩ => (solid_baseLexemes h).append (solid_index hi)
  | slice _ _ _ _, ⟨_, hbounds, h⟩ => (solid_baseLexemes h).append (solid_slice hbounds)
  | flatten _, h => (solid_baseLexemes h).append (.mark .flatten (fun _ => rfl) .nil)
  | subexpression _ _, ⟨_, hl, hr⟩ => (solid_lexemes hl).inParens.append
    (.mark .dot (fun _ => rfl) (solid_lexemes hr))
  | objectWildcard none, _ => .mark .star (fun _ => rfl) .nil
  | objectWildcard (some base), h =>
    (solid_lexemes (e := base) h).inParens.append
      (.mark .dot (fun _ => rfl) (.mark .star (fun _ => rfl) .nil))
  | arrayWildcard _, h => (solid_baseLexemes h).append solid_star
  | pipe _ _, ⟨hl, hr⟩ => (solid_lexemes hl).inParens.append (.before trivial rfl (solid_lexemes hr))
  | or _ _, ⟨hl, hr⟩ => (solid_lexemes hl).inParens.append (.before trivial rfl (solid_lexemes hr))
  | and _ _, ⟨hl, hr⟩ => (solid_lexemes hl).inParens.append (.before trivial rfl (solid_lexemes hr))
  | not _, h => .before trivial rfl (solid_lexemes h)
  | comparison op _ _, ⟨hl, hr⟩ =>
    (solid_lexemes hl).inParens.append (.before trivial (by cases op <;> rfl) (solid_lexemes hr))
  | filter _ _, ⟨hsource, hp⟩ =>
    (solid_baseLexemes hsource).append
      (.mark .filter (fun _ => rfl) ((solid_lexemes hp).inParens.append
        (.mark .rbracket (fun _ => rfl) .nil)))
  | multiselectList _, ⟨hne, h⟩ => solid_list hne (solid_itemLexemes h)
  | multiselectHash _, ⟨_, h⟩ =>
    .mark .lbrace (fun _ => rfl) ((solid_pairLexemes h).append (.mark .rbrace (fun _ => rfl) .nil))
  | call _ _, ⟨hname, h⟩ => .before hname rfl (solid_argLexemes h)

theorem solid_baseLexemes : ∀ {base : Option Expr},
    ShapedOption (Lexeme.isName · = true) Json.Writable base → Solid (baseLexemes base)
  | none, _ => .nil
  | some _, h => (solid_lexemes h).inParens

theorem solid_itemLexemes : ∀ {es : List Expr},
    ShapedList (Lexeme.isName · = true) Json.Writable es → Solid (itemLexemes es)
  | [], _ => .nil
  | [_], ⟨he, _⟩ => (solid_lexemes he).inParens
  | _ :: _ :: _, ⟨he, hes⟩ => (solid_lexemes he).inParens.append
    (.mark .comma (fun _ => rfl) (solid_itemLexemes hes))

theorem solid_pairLexemes : ∀ {ps : List (String × Expr)},
    ShapedPairs (Lexeme.isName · = true) Json.Writable ps → Solid (pairLexemes ps)
  | [], _ => .nil
  | [(_, _)], ⟨he, _⟩ => .cons trivial (fun _ => rfl)
    (.mark .colon (fun _ => rfl) (solid_lexemes he).inParens)
  | (_, _) :: _ :: _, ⟨he, hes⟩ =>
    .cons trivial (fun _ => rfl) (.mark .colon (fun _ => rfl)
      ((solid_lexemes he).inParens.append (.mark .comma (fun _ => rfl) (solid_pairLexemes hes))))

theorem solid_argLexemes : ∀ {es : List Expr},
    ShapedArgs (Lexeme.isName · = true) Json.Writable es → Solid (argLexemes es)
  | [], _ => .nil
  | [e], h => by
    cases e with
    | reference e => exact .before trivial rfl (solid_lexemes h.1)
    | _ => exact (solid_lexemes h.1).inParens
  | e :: _ :: _, h => by
    cases e with
    | reference e =>
      have he : Solid (lexemes (reference e)) := .before trivial rfl (solid_lexemes h.1)
      exact he.append (.mark .comma (fun _ => rfl) (solid_argLexemes h.2))
    | _ => exact (solid_lexemes h.1).inParens.append (.mark .comma (fun _ => rfl) (solid_argLexemes h.2))

end

/-! ### Reading what is printed -/

/-- A tree is read from its text under every limit of at least the number of tokens of the text. -/
theorem parse_text {e : Expr} (h : Printable e) {limit : Int}
    (hlimit : (Scan.ofText (text e).toList).tokens.length ≤ limit) : parse (text e) limit = .ok e := by
  have hseparate : Separate (lexemes e) := by
    have hall := solid_lexemes h [] trivial
    rwa [List.append_nil] at hall
  obtain ⟨tokens, last, hscan, hlexemes⟩ := Scan.ofText_spellings hseparate
  have hscan : Scan.ofText (text e).toList = ⟨tokens, .finish last⟩ := by
    rw [text, String.toList_ofList, hscan]
  rw [hscan] at hlimit
  exact parse_complete hscan hlimit (hlexemes ▸ pipeline_lexemes h)

/-- A tree with something to escape in a name, a literal and a raw string, a double and a negative index. -/
def escapesTree : Expr :=
  .call "f" [.reference (.index (some (.identifier "a\x22b")) (-1)),
    .literal (.array [.string "\x60\\", .number (.double (.finite false (1 <<< 52) 1021 (by decide)))]),
    .rawString "it\x27s"]

theorem parse_text_escapes :
    text escapesTree = "f(&((\x22a\\\x22b\x22)[-1]),(\x60[\x22\\\x60\\\\\x22,0.5]\x60),(\x27it\\\x27s\x27))" ∧
    parse (text escapesTree) 22 = .ok escapesTree := by
  have hindex : Json.Writable (.number (.int (-1))) := ⟨rfl, Number.isWritable_digit (by decide)⟩
  have hprintable : Printable escapesTree :=
    ⟨by decide, ⟨hindex, trivial⟩, ⟨trivial, ⟨rfl, rfl⟩, trivial⟩, trivial, trivial⟩
  have htokens : (Scan.ofText (text escapesTree).toList).tokens.length ≤ 22 := by decide +kernel
  exact ⟨by decide +kernel, parse_text hprintable (by exact_mod_cast htokens)⟩

end Expr
end JsonQuery
