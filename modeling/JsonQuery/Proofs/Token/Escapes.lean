import JsonQuery.Proofs.Json.Strings
import JsonQuery.Proofs.Number.Digits
import JsonQuery.Token.Lexer

/-! Escapes inside delimiters. A body in which every backslash has a character of its own ends at the first
    delimiter that is not escaped. Names, raw strings and literals are put between delimiters in such a
    form, from which the lexer takes the escapes away again. -/

namespace JsonQuery

/-- A text in which every backslash stands before a character of its own; what the other characters are, and
    what those after a backslash are, is given. -/
inductive Pairs (plain escaped : Char → Prop) : List Char → Prop
  | nil : Pairs plain escaped []
  | plain {c : Char} {cs : List Char} : c ≠ '\\' → plain c → Pairs plain escaped cs →
    Pairs plain escaped (c :: cs)
  | escape {c : Char} {cs : List Char} : escaped c → Pairs plain escaped cs →
    Pairs plain escaped ('\\' :: c :: cs)

namespace Pairs

variable {P P' Q Q' : Char → Prop}

theorem mono (hP : ∀ c, P c → P' c) (hQ : ∀ c, Q c → Q' c) :
    ∀ {cs : List Char}, Pairs P Q cs → Pairs P' Q' cs := by
  intro cs h
  induction h with
  | nil => exact .nil
  | plain hc hp _ ih => exact .plain hc (hP _ hp) ih
  | escape hq _ ih => exact .escape (hQ _ hq) ih

theorem append {ds : List Char} (hd : Pairs P Q ds) :
    ∀ {cs : List Char}, Pairs P Q cs → Pairs P Q (cs ++ ds) := by
  intro cs h
  induction h with
  | nil => exact hd
  | plain hc hp _ ih => exact .plain hc hp ih
  | escape hq _ ih => exact .escape hq ih

theorem flatMap {f : Char → List Char} {cs : List Char} (h : ∀ c, Pairs P Q (f c)) :
    Pairs P Q (cs.flatMap f) := by
  induction cs with
  | nil => exact .nil
  | cons c cs ih => exact ih.append (h c)

theorem of_forall : ∀ {cs : List Char}, (∀ c ∈ cs, c ≠ '\\' ∧ P c) → Pairs P Q cs := by
  intro cs
  induction cs with
  | nil => exact fun _ => .nil
  | cons c cs ih =>
    intro h
    obtain ⟨hc, hp⟩ := h c List.mem_cons_self
    exact .plain hc hp (ih fun d hd => h d (List.mem_cons_of_mem c hd))

end Pairs

namespace Lexeme

/-- A body ends at the first delimiter that is not escaped. -/
theorem body?_of_pairs {d : Char} (hd : d ≠ '\\') (rest : List Char) : ∀ {cs : List Char},
    Pairs (· ≠ d) (fun _ => True) cs → body? d (cs ++ d :: rest) = some cs := by
  intro cs h
  induction h with
  | nil => simp [body?, hd]
  | plain hc hp _ ih => simp [body?, hc, hp, ih]
  | escape _ _ ih => simp [body?, ih]

/-- A body is what stands before the first delimiter that is not escaped. -/
theorem pairs_of_body? {d : Char} : ∀ {cs body : List Char}, body? d cs = some body →
    ∃ rest, cs = body ++ d :: rest ∧ Pairs (· ≠ d) (fun _ => True) body := by
  intro cs
  fun_induction body? d cs with
  | case1 => intro body h; cases h
  | case2 => intro body h; cases h
  | case3 c cs ih =>
    intro body h
    obtain ⟨b, hb, rfl⟩ := Option.map_eq_some_iff.1 h
    obtain ⟨rest, rfl, hp⟩ := ih hb
    exact ⟨rest, rfl, .escape trivial hp⟩
  | case4 cs =>
    intro body h
    cases h
    exact ⟨cs, rfl, .nil⟩
  | case5 c cs hne hne' hcd ih =>
    intro body h
    obtain ⟨b, hb, rfl⟩ := Option.map_eq_some_iff.1 h
    obtain ⟨rest, rfl, hp⟩ := ih hb
    have hc : c ≠ '\\' := fun hc => by
      cases h : b ++ d :: rest with
      | nil => exact hne hc h
      | cons e es => exact hne' e es hc h
    exact ⟨rest, rfl, .plain hc hcd hp⟩

theorem delimiter_ne_backslash (q : Quotation) : q.delimiter ≠ '\\' := by cases q <;> decide

/-! ### Quoted names -/

/-- A spelling of a character in JSON text is a character other than the quote and the backslash, or consists of
    escapes of something other than a back-tick. -/
theorem pairs_charText {c : Char} {cs : List Char} (h : Json.CharText c cs) :
    Pairs (· ≠ '\x22') (· ≠ '\x60') cs := by
  cases h with
  | plain hquote hback _ => exact .plain hback hquote .nil
  | letter hl =>
    refine .escape ?_ .nil
    rintro rfl
    cases hl
  | code hquad => exact .escape (by decide) (.of_forall (Json.ne_of_hexQuad? hquad))
  | halves hd he =>
    have hlow := Pairs.of_forall (P := (· ≠ '\x22')) (Q := (· ≠ '\x60')) (Json.ne_of_hexQuad? he)
    exact .escape (by decide) (.append (.escape (by decide) hlow) (.of_forall (Json.ne_of_hexQuad? hd)))

theorem pairs_charsText {s text : List Char} (h : Json.CharsText s text) :
    Pairs (· ≠ '\x22') (· ≠ '\x60') text := by
  induction h with
  | nil => exact .nil
  | cons hc _ ih => exact ih.append (pairs_charText hc)

/-- The body of a quoted name ends at the closing quote, whatever the spelling of the name. -/
theorem body?_charsText {s text : List Char} (h : Json.CharsText s text) (rest : List Char) :
    body? '\x22' (text ++ '\x22' :: rest) = some text :=
  body?_of_pairs (by decide) rest ((pairs_charsText h).mono (fun _ h => h) fun _ _ => trivial)

theorem ofBody_charsText {s : String} {text : List Char} (h : Json.CharsText s.toList text) :
    ofBody .name text = .ok (quotedName s) := by
  simp only [ofBody, Json.readString_charsText h]

/-! ### Raw strings -/

/-- One character of a raw string: a backslash before the quote and before itself. -/
def escapedRaw (c : Char) : List Char := if c = '\x27' ∨ c = '\\' then ['\\', c] else [c]

theorem unescapeRaw_escaped : ∀ s : List Char, unescapeRaw (s.flatMap escapedRaw) = s := by
  intro s
  induction s with
  | nil => rfl
  | cons c s ih =>
    rw [List.flatMap_cons, escapedRaw]
    split
    next h =>
      rcases h with rfl | rfl
      · exact congrArg _ ih
      · exact congrArg _ ih
    next h =>
      rw [List.singleton_append, unescapeRaw, ih]
      · rintro cs rfl
        exact absurd (.inr rfl) h
      · rintro cs rfl
        exact absurd (.inr rfl) h

theorem pairs_escapedRaw (s : List Char) : Pairs (· ≠ '\x27') (fun _ => True) (s.flatMap escapedRaw) := by
  refine Pairs.flatMap fun c => ?_
  unfold escapedRaw
  split
  next => exact .escape trivial .nil
  next h => exact .plain (fun hc => h (.inr hc)) (fun hc => h (.inl hc)) .nil

theorem body?_escapedRaw (s rest : List Char) :
    body? '\x27' (s.flatMap escapedRaw ++ '\x27' :: rest) = some (s.flatMap escapedRaw) :=
  body?_of_pairs (by decide) rest (pairs_escapedRaw s)

/-! ### Literals -/

/-- One character of a literal: a backslash before the back-tick. -/
def escapedLiteral (c : Char) : List Char := if c = '\x60' then ['\\', c] else [c]

/-- A text that the escapes of a literal cannot be confused with its own: its backslashes stand before
    characters other than the back-tick. -/
abbrev Unticked : List Char → Prop := Pairs (fun _ => True) (· ≠ '\x60')

theorem escapedLiteral_of_ne {c : Char} (h : c ≠ '\x60') : escapedLiteral c = [c] := if_neg h

theorem head_escapedLiteral (s : List Char) : ∀ c ∈ (s.flatMap escapedLiteral).head?, c ≠ '\x60' := by
  cases s with
  | nil => simp
  | cons d s =>
    rw [List.flatMap_cons, escapedLiteral]
    split
    next => simp
    next h => simpa using h

theorem unescapeLiteral_cons {c : Char} {cs : List Char} (h : c = '\\' → ∀ d ∈ cs.head?, d ≠ '\x60') :
    unescapeLiteral (c :: cs) = c :: unescapeLiteral cs := by
  rw [unescapeLiteral]
  rintro ds rfl rfl
  exact h rfl '\x60' rfl rfl

theorem unescapeLiteral_escaped : ∀ {s : List Char}, Unticked s →
    unescapeLiteral (s.flatMap escapedLiteral) = s := by
  intro s h
  induction h with
  | nil => rfl
  | @plain c s hc _ _ ih =>
    rw [List.flatMap_cons, escapedLiteral]
    split
    next htick =>
      subst htick
      exact congrArg _ ih
    next =>
      rw [List.singleton_append, unescapeLiteral_cons fun hback => absurd hback hc, ih]
  | @escape c s hc _ ih =>
    rw [List.flatMap_cons, List.flatMap_cons, escapedLiteral_of_ne (by decide), escapedLiteral_of_ne hc,
      List.singleton_append, List.singleton_append, unescapeLiteral_cons fun _ d hd => by cases hd; exact hc,
      unescapeLiteral_cons fun _ => head_escapedLiteral s, ih]

theorem pairs_escapedLiteral : ∀ {s : List Char}, Unticked s → Pairs (· ≠ '\x60') (fun _ => True)
    (s.flatMap escapedLiteral) := by
  intro s h
  induction h with
  | nil => exact .nil
  | plain hc _ _ ih =>
    rw [List.flatMap_cons, escapedLiteral]
    split
    next => exact .escape trivial ih
    next htick => exact .plain hc htick ih
  | escape hc _ ih =>
    rw [List.flatMap_cons, List.flatMap_cons, escapedLiteral_of_ne (by decide), escapedLiteral_of_ne hc]
    exact .escape trivial ih

theorem body?_escapedLiteral {s : List Char} (h : Unticked s) (rest : List Char) :
    body? '\x60' (s.flatMap escapedLiteral ++ '\x60' :: rest) = some (s.flatMap escapedLiteral) :=
  body?_of_pairs (by decide) rest (pairs_escapedLiteral h)

/-! ### JSON text -/

theorem backslash_not_mem_natDigits (n : Nat) : '\\' ∉ natDigits n := by
  intro h
  have hdigit := isDigit_of_mem_natDigits h
  cases hdigit

theorem backslash_not_mem_exponentText (width : Nat) (exponent : Int) :
    '\\' ∉ exponentText width exponent := by
  have hdigits := backslash_not_mem_natDigits exponent.natAbs
  rw [exponentText]
  by_cases h : exponent < 0 <;> simp [h, hdigits]

theorem backslash_not_mem_decimal (layout : DecimalLayout) (d : Decimal) : '\\' ∉ d.text layout := by
  have hdigits := backslash_not_mem_natDigits d.digits
  have htake : ∀ n, '\\' ∉ (natDigits d.digits).take n := fun n h => hdigits (List.mem_of_mem_take h)
  have hdrop : ∀ n, '\\' ∉ (natDigits d.digits).drop n := fun n h => hdigits (List.mem_of_mem_drop h)
  simp only [Decimal.text]
  split
  · split
    · simp [hdigits]
    split
    · simp [hdigits]
    · simp [htake, hdrop]
  · have hexponent := backslash_not_mem_exponentText layout.exponentDigits
      (d.exponent + (natDigits d.digits).length - 1)
    split
    · simp [htake, hexponent]
    · simp only [List.mem_append, List.mem_cons, htake, hdrop, hexponent]
      simp

theorem backslash_not_mem_number (n : Number) : '\\' ∉ n.text := by
  cases n with
  | int n =>
    have hdigits := backslash_not_mem_natDigits n.natAbs
    rw [Number.text, intText]
    by_cases h : n < 0 <;> simp [h, hdigits]
  | double x =>
    cases x with
    | nan =>
      show '\\' ∉ "NaN".toList
      decide
    | infinite negative =>
      show '\\' ∉ (if negative then "-Infinity" else "Infinity").toList
      cases negative <;> decide
    | finite negative m e _ =>
      obtain ⟨d, hd⟩ : ∃ d, d = Double.shortest m e := ⟨_, rfl⟩
      have hdecimal := backslash_not_mem_decimal .number d
      rw [Number.text, Double.text, ← hd]
      cases negative <;> by_cases hm : m = 0 <;> simp [hm, hdecimal]

theorem unticked_quoted (s : String) : Unticked (Json.quotedString s) :=
  .plain (by decide) trivial
    (.append (.of_forall (by simp))
      ((pairs_charsText (Json.charsText_quoted s.toList)).mono (fun _ _ => trivial) fun _ h => h))

mutual

/-- The backslashes of JSON text stand in strings. -/
theorem unticked_chars : ∀ v : Json, Unticked v.chars
  | .null | .bool true | .bool false => .of_forall (by simp [Json.chars])
  | .number n => .of_forall fun c hc => ⟨fun h => backslash_not_mem_number n (h ▸ hc), trivial⟩
  | .string s => unticked_quoted s
  | .array items => .plain (by decide) trivial (.append (.of_forall (by simp)) (unticked_items items))
  | .object members => .plain (by decide) trivial (.append (.of_forall (by simp)) (unticked_members members))

theorem unticked_items : ∀ items : List Json, Unticked (Json.itemsChars items)
  | [] => .nil
  | [x] => unticked_chars x
  | x :: y :: rest => .append (.plain (by decide) trivial (unticked_items (y :: rest))) (unticked_chars x)

theorem unticked_members : ∀ members : List (String × Json), Unticked (Json.membersChars members)
  | [] => .nil
  | [(k, v)] => .append (.plain (by decide) trivial (unticked_chars v)) (unticked_quoted k)
  | (k, v) :: m :: rest =>
    .append (.plain (by decide) trivial (.append (.plain (by decide) trivial (unticked_members (m :: rest)))
      (unticked_chars v))) (unticked_quoted k)

end

end Lexeme
end JsonQuery
