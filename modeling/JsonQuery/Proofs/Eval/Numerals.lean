import JsonQuery.Proofs.Eval.Containment
import JsonQuery.Proofs.Expr.Embedding
import JsonQuery.Proofs.Number.Grammar
import JsonQuery.Proofs.Number.Magnitude
import JsonQuery.Proofs.Number.Range

/-! Texts as numbers. `to_number` gives for a text the number of the numeral that it spells over the digits of all
    scripts, and null if it spells none. So it takes all JSON numbers, and besides them the texts that are numerals but
    for digits that are not ASCII. A JSON number is under `to_number` the number that it is as a literal, of the same
    kind, unless it is an integer past the doubles; such an integer becomes an infinity, and to write an integer and
    convert it back gives it again just if it is not past them. -/

namespace JsonQuery

open Numeral (Derives)

variable {ρ : Type}

namespace Builtin

/-- What a number that is spelled in a text is converted to. -/
def converted : Number → Number
  | .int i => integerOrInfinity i
  | .double x => .double x

theorem integerOrInfinity_of_lt {i : Int} (h : i.natAbs < Double.leastOverflow) : integerOrInfinity i = .int i := by
  have hdouble : Double.ofInt? i ≠ none := fun hnone => Nat.not_le_of_lt h ((Double.ofInt?_eq_none_iff i).1 hnone)
  obtain ⟨x, hx⟩ := Option.ne_none_iff_exists'.1 hdouble
  rw [integerOrInfinity, hx]

theorem integerOrInfinity_of_le {i : Int} (h : Double.leastOverflow ≤ i.natAbs) :
    integerOrInfinity i = .double (.infinite (decide (i < 0))) := by
  rw [integerOrInfinity, (Double.ofInt?_eq_none_iff i).2 h]

theorem integerOrInfinity_eq_iff (i : Int) : integerOrInfinity i = .int i ↔ i.natAbs < Double.leastOverflow := by
  refine ⟨fun heq => Nat.lt_of_not_le fun h => ?_, integerOrInfinity_of_lt⟩
  rw [integerOrInfinity_of_le h] at heq
  cases heq

/-- A number is kept unless it is an integer past the doubles. -/
theorem converted_eq_iff (x : Number) :
    converted x = x ↔ ∀ i, x = .int i → i.natAbs < Double.leastOverflow := by
  cases x with
  | int i =>
    rw [converted, integerOrInfinity_eq_iff]
    exact ⟨fun h j hj => by cases hj; exact h, fun h => h i rfl⟩
  | double x => exact iff_of_true rfl nofun

/-- A text is converted to what it spells as a numeral. -/
theorem numberOfText_of_derives {cs : List Char} {n : Numeral} (h : Derives Text.decimalDigit? cs n) :
    (numberOfText cs : Value ρ) = .number (converted n.value) := by
  rw [numberOfText, (Numeral.read?_eq_some_iff Numeral.extendsAscii_decimalDigit).2 h]
  dsimp only
  cases n.value <;> rfl

/-- A text that spells no numeral is not converted. -/
theorem numberOfText_eq_null {cs : List Char} (h : ∀ n, ¬ Derives Text.decimalDigit? cs n) :
    (numberOfText cs : Value ρ) = .null := by
  rw [numberOfText]
  split
  next n hread => exact absurd ((Numeral.read?_eq_some_iff Numeral.extendsAscii_decimalDigit).1 hread) (h n)
  next => rfl

theorem numberOfText_ne_null_iff {cs : List Char} :
    (numberOfText cs : Value ρ) ≠ .null ↔ ∃ n, Derives Text.decimalDigit? cs n := by
  constructor
  · intro hne
    by_contra h
    exact hne (numberOfText_eq_null (not_exists.1 h))
  · rintro ⟨n, hn⟩
    rw [numberOfText_of_derives hn]
    exact nofun

end Builtin

namespace Expr

variable [BEq ρ] {env : Environment ρ} {place : Place} {source : Expr} {v w : Value ρ} {s : String} {n : Numeral}

theorem get?_to_number (hfunctions : env.functions.HasBuiltins ["to_number"]) :
    Members.get? "to_number" env.functions =
      some (Builtin.unary "to_number" [.any] fun v => .ok (Builtin.toNumber v)) :=
  hfunctions.get?_of_mem_all (f := Builtin.unary "to_number" [.any] fun v => .ok (Builtin.toNumber v)) (by decide)
    (by simp only [Builtin.all, List.mem_cons, true_or, or_true]) rfl

theorem valueAt_to_number (hfunctions : env.functions.HasBuiltins ["to_number"])
    (hsource : valueAt env source (place.child 0) v = .ok w) (hw : w.kind ≠ .expression) :
    valueAt env (call "to_number" [source]) place v = .ok (Builtin.toNumber w) := by
  rw [valueAt_call_any (get?_to_number hfunctions) hsource hw]

theorem valueAt_to_string (hfunctions : env.functions.HasBuiltins ["to_string"])
    (hsource : valueAt env source (place.child 0) v = .ok w) (hw : w.kind ≠ .expression) :
    valueAt env (call "to_string" [source]) place v = Builtin.toString w :=
  valueAt_call_any (hfunctions.get?_of_mem_all (f := Builtin.unary "to_string" [.any] Builtin.toString) (by decide)
    (by simp only [Builtin.all, List.mem_cons, true_or, or_true]) rfl) hsource hw

/-- `to_number` of a document that is a string. -/
theorem search_to_number (s : String) {limit : Int} (hlimit : 4 ≤ limit) :
    search "to_number(@)" (.string s) limit = .ok (Builtin.numberOfText s.toList) := by
  have hparse : parse "to_number(@)" limit = .ok (call "to_number" [current]) :=
    parse_call_current (f := "to_number") rfl hlimit
  have hplace : ¬ (Environment.plain Builtin.table limit).limit < (Place.root.child 0).level + 1 := by
    show ¬ limit < (0 + 1 : Nat) + 1
    omega
  have hvalue : evaluate (.plain Builtin.table limit) (call "to_number" [current]) (.string s) =
      .ok (Builtin.toNumber (.string s)) :=
    valueAt_to_number (FunctionTable.hasBuiltins_plain limit _) (valueAt_current hplace _) nofun
  rw [search_eq, hparse]
  dsimp only
  rw [hvalue]
  rfl

/-! ### JSON numbers -/

/-- The literal of a JSON number. -/
theorem parse_literal_numeral (h : Derives asciiDigit? s.toList n) (hn : n.value.isWritable = true) {limit : Int}
    (hlimit : 1 ≤ limit) : parse (literalText s) limit = .ok (literal (.number n.value)) := by
  refine parse_literal (.of_forall fun c hc => ⟨?_, trivial⟩) (Json.read_number h.spells hn) hlimit
  rintro rfl
  exact absurd (h.characters '\\' hc) (by decide)

theorem search_literal_numeral (h : Derives asciiDigit? s.toList n) (hn : n.value.isWritable = true) {limit : Int}
    (hlimit : 1 ≤ limit) (document : Json) : search (literalText s) document limit = .ok (.number n.value) := by
  rw [search_eq, parse_literal_numeral h hn hlimit]
  dsimp only
  rw [evaluate_literal _ _ hlimit]
  rfl

/-- What a text that spells a JSON number is converted to. -/
theorem valueAt_to_number_of_derives (hfunctions : env.functions.HasBuiltins ["to_number"])
    (h : Derives asciiDigit? s.toList n) (hsource : valueAt env source (place.child 0) v = .ok (.string s)) :
    valueAt env (call "to_number" [source]) place v = .ok (.number (Builtin.converted n.value)) := by
  rw [valueAt_to_number hfunctions hsource nofun, Builtin.toNumber, Builtin.numberOfText_of_derives h.decimal]

/-- An integer within the doubles can be written. -/
theorem isWritable_of_lt_leastOverflow {i : Int} (h : i.natAbs < Double.leastOverflow) :
    (Number.int i).isWritable = true :=
  Number.isWritable_int.2 (Nat.lt_of_lt_of_le h (Double.leastOverflow_le_pow (by decide)))

theorem isWritable_pow {k : Nat} (h : k < digitLimit) : (Number.int (Int.pow 10 k)).isWritable = true := by
  have hpow : (Int.pow 10 k).natAbs = 10 ^ k := Int.natAbs_pow 10 k
  rw [Number.isWritable_int, hpow]
  exact Nat.pow_lt_pow_right (by decide) h

/-- An integer that is written and converted back. -/
theorem valueAt_to_number_to_string (hfunctions : env.functions.HasBuiltins ["to_number", "to_string"]) {i : Int}
    (hi : (Number.int i).isWritable = true) (hsource : valueAt env source ((place.child 0).child 0) v = .ok (.int i)) :
    valueAt env (call "to_number" [call "to_string" [source]]) place v =
      .ok (.number (Builtin.integerOrInfinity i)) := by
  have hwritten := valueAt_to_string (hfunctions.mono (by simp)) hsource nofun
  rw [Builtin.toString_int, if_pos hi] at hwritten
  obtain ⟨n, hn, hvalue⟩ := Numeral.derives_of_spells (spells_int i)
  rw [← String.toList_ofList (l := intText i)] at hn
  rw [valueAt_to_number_of_derives (hfunctions.mono (by simp)) hn hwritten, hvalue]
  rfl

/-- A text that spells a JSON number, but for an integer of too many digits to be read, has as a literal the number that
    it spells, and under `to_number` the same number of the same kind, unless it is an integer past the doubles: then it
    is an infinity of the same sign. An integer that is written by `to_string` and converted back is the same again just
    if it is not past the doubles. -/
theorem valueAt_to_number_numeral (hfunctions : env.functions.HasBuiltins ["to_number", "to_string"]) :
    (∀ s n, Derives asciiDigit? s.toList n → n.value.isWritable = true → ∀ limit, 1 ≤ limit →
      ∃ e, parse (literalText s) limit = .ok e ∧ ∀ source place v,
        valueAt env source (place.child 0) v = .ok (.string s) →
        valueAt env e place v = .ok (.number n.value) ∧
        (valueAt env (call "to_number" [source]) place v = valueAt env e place v ↔
          ∀ i, n.value = .int i → i.natAbs < Double.leastOverflow) ∧
        ∀ i, n.value = .int i → Double.leastOverflow ≤ i.natAbs →
          valueAt env (call "to_number" [source]) place v = .ok (.number (.double (.infinite (decide (i < 0)))))) ∧
    ∀ i source place v, valueAt env source ((place.child 0).child 0) v = .ok (.int i) →
      (valueAt env (call "to_number" [call "to_string" [source]]) place v = .ok (.int i) ↔
        i.natAbs < Double.leastOverflow) := by
  constructor
  · intro s n hs hn limit hlimit
    refine ⟨_, parse_literal_numeral hs hn hlimit, fun source place v hsource => ?_⟩
    have hplace := Place.not_tooDeep_of_child (not_tooDeep_of_valueAt hsource)
    have hliteral : valueAt env (literal (.number n.value)) place v = .ok (.number n.value) :=
      valueAt_literal hplace _ v
    have hnumber := valueAt_to_number_of_derives (hfunctions.mono (by simp)) hs hsource
    refine ⟨hliteral, ?_, fun i hi hpast => ?_⟩
    · rw [hnumber, hliteral, Except.ok.injEq, Value.number.injEq, Builtin.converted_eq_iff]
    · rw [hnumber, hi, Builtin.converted, Builtin.integerOrInfinity_of_le hpast]
  · intro i source place v hsource
    cases hi : (Number.int i).isWritable with
    | true =>
      rw [valueAt_to_number_to_string hfunctions hi hsource, Except.ok.injEq]
      exact Value.number.injEq _ _ ▸ Builtin.integerOrInfinity_eq_iff i
    | false =>
      -- what cannot be written is past the doubles, and the call fails with its argument
      refine iff_of_false (fun h => ?_) fun h =>
        Bool.false_ne_true (hi.symm.trans (isWritable_of_lt_leastOverflow h))
      have hwritten := valueAt_to_string (hfunctions.mono (by simp)) hsource nofun
      rw [Builtin.toString_int, hi, if_neg Bool.false_ne_true] at hwritten
      have hroom := Place.not_tooDeep_of_child (Place.not_tooDeep_of_child (not_tooDeep_of_valueAt hsource))
      rw [valueAt_call_error (get?_to_number (hfunctions.mono (by simp))) hroom hwritten nofun] at h
      cases h

/-- The minus of a zero is lost both ways, and no digit of an integer that is not a double is lost. -/
theorem valueAt_to_number_minus_zero :
    (∃ e, parse (literalText "-0") 1 = .ok e ∧ evaluate (.plain Builtin.table 3) e (.string "-0") = .ok (.int 0) ∧
      evaluate (.plain Builtin.table 3) (call "to_number" [current]) (.string "-0") = .ok (.int 0)) ∧
    evaluate (.plain Builtin.table 3) (call "to_number" [call "to_string" [current]]) (.int (Int.pow 2 53 + 1)) =
      .ok (.int (Int.pow 2 53 + 1)) := by
  have hfunctions := FunctionTable.hasBuiltins_plain 3 ["to_number", "to_string"]
  obtain ⟨hliteral, hwritten⟩ := valueAt_to_number_numeral hfunctions
  have hzero : Derives asciiDigit? "-0".toList ⟨true, [0], [], none⟩ := .parts .minus .zero .absent .absent
  simp only [evaluate_eq_valueAt]
  constructor
  · obtain ⟨e, hparse, hagree⟩ := hliteral "-0" _ hzero (Number.isWritable_digit (by decide)) 1 (Int.le_refl 1)
    obtain ⟨hvalue, hsame, -⟩ := hagree current .root (.string "-0") (valueAt_current (by decide) _)
    refine ⟨e, hparse, hvalue, (hsame.2 ?_).trans hvalue⟩
    intro i hi
    cases hi
    decide +kernel
  · exact (hwritten (Int.pow 2 53 + 1) current .root _ (valueAt_current (by decide) _)).2 (by decide +kernel)

/-- The least power of ten that is past the doubles, written out. -/
def enormousText : String := String.ofList ('1' :: List.replicate 309 '0')

/-- As a literal the text is the power of ten, under `to_number` it is infinite. -/
theorem search_to_number_enormous :
    search (literalText enormousText) (.string enormousText) 128 = .ok (.int (Int.pow 10 309)) ∧
    search "to_number(@)" (.string enormousText) 128 = .ok (.number (.double (.infinite false))) := by
  have hdigits : '1' :: List.replicate 309 '0' = intText (Int.pow 10 309) := by decide +kernel
  have htext : enormousText.toList = intText (Int.pow 10 309) := String.toList_ofList.trans hdigits
  have hsign : decide (Int.pow 10 309 < 0) = false := by decide +kernel
  obtain ⟨n, hn, hvalue⟩ := Numeral.derives_of_spells (spells_int (Int.pow 10 309))
  rw [← htext] at hn
  constructor
  · have hwritable : n.value.isWritable = true := by
      rw [hvalue]
      exact isWritable_pow (by decide)
    rw [search_literal_numeral hn hwritable (by decide), hvalue, Value.int]
  · rw [search_to_number _ (by decide), Builtin.numberOfText_of_derives hn.decimal, hvalue, Builtin.converted,
      Builtin.integerOrInfinity_of_le (by decide +kernel), hsign]

/-! ### Other texts -/

/-- `to_number` gives a number for the texts that the grammar of numerals derives over the digits of all scripts, and
    null for all others; the JSON numbers are those of them that are ASCII. -/
theorem valueAt_to_number_accepts (hfunctions : env.functions.HasBuiltins ["to_number"])
    (hsource : valueAt env source (place.child 0) v = .ok (.string s)) :
    ∃ w, valueAt env (call "to_number" [source]) place v = .ok w ∧
      (w ≠ .null ↔ ∃ n, Derives Text.decimalDigit? s.toList n) ∧
      ((∃ n, Derives asciiDigit? s.toList n) ↔ w ≠ .null ∧ ∀ c ∈ s.toList, c.toNat < 128) := by
  have haccepts : (Builtin.toNumber (.string s) : Value ρ) ≠ .null ↔ ∃ n, Derives Text.decimalDigit? s.toList n :=
    Builtin.numberOfText_ne_null_iff
  refine ⟨_, valueAt_to_number hfunctions hsource nofun, haccepts, ?_⟩
  rw [haccepts, ← exists_and_right]
  exact exists_congr fun n => Numeral.derives_ascii_iff Numeral.extendsAscii_decimalDigit

/-- A numeral must be the whole text: a line feed after it is not overlooked. -/
theorem valueAt_to_number_line_feed :
    evaluate (.plain Builtin.table 2) (call "to_number" [current]) (.string "1\n") = .ok .null := by
  have hnone : ¬ ∃ n, Derives Text.decimalDigit? "1\n".toList n := by
    rintro ⟨n, hn⟩
    have hread := (Numeral.read?_eq_some_iff Numeral.extendsAscii_decimalDigit).2 hn
    have hrest : Numeral.read? Text.decimalDigit? "1\n".toList = some (⟨false, [1], [], none⟩, ['\n']) := by
      decide +kernel
    rw [hrest] at hread
    cases hread
  have hsource : valueAt (.plain Builtin.table 2) current (Place.root.child 0) (.string "1\n" : Json) =
      .ok (.string "1\n") := valueAt_current (by decide) _
  obtain ⟨w, hw, haccepts, -⟩ := valueAt_to_number_accepts (FunctionTable.hasBuiltins_plain 2 _) hsource
  rw [evaluate_eq_valueAt, hw, not_not.1 fun hne => hnone (haccepts.1 hne)]

/-- An Arabic digit after an ASCII digit is taken, although no JSON number has it. -/
theorem search_to_number_arabic :
    search "to_number(@)" (.string "1٣") 128 = .ok (.int 13) ∧ ¬ ∃ n, Derives asciiDigit? "1٣".toList n := by
  have hwide : Derives Text.decimalDigit? "1٣".toList ⟨false, [1, 3], [], none⟩ :=
    .parts .absent (.digits (by decide) rfl (.cons (by decide) .nil)) .absent .absent
  have hsmall : Builtin.integerOrInfinity 13 = .int 13 := Builtin.integerOrInfinity_of_lt (by decide +kernel)
  constructor
  · rw [search_to_number _ (by decide), Builtin.numberOfText_of_derives hwide]
    exact congrArg (Except.ok ∘ Value.number) hsmall
  · rintro ⟨n, hn⟩
    exact absurd (hn.ascii '٣' (by decide)) (by decide)

end Expr
end JsonQuery
