import JsonQuery.Proofs.Json.Members
import JsonQuery.Proofs.Json.Strings
import JsonQuery.Proofs.Number.ReadBack

/-! Values read back. What is printed for a value without NaNs, infinities, integers of too many digits and repeated
    keys is read as the value again, as a document and as a literal alike. Values end where their text says, but for
    numbers, after which no character may come that goes on with them; the characters that JSON puts after a value do
    not. -/

namespace JsonQuery

namespace Json

mutual

/-- A value that JSON text can hold: its numbers are finite and are written, and no object has a key twice. -/
def Writable : Json → Prop
  | .null | .bool _ | .string _ => True
  | .number n => n.isFinite = true ∧ n.isWritable = true
  | .array items => WritableItems items
  | .object members => Members.Distinct members ∧ WritableMembers members

/-- Values that JSON text can hold. -/
def WritableItems : List Json → Prop
  | [] => True
  | x :: rest => Writable x ∧ WritableItems rest

/-- Members with values that JSON text can hold. -/
def WritableMembers : List (String × Json) → Prop
  | [] => True
  | (_, v) :: rest => Writable v ∧ WritableMembers rest

end

variable {d : Dialect}

/-! ### What comes first -/

/-- Whatever starts like a value starts with neither a blank nor a closing bracket. -/
theorem head_of_readValue {bound : Nat} {c : Char} {cs : List Char} {r : Json × List Char}
    (h : readValue d bound (c :: cs) = .ok r) : isSpace c = false ∧ c ≠ ']' := by
  have hc : c ∉ [' ', '\t', '\n', '\r', ']'] := by
    intro hc
    simp only [List.mem_cons, List.not_mem_nil, or_false] at hc
    cases bound with
    | zero => cases h
    | succ bound => rcases hc with rfl | rfl | rfl | rfl | rfl <;> cases h
  simp only [List.mem_cons, List.not_mem_nil, or_false, not_or] at hc
  exact ⟨by simp [isSpace, hc], hc.2.2.2.2⟩

theorem skipSpace_cons {c : Char} (h : isSpace c = false) (cs : List Char) :
    skipSpace (c :: cs) = c :: cs := by
  rw [skipSpace, List.dropWhile_cons_of_neg (by simp [h])]

/-! ### Numbers -/

theorem readWord?_of_isDigit {c : Char} (hc : c.isDigit = true) (negative : Bool) (cs : List Char) :
    readWord? d (Numeral.sign negative ++ c :: cs) = none := by
  have hne : ∀ {x : Char}, x.isDigit = false → ¬ x = c := by
    rintro x hx rfl
    rw [hx] at hc
    cases hc
  have hn : ¬ 'n' = c := hne rfl
  have ht : ¬ 't' = c := hne rfl
  have hf : ¬ 'f' = c := hne rfl
  have hN : ¬ 'N' = c := hne rfl
  have hI : ¬ 'I' = c := hne rfl
  have hminus : ¬ '-' = c := hne rfl
  cases negative <;> simp [readWord?, constants, Numeral.sign, List.isPrefixOf, hn, ht, hf, hN, hI, hminus]

theorem isDigit_of_readWhole? {cs : List Char} {r : List Nat × List Char}
    (h : Numeral.readWhole? asciiDigit? cs = some r) : ∃ c ds, cs = c :: ds ∧ c.isDigit = true := by
  cases cs with
  | nil => cases h
  | cons c ds =>
    refine ⟨c, ds, rfl, ?_⟩
    rw [Numeral.readWhole?] at h
    split at h
    next hzero =>
      rw [hzero]
      rfl
    next =>
      split at h
      next d hd => exact isDigit_of_asciiDigit? hd
      next => cases h

/-- A numeral starts with a digit, or with a minus and a digit. -/
theorem head_of_read? {cs : List Char} {r : Numeral × List Char} (h : Numeral.read? asciiDigit? cs = some r) :
    ∃ negative c ds, cs = Numeral.sign negative ++ c :: ds ∧ c.isDigit = true := by
  obtain ⟨r', hwhole, -⟩ := Option.map_eq_some_iff.1 h
  obtain ⟨c, ds, hcs, hc⟩ := isDigit_of_readWhole? hwhole
  have hsign : cs = Numeral.sign (Numeral.readMinus cs).1 ++ (Numeral.readMinus cs).2 := by
    unfold Numeral.readMinus
    split <;> rfl
  exact ⟨_, c, ds, hcs ▸ hsign, hc⟩

theorem readValue_number {n : Number} {cs rest : List Char} (h : Spells cs n) (hn : n.isWritable = true)
    (hrest : NumeralEnds rest) (bound : Nat) : readValue d (bound + 1) (cs ++ rest) = .ok (.number n, rest) := by
  obtain ⟨numeral, hderives, hvalue⟩ := Numeral.derives_of_spells h
  have hread := hderives.read?_append hrest
  have hvalue? : numeral.value? = .ok n := hderives.value?_eq_ok_iff.2 ⟨hvalue, hn⟩
  obtain ⟨negative, c, ds, hcs, hc⟩ := head_of_read? hread
  have hscalar : readScalar d (cs ++ rest) = .ok (.number n, rest) := by
    rw [readScalar, hcs, readWord?_of_isDigit hc, ← hcs, hread]
    simp only [hvalue?]
  rw [← hscalar, hcs]
  cases negative with
  | true => rfl
  | false =>
    show readValue d (bound + 1) (c :: ds) = readScalar d (c :: ds)
    rw [readValue]
    all_goals
      rintro x ⟨⟩
      cases hc

/-! ### Values -/

theorem numeralEnds_cons {c : Char} (h : c = ',' ∨ c = ']' ∨ c = '}') (rest : List Char) :
    NumeralEnds (c :: rest) := by
  rintro x ⟨⟩
  rcases h with rfl | rfl | rfl <;> decide

theorem skipSpace_of_readValue {bound : Nat} {cs : List Char} {r : Json × List Char}
    (h : readValue d bound cs = .ok r) : skipSpace cs = cs ∧ ∀ rest, cs ≠ ']' :: rest := by
  cases cs with
  | nil => exact ⟨rfl, fun rest => nofun⟩
  | cons c cs =>
    obtain ⟨hspace, hbracket⟩ := head_of_readValue h
    exact ⟨skipSpace_cons hspace cs, fun rest hrest => hbracket (List.cons.inj hrest).1⟩

theorem skipSpace_of_readItems {bound : Nat} {cs : List Char} {r : List Json × List Char}
    (h : readItems d bound cs = .ok r) : skipSpace cs = cs ∧ ∀ rest, cs ≠ ']' :: rest := by
  cases bound with
  | zero => cases h
  | succ bound =>
    cases hvalue : readValue d bound cs with
    | ok r' => exact skipSpace_of_readValue hvalue
    | error e =>
      rw [readItems, hvalue] at h
      cases h

theorem readItems_more {x : Json} {bound : Nat} {cs rest : List Char}
    (h : readValue d bound cs = .ok (x, ',' :: rest)) :
    readItems d (bound + 1) cs = (readItems d bound (skipSpace rest)).map fun r => (x :: r.1, r.2) := by
  rw [readItems, h]
  rfl

/-- The items of an array start with neither a blank nor the closing bracket. -/
theorem readValue_array {bound : Nat} {cs rest : List Char} {items : List Json}
    (h : readItems d bound cs = .ok (items, rest)) :
    readValue d (bound + 1) ('[' :: cs) = .ok (.array items, rest) := by
  obtain ⟨hskip, hbracket⟩ := skipSpace_of_readItems h
  rw [readValue, hskip]
  split
  next more => exact absurd rfl (hbracket more)
  next =>
    rw [h]
    rfl

theorem head_membersChars (k : String) (v : Json) (members : List (String × Json)) :
    ∃ cs, membersChars ((k, v) :: members) = '\x22' :: cs := by
  cases members <;> exact ⟨_, rfl⟩

theorem skipSpace_membersChars (k : String) (v : Json) (members : List (String × Json)) (rest : List Char) :
    skipSpace (membersChars ((k, v) :: members) ++ rest) = membersChars ((k, v) :: members) ++ rest := by
  obtain ⟨cs, hcs⟩ := head_membersChars k v members
  rw [hcs]
  rfl

theorem readString_key (k : String) (cs : List Char) :
    readString (k.toList.flatMap quotedChar ++ ['\x22'] ++ ':' :: cs) = .ok (k, ':' :: cs) := by
  rw [List.append_assoc]
  exact readString_quoted k (':' :: cs)

theorem readMembers_last {k : String} {v : Json} {bound : Nat} {cs rest : List Char}
    (h : readValue d bound cs = .ok (v, '}' :: rest)) :
    readMembers d (bound + 1) (quotedString k ++ ':' :: cs) = .ok ([(k, v)], rest) := by
  have hvalue : readValue d bound (skipSpace cs) = .ok (v, '}' :: rest) := by
    rw [(skipSpace_of_readValue h).1, h]
  have hcolon : skipSpace (':' :: cs) = ':' :: cs := rfl
  rw [quotedString, List.cons_append, readMembers, readString_key]
  simp only [hcolon, hvalue]
  rfl

theorem readMembers_more {k : String} {v : Json} {bound : Nat} {cs rest : List Char}
    (h : readValue d bound cs = .ok (v, ',' :: rest)) :
    readMembers d (bound + 1) (quotedString k ++ ':' :: cs) =
      (readMembers d bound (skipSpace rest)).map fun r => ((k, v) :: r.1, r.2) := by
  have hvalue : readValue d bound (skipSpace cs) = .ok (v, ',' :: rest) := by
    rw [(skipSpace_of_readValue h).1, h]
  have hcolon : skipSpace (':' :: cs) = ':' :: cs := rfl
  rw [quotedString, List.cons_append, readMembers, readString_key]
  simp only [hcolon, hvalue]
  rfl

mutual

theorem readValue_chars : ∀ {v : Json} {bound : Nat} {rest : List Char}, Writable v →
    2 * v.chars.length < bound → NumeralEnds rest → readValue d bound (v.chars ++ rest) = .ok (v, rest)
  | .null, bound + 1, _, _, _, _ => rfl
  | .bool true, bound + 1, _, _, _, _ => rfl
  | .bool false, bound + 1, _, _, _, _ => rfl
  | .number n, bound + 1, _, h, _, hrest => readValue_number (spells_number h.1) h.2 hrest bound
  | .string s, bound + 1, rest, _, _, _ => by
    show (readString (s.toList.flatMap quotedChar ++ ['\x22'] ++ rest)).map _ = _
    rw [List.append_assoc]
    show (readString (s.toList.flatMap quotedChar ++ '\x22' :: rest)).map _ = _
    rw [readString_quoted]
    rfl
  | .array [], bound + 1, rest, h, hbound, hrest => rfl
  | .array (x :: items), bound + 1, rest, h, hbound, hrest => by
    have hitems : readItems d bound (itemsChars (x :: items) ++ ']' :: rest) = .ok (x :: items, rest) := by
      refine readItems_chars h ?_
      simp only [chars, List.length_cons, List.length_append, List.length_nil] at hbound
      omega
    have hchars : chars (.array (x :: items)) ++ rest = '[' :: (itemsChars (x :: items) ++ ']' :: rest) := by
      rw [chars, List.cons_append, List.append_assoc]
      rfl
    rw [hchars]
    exact readValue_array hitems
  | .object [], bound + 1, rest, h, hbound, hrest => rfl
  | .object ((k, v) :: members), bound + 1, rest, ⟨hdistinct, h⟩, hbound, hrest => by
    have hmembers : readMembers d bound (membersChars ((k, v) :: members) ++ '}' :: rest) =
      .ok ((k, v) :: members, rest) := by
      refine readMembers_chars h ?_
      simp only [chars, List.length_cons, List.length_append, List.length_nil] at hbound
      omega
    have hchars : chars (.object ((k, v) :: members)) ++ rest
        = '{' :: (membersChars ((k, v) :: members) ++ '}' :: rest) := by
      rw [chars, List.cons_append, List.append_assoc]
      rfl
    obtain ⟨cs, hcs⟩ := head_membersChars k v members
    rw [hcs] at hmembers
    rw [hchars, hcs]
    show (readMembers d bound ('\x22' :: cs ++ '}' :: rest)).map _ = _
    rw [hmembers]
    show Except.ok (Value.object (Members.ofPairs ((k, v) :: members)), rest) = _
    rw [Members.ofPairs_of_distinct hdistinct]

theorem readItems_chars : ∀ {x : Json} {items : List Json} {bound : Nat} {rest : List Char},
    WritableItems (x :: items) → 2 * (itemsChars (x :: items)).length + 1 < bound →
    readItems d bound (itemsChars (x :: items) ++ ']' :: rest) = .ok (x :: items, rest)
  | x, [], bound + 1, rest, ⟨hx, _⟩, hbound => by
    have hvalue : readValue d bound (x.chars ++ ']' :: rest) = .ok (x, ']' :: rest) :=
      readValue_chars hx (by simp only [itemsChars] at hbound; omega) (numeralEnds_cons (by simp) rest)
    rw [itemsChars, readItems, hvalue]
    rfl
  | x, y :: items, bound + 1, rest, ⟨hx, hitems⟩, hbound => by
    simp only [itemsChars, List.length_append, List.length_cons] at hbound
    have hvalue : readValue d bound (x.chars ++ ',' :: (itemsChars (y :: items) ++ ']' :: rest)) =
        .ok (x, ',' :: (itemsChars (y :: items) ++ ']' :: rest)) :=
      readValue_chars hx (by omega) (numeralEnds_cons (by simp) _)
    have hrest : readItems d bound (itemsChars (y :: items) ++ ']' :: rest) = .ok (y :: items, rest) :=
      readItems_chars hitems (by omega)
    rw [itemsChars, List.append_assoc, List.cons_append, readItems_more hvalue, (skipSpace_of_readItems hrest).1, hrest]
    rfl

theorem readMembers_chars :
    ∀ {k : String} {v : Json} {members : List (String × Json)} {bound : Nat} {rest : List Char},
    WritableMembers ((k, v) :: members) → 2 * (membersChars ((k, v) :: members)).length + 1 < bound →
    readMembers d bound (membersChars ((k, v) :: members) ++ '}' :: rest) = .ok ((k, v) :: members, rest)
  | k, v, [], bound + 1, rest, ⟨hv, _⟩, hbound => by
    simp only [membersChars, List.length_append, List.length_cons] at hbound
    have hvalue : readValue d bound (v.chars ++ '}' :: rest) = .ok (v, '}' :: rest) :=
      readValue_chars hv (by omega) (numeralEnds_cons (by simp) rest)
    rw [membersChars, List.append_assoc, List.cons_append, readMembers_last hvalue]
  | k, v, (l, w) :: members, bound + 1, rest, ⟨hv, hmembers⟩, hbound => by
    simp only [membersChars, List.length_append, List.length_cons] at hbound
    have hvalue : readValue d bound (v.chars ++ ',' :: (membersChars ((l, w) :: members) ++ '}' :: rest)) =
        .ok (v, ',' :: (membersChars ((l, w) :: members) ++ '}' :: rest)) :=
      readValue_chars hv (by omega) (numeralEnds_cons (by simp) _)
    have hrest : readMembers d bound (membersChars ((l, w) :: members) ++ '}' :: rest) =
      .ok ((l, w) :: members, rest) :=
      readMembers_chars hmembers (by omega)
    rw [membersChars, List.append_assoc, List.cons_append, List.append_assoc, List.cons_append,
      readMembers_more hvalue, skipSpace_membersChars, hrest]
    rfl

end

/-! ### Whole texts -/

/-- A text that is one value, with no blanks around it. -/
theorem read_of_readValue {cs : List Char} {v : Json} (h : readValue d (2 * cs.length + 1) cs = .ok (v, [])) :
    read d cs = .ok v := by
  have hmark : ¬ cs.head? = some '\ufeff' := by
    intro hhead
    obtain ⟨ds, hds⟩ := List.head?_eq_some_iff.1 hhead
    rw [hds] at h
    cases h
  have hwhole : readWhole d cs = .ok v := by
    rw [readWhole, if_neg hmark, (skipSpace_of_readValue h).1, h]
    rfl
  rw [read, hwhole]

/-- The text of a number is read as the number. -/
theorem read_number {n : Number} {cs : List Char} (h : Spells cs n) (hn : n.isWritable = true) :
    read d cs = .ok (.number n) := by
  have hends : NumeralEnds [] := nofun
  have hall : readValue d (2 * cs.length + 1) (cs ++ []) = .ok (.number n, []) := readValue_number h hn hends _
  refine read_of_readValue ?_
  rwa [List.append_nil] at hall

/-- The text of a value is read as the value. -/
theorem read_text {v : Json} (h : Writable v) : read d (text v).toList = .ok v := by
  rw [text, String.toList_ofList]
  refine read_of_readValue ?_
  have hall : readValue d (2 * v.chars.length + 1) (v.chars ++ []) = .ok (v, []) :=
    readValue_chars h (by omega) nofun
  rwa [List.append_nil] at hall

end Json
end JsonQuery
