import JsonQuery.Json.Printer
import JsonQuery.Json.Reader

/-! Strings in JSON text. A character can be spelled by itself, by an escape with a letter or by an escape with
    its code, which takes two halves for a character beyond four digits. Whatever the spelling, a string is read
    back from it, whatever follows the closing quote. What is printed for a string is one of its spellings. -/

namespace JsonQuery.Json

/-! ### Spellings -/

/-- The spellings of a character in JSON text. -/
inductive CharText (c : Char) : List Char → Prop
  | plain : c ≠ '\x22' → c ≠ '\\' → 0x20 ≤ c.toNat → CharText c [c]
  | letter {l : Char} : escapedChar? l = some c → CharText c ['\\', l]
  | code {d₁ d₂ d₃ d₄ : Char} : hexQuad? d₁ d₂ d₃ d₄ = some c.toNat → CharText c ['\\', 'u', d₁, d₂, d₃, d₄]
  | halves {d₁ d₂ d₃ d₄ e₁ e₂ e₃ e₄ : Char} {high low : Nat} : hexQuad? d₁ d₂ d₃ d₄ = some high →
    hexQuad? e₁ e₂ e₃ e₄ = some low → 0xd800 ≤ high ∧ high ≤ 0xdbff → 0xdc00 ≤ low ∧ low ≤ 0xdfff →
    c.toNat = 0x10000 + 1024 * (high - 0xd800) + (low - 0xdc00) →
    CharText c ['\\', 'u', d₁, d₂, d₃, d₄, '\\', 'u', e₁, e₂, e₃, e₄]

/-- The spellings of characters one after the other. -/
inductive CharsText : List Char → List Char → Prop
  | nil : CharsText [] []
  | cons {c : Char} {cs s text : List Char} : CharText c cs → CharsText s text → CharsText (c :: s) (cs ++ text)

/-- The spellings of a string in JSON text, with their quotes. -/
inductive StringText (s : String) : List Char → Prop
  | quoted {body : List Char} : CharsText s.toList body → StringText s ('\x22' :: (body ++ ['\x22']))

theorem hexDigits_of_control :
    ∀ n < 32, ∃ a b, Text.hexDigits 4 n = ['0', '0', a, b] ∧ hexQuad? '0' '0' a b = some n := by
  have h : ∀ n : Fin 32, ∃ a b, Text.hexDigits 4 n.val = ['0', '0', a, b] ∧
      hexQuad? '0' '0' a b = some n.val := by
    intro n
    refine ⟨(Text.hexDigits 4 n.val)[2]!, (Text.hexDigits 4 n.val)[3]!, ?_⟩
    revert n
    decide +kernel
  exact fun n hn => h ⟨n, hn⟩

/-- What is printed for a character is one of its spellings. -/
theorem charText_quotedChar (c : Char) : CharText c (quotedChar c) := by
  unfold quotedChar
  iterate 7
    split
    next h =>
      subst h
      exact .letter rfl
  split
  next h =>
    obtain ⟨a, b, hdigits, hquad⟩ := hexDigits_of_control c.toNat h
    rw [hdigits]
    exact .code hquad
  next hquote hback _ _ _ _ _ h => exact .plain hquote hback (Nat.le_of_not_lt h)

theorem charsText_quoted : ∀ s : List Char, CharsText s (s.flatMap quotedChar) := by
  intro s
  induction s with
  | nil => exact .nil
  | cons c s ih => exact .cons (charText_quotedChar c) ih

theorem stringText_quoted (s : String) : StringText s (quotedString s) := .quoted (charsText_quoted s.toList)

/-! ### Escapes by code -/

/-- A character by its code, which is no half of a pair, so that it does not matter what follows. -/
theorem readUnicode_of_code {d₁ d₂ d₃ d₄ c : Char} (h : hexQuad? d₁ d₂ d₃ d₄ = some c.toNat) (x : Char)
    (rest : List Char) : readUnicode (d₁ :: d₂ :: d₃ :: d₄ :: x :: rest) = .ok (c, 4) := by
  have hvalid : c.toNat < 0xd800 ∨ 0xdfff < c.toNat := c.valid.imp id And.left
  have hcode : charOfCode c.toNat = c := by rw [charOfCode, if_neg (by omega), Char.ofNat_toNat]
  simp only [readUnicode, h]
  split
  · rw [if_neg (by omega), hcode]
  · rw [hcode]

theorem readUnicode_of_halves {d₁ d₂ d₃ d₄ e₁ e₂ e₃ e₄ c : Char} {high low : Nat}
    (hd : hexQuad? d₁ d₂ d₃ d₄ = some high) (he : hexQuad? e₁ e₂ e₃ e₄ = some low)
    (hhigh : 0xd800 ≤ high ∧ high ≤ 0xdbff) (hlow : 0xdc00 ≤ low ∧ low ≤ 0xdfff)
    (hc : c.toNat = 0x10000 + 1024 * (high - 0xd800) + (low - 0xdc00)) (x : Char) (rest : List Char) :
    readUnicode (d₁ :: d₂ :: d₃ :: d₄ :: '\\' :: 'u' :: e₁ :: e₂ :: e₃ :: e₄ :: x :: rest) = .ok (c, 10) := by
  have hjoin : joinSurrogates high low = c := by rw [joinSurrogates, ← hc, Char.ofNat_toNat]
  simp only [readUnicode, hd, he]
  rw [if_pos hhigh, if_pos hlow, hjoin]

/-! ### Characters -/

theorem readEscape_letter {l c : Char} (h : escapedChar? l = some c) (opening : Nat) (rest : List Char) :
    readEscape opening (l :: rest) = .ok (c, 1) := by
  unfold readEscape
  split
  next hnil => cases hnil
  next hu =>
    cases hu
    cases h
  next hl =>
    cases hl
    rw [h]

theorem readChars_escape {opening n : Nat} {c d : Char} (ds : List Char) {rest : List Char}
    (h : readEscape opening (c :: ds ++ rest) = .ok (d, n)) (hn : n = ds.length + 1) :
    readChars opening 0 ('\\' :: (c :: ds ++ rest)) =
      (readChars opening 0 rest).map fun (cs, more) => (d :: cs, more) := by
  have hskip : ∀ ds : List Char, readChars opening ds.length (ds ++ rest) = readChars opening 0 rest := by
    intro ds
    induction ds with
    | nil => rfl
    | cons c ds ih => exact ih
  rw [readChars, if_neg (by decide), if_pos rfl, h, hn]
  show Except.map _ (readChars opening (c :: ds).length (c :: ds ++ rest)) = _
  rw [hskip]

/-- A character is read back from each of its spellings, if something follows. -/
theorem readChars_charText {c : Char} {cs : List Char} (h : CharText c cs) (opening : Nat) (x : Char)
    (rest : List Char) : readChars opening 0 (cs ++ x :: rest) =
      (readChars opening 0 (x :: rest)).map fun (ds, more) => (c :: ds, more) := by
  cases h with
  | plain hquote hback hcode =>
    show readChars opening 0 (c :: x :: rest) = _
    conv => lhs; unfold readChars
    rw [if_neg hquote, if_neg hback, if_neg (Nat.not_lt.2 hcode)]
  | letter hl => exact readChars_escape [] (readEscape_letter hl opening _) rfl
  | @code d₁ d₂ d₃ d₄ hquad =>
    refine readChars_escape [d₁, d₂, d₃, d₄] ?_ rfl
    show (readUnicode (d₁ :: d₂ :: d₃ :: d₄ :: x :: rest)).map _ = _
    rw [readUnicode_of_code hquad]
    rfl
  | @halves d₁ d₂ d₃ d₄ e₁ e₂ e₃ e₄ high low hd he hhigh hlow hc =>
    refine readChars_escape [d₁, d₂, d₃, d₄, '\\', 'u', e₁, e₂, e₃, e₄] ?_ rfl
    show (readUnicode (d₁ :: d₂ :: d₃ :: d₄ :: '\\' :: 'u' :: e₁ :: e₂ :: e₃ :: e₄ :: x :: rest)).map _ = _
    rw [readUnicode_of_halves hd he hhigh hlow hc]
    rfl

theorem readChars_charsText {s text : List Char} (h : CharsText s text) (opening : Nat) (rest : List Char) :
    readChars opening 0 (text ++ '\x22' :: rest) = .ok (s, rest) := by
  induction h with
  | nil => rfl
  | @cons c cs s text hc _ ih =>
    obtain ⟨x, more, hmore⟩ : ∃ x more, text ++ '\x22' :: rest = x :: more := by
      cases text with
      | nil => exact ⟨_, _, rfl⟩
      | cons y ys => exact ⟨_, _, rfl⟩
    rw [List.append_assoc, hmore, readChars_charText hc, ← hmore, ih]
    rfl

/-- A string is read back from each of its spellings, whatever follows. -/
theorem readString_charsText {s : String} {text : List Char} (h : CharsText s.toList text) (rest : List Char) :
    readString (text ++ '\x22' :: rest) = .ok (s, rest) := by
  unfold readString
  rw [readChars_charsText h]
  simp [Except.map]

/-- What is printed for a string reads back as the string, whatever follows. -/
theorem readString_quoted (s : String) (rest : List Char) :
    readString (s.toList.flatMap quotedChar ++ '\x22' :: rest) = .ok (s, rest) :=
  readString_charsText (charsText_quoted s.toList) rest

/-! ### Hexadecimal digits -/

theorem ne_of_hexDigit? {c : Char} {n : Nat} (h : hexDigit? c = some n) : c ≠ '\\' ∧ c ≠ '\x22' := by
  constructor
  · rintro rfl
    cases h
  · rintro rfl
    cases h

theorem ne_of_hexQuad? {d₁ d₂ d₃ d₄ : Char} {n : Nat} (h : hexQuad? d₁ d₂ d₃ d₄ = some n) :
    ∀ d ∈ [d₁, d₂, d₃, d₄], d ≠ '\\' ∧ d ≠ '\x22' := by
  simp only [hexQuad?, bind, Option.bind_eq_some_iff] at h
  obtain ⟨n₁, h₁, n₂, h₂, n₃, h₃, n₄, h₄, -⟩ := h
  simp [ne_of_hexDigit? h₁, ne_of_hexDigit? h₂, ne_of_hexDigit? h₃, ne_of_hexDigit? h₄]

end JsonQuery.Json
