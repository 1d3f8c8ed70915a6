import JsonQuery.Proofs.Number.Digits
import JsonQuery.Proofs.Token.Escapes
import JsonQuery.Proofs.Token.Scan

/-! Lexemes written one after the other. Each lexeme has a spelling, and a row of spellings is cut into the
    lexemes again if no lexeme would go on with the first character of the next one. Names and numbers go on
    with digits, a bracket with a question mark or a closing bracket, and some marks with a second
    character. -/

namespace JsonQuery

namespace Lexeme

/-- A lexeme as written. -/
def spelling : Lexeme → List Char
  | name s => s.toList
  | quotedName s => Json.quotedString s
  | rawString s => '\x27' :: (s.toList.flatMap escapedRaw ++ ['\x27'])
  | literal s => '\x60' :: (s.toList.flatMap escapedLiteral ++ ['\x60'])
  | number n => natDigits n
  | mark m => m.text.toList
  | finish => []

/-- Whether a text is a name without quotes. -/
def isName (s : String) : Bool :=
  match s.toList with
  | [] => false
  | c :: cs => isNameStart c && cs.all isNameChar

/-- A lexeme that its spelling stands for. -/
def Legible : Lexeme → Prop
  | name s => isName s = true
  | literal s => Unticked s.toList
  | number n => n < 10 ^ digitLimit
  | finish => False
  | _ => True

/-- Whether a lexeme ends before a character. -/
def endsBefore (l : Lexeme) (c : Char) : Bool :=
  match l with
  | name _ => !isNameChar c
  | number _ => !c.isDigit
  | mark .lbracket => c != ']' && c != '?'
  | mark .pipe => c != '|'
  | mark .reference => c != '&'
  | mark .not | mark (.comparator .lt) | mark (.comparator .gt) => c != '='
  | _ => true

/-- Nothing comes next that a lexeme would go on with. -/
def EndsAt (l : Lexeme) (rest : List Char) : Prop := ∀ c ∈ rest.head?, l.endsBefore c = true

/-! ### Reading a spelling -/

theorem isSpace_of_read {c : Char} {cs : List Char} {r : Lexeme × Nat} (h : read c cs = .ok r) :
    Json.isSpace c = false := by
  cases hs : Json.isSpace c with
  | false => rfl
  | true =>
    have hblank : Text.isBlank c = true := by
      rcases Json.eq_of_isSpace hs with rfl | rfl | rfl | rfl <;> decide
    rw [read_of_isBlank hblank] at h
    cases h

theorem read_name {c : Char} {cs rest : List Char} (hc : isNameStart c = true)
    (hcs : ∀ d ∈ cs, isNameChar d = true) (hrest : ∀ d ∈ rest.head?, isNameChar d = false) :
    read c (cs ++ rest) = .ok (name (String.ofList (c :: cs)), cs.length) := by
  have hmore : (cs ++ rest).takeWhile isNameChar = cs := by
    rw [List.takeWhile_append_of_pos hcs]
    cases rest with
    | nil => simp
    | cons d rest => simp [hrest d rfl]
  simp only [read, hc, if_true, hmore]

theorem not_isNameStart_of_isDigit {c : Char} (h : c.isDigit = true) : isNameStart c = false := by
  cases hn : isNameStart c with
  | false => rfl
  | true =>
    have := code_of_isNameStart hn
    have := code_of_isDigit h
    omega

/-- At a digit a number is read, from all the digits that come next. -/
theorem read_of_isDigit {c : Char} (h : c.isDigit = true) (cs : List Char) : read c cs =
    (ofDigits ((c.toNat - '0'.toNat) :: (takeDigits asciiDigit? cs).1)).map fun l =>
      (l, (takeDigits asciiDigit? cs).1.length) := by
  simp only [read, not_isNameStart_of_isDigit h, h, if_true, Bool.false_eq_true, if_false]

theorem read_number {n : Nat} {c : Char} {cs rest : List Char} (hn : natDigits n = c :: cs)
    (hlimit : n < 10 ^ digitLimit) (hrest : NoDigitNext rest) :
    read c (cs ++ rest) = .ok (number n, cs.length) := by
  have hdigit : ∀ d ∈ c :: cs, d.isDigit = true := fun d hd => isDigit_of_mem_natDigits (hn ▸ hd)
  have hc := hdigit c List.mem_cons_self
  have htake := takeDigits_append hrest fun d hd => hdigit d (List.mem_cons_of_mem c hd)
  have hvalue : digitsValue ((c.toNat - '0'.toNat) :: digitValues cs) = n := by
    have := digitsValue_natDigits n
    rwa [hn] at this
  have hlength : (digitValues cs).length = cs.length := List.length_map _
  have hwithin : ((c.toNat - '0'.toNat) :: digitValues cs).length ≤ digitLimit := by
    have := length_natDigits_le_iff.2 hlimit
    rwa [hn, List.length_cons, ← hlength, ← List.length_cons (a := c.toNat - '0'.toNat)] at this
  rw [read_of_isDigit hc, htake, ofDigits_of_le hwithin, hvalue, hlength]
  rfl

theorem read_quotation {q : Quotation} {body rest : List Char} {l : Lexeme}
    (hbody : body? q.delimiter (body ++ q.delimiter :: rest) = some body) (hl : ofBody q body = .ok l) :
    read q.delimiter (body ++ q.delimiter :: rest) = .ok (l, body.length + 1) := by
  have hname : isNameStart q.delimiter = false := by cases q <;> rfl
  have hdigit : q.delimiter.isDigit = false := by cases q <;> rfl
  have hbracket : ¬ q.delimiter = '[' := by cases q <;> decide
  have hsingle : singleMark? q.delimiter = none := by cases q <;> rfl
  have hpaired : pairedMark? q.delimiter = none := by cases q <;> rfl
  have hquotation : quotation? q.delimiter = some q := by cases q <;> rfl
  simp only [read, hname, hdigit, hbracket, hsingle, hpaired, hquotation, hbody, hl,
    Bool.false_eq_true, if_false,
    Except.map]

/-- A mark that could be the first of two characters is alone before any other character. -/
theorem read_single {c second : Char} {double m : Mark} {rest : List Char}
    (hread : read c rest = if rest.head? = some second then .ok (mark double, 1) else .ok (mark m, 0))
    (hrest : ∀ d ∈ rest.head?, d ≠ second) : read c rest = .ok (mark m, 0) := by
  have hne : ¬ rest.head? = some second := fun h => hrest second h rfl
  rw [hread, if_neg hne]

theorem read_lbracket {rest : List Char} (hrest : ∀ d ∈ rest.head?, d ≠ ']' ∧ d ≠ '?') :
    read '[' rest = .ok (mark .lbracket, 0) := by
  match rest, hrest with
  | [], _ => rfl
  | d :: rest, hrest =>
    obtain ⟨hclose, hask⟩ := hrest d rfl
    unfold read
    rw [if_neg (by decide), if_neg (by decide), if_pos rfl]
    split
    next h => exact absurd (List.cons.inj h).1 hclose
    next h => exact absurd (List.cons.inj h).1 hask
    next => rfl

theorem read_mark {m : Mark} {c : Char} {cs rest : List Char} (hm : m.text.toList = c :: cs)
    (hrest : EndsAt (mark m) rest) : read c (cs ++ rest) = .ok (mark m, cs.length) := by
  cases m with
  | lbracket =>
    cases hm
    exact read_lbracket fun d hd => by simpa [endsBefore] using hrest d hd
  | pipe =>
    cases hm
    exact read_single rfl fun d hd => by simpa [endsBefore] using hrest d hd
  | reference =>
    cases hm
    exact read_single rfl fun d hd => by simpa [endsBefore] using hrest d hd
  | not =>
    cases hm
    exact read_single rfl fun d hd => by simpa [endsBefore] using hrest d hd
  | comparator op =>
    cases op with
    | lt =>
      cases hm
      exact read_single rfl fun d hd => by simpa [endsBefore] using hrest d hd
    | gt =>
      cases hm
      exact read_single rfl fun d hd => by simpa [endsBefore] using hrest d hd
    | _ => cases hm; rfl
  | _ => cases hm; rfl

/-- A lexeme is read from its spelling, if nothing comes next that it would go on with. -/
theorem read_spelling {l : Lexeme} {rest : List Char} (hl : l.Legible) (hrest : l.EndsAt rest) :
    ∃ c cs, l.spelling = c :: cs ∧ read c (cs ++ rest) = .ok (l, cs.length) := by
  cases l with
  | name s =>
    simp only [Legible, isName] at hl
    split at hl
    next => cases hl
    next c cs hs =>
      simp only [Bool.and_eq_true, List.all_eq_true] at hl
      refine ⟨c, cs, hs, ?_⟩
      rw [read_name hl.1 hl.2 fun d hd => by simpa [endsBefore] using hrest d hd, ← hs, String.ofList_toList]
  | quotedName s =>
    refine ⟨'\x22', s.toList.flatMap Json.quotedChar ++ ['\x22'], rfl, ?_⟩
    rw [List.append_assoc, List.length_append]
    have hspelled := Json.charsText_quoted s.toList
    exact read_quotation (q := .name) (body?_charsText hspelled rest) (ofBody_charsText hspelled)
  | rawString s =>
    refine ⟨'\x27', s.toList.flatMap escapedRaw ++ ['\x27'], rfl, ?_⟩
    rw [List.append_assoc, List.length_append]
    refine read_quotation (q := .rawString) (body?_escapedRaw s.toList rest) ?_
    rw [ofBody, unescapeRaw_escaped, String.ofList_toList]
  | literal s =>
    refine ⟨'\x60', s.toList.flatMap escapedLiteral ++ ['\x60'], rfl, ?_⟩
    rw [List.append_assoc, List.length_append]
    refine read_quotation (q := .literal) (body?_escapedLiteral hl rest) ?_
    rw [ofBody, unescapeLiteral_escaped hl, String.ofList_toList]
  | number n =>
    cases hn : natDigits n with
    | nil => exact absurd hn (natDigits_ne_nil n)
    | cons c cs =>
      exact ⟨c, cs, hn, read_number hn hl fun d hd => by simpa [endsBefore] using hrest d hd⟩
  | mark m =>
    cases hm : m.text.toList with
    | nil => cases m with
      | comparator op => cases op <;> cases hm
      | _ => cases hm
    | cons c cs => exact ⟨c, cs, hm, read_mark hm hrest⟩
  | finish => exact hl.elim

end Lexeme

/-! ### Rows of spellings -/

/-- A row of lexemes as written, without anything between them. -/
def spellings (ls : List Lexeme) : List Char := ls.flatMap Lexeme.spelling

theorem spellings_append (ls ms : List Lexeme) : spellings (ls ++ ms) = spellings ls ++ spellings ms :=
  List.flatMap_append

theorem spellings_cons (l : Lexeme) (ls : List Lexeme) : spellings (l :: ls) = l.spelling ++ spellings ls :=
  List.flatMap_cons

/-- Lexemes of which each is legible and ends where the next one starts. -/
def Separate : List Lexeme → Prop
  | [] => True
  | l :: ls => l.Legible ∧ l.EndsAt (spellings ls) ∧ Separate ls

theorem separate_cons {l : Lexeme} {ls : List Lexeme} (hl : l.Legible) (hends : ∀ c, l.endsBefore c = true)
    (hls : Separate ls) : Separate (l :: ls) := ⟨hl, fun c _ => hends c, hls⟩

/-- A row of spellings is cut into its lexemes. -/
theorem cut_of_separate : ∀ {ls : List Lexeme}, Separate ls → Cut (spellings ls) ls := by
  intro ls
  induction ls with
  | nil => exact fun _ => .nil rfl
  | cons l ls ih =>
    intro h
    obtain ⟨hl, hend, hls⟩ := h
    obtain ⟨d, ds, hspell, hread⟩ := Lexeme.read_spelling hl hend
    have hspellings : spellings (l :: ls) = d :: (ds ++ spellings ls) := by
      rw [spellings_cons, hspell]
      rfl
    rw [hspellings]
    refine .cons (List.dropWhile_cons_of_neg (by simp [Lexeme.isSpace_of_read hread])) hread ?_
    rw [List.drop_left]
    exact ih hls

theorem Scan.ofText_spellings {ls : List Lexeme} (h : Separate ls) :
    ∃ tokens last, ofText (spellings ls) = ⟨tokens, .finish last⟩ ∧ tokens.map Token.lexeme = ls :=
  ofText_of_cut (cut_of_separate h)

end JsonQuery
