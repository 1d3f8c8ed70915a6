import JsonQuery.Json.Reader
import JsonQuery.Text.Quoted
import JsonQuery.Token.Basic

/-! Cutting a text into tokens. `Lexeme.read` takes the lexeme at the head of a text; a `Cursor` stands
    somewhere in a text and `Cursor.next` skips blanks and takes one token; `Cursor.scan` takes tokens up to the
    end of the text or the first fault. A cursor is a value, so any number of scans of one text can be under
    way and each starts where it likes. A number of too many digits is a fault too, but not one that is
    reported as a fault of the text: it comes up from the reading of integers as it is. -/

namespace JsonQuery

/-- Why a text cannot be cut into tokens. -/
inductive LexicalCause where
  | unknownCharacter (c : Char)
  | singleEquals
  | unterminated (q : Quotation)
  | badEscape (body : String)
  | overlong (number : Overlong)
  deriving DecidableEq

/-- What was wrong, in words. -/
def LexicalCause.reason : LexicalCause → String
  | .unknownCharacter c => "Unknown character '" ++ String.ofList [c] ++ "'"
  | .singleEquals => "Unknown token '=' (did you mean '=='?)"
  | .unterminated q => "Unterminated " ++ q.label
  | .badEscape body => "Invalid escape in quoted identifier: " ++ String.ofList (Text.quoted body.toList)
  | .overlong number => number.message

/-- The number that was too long, if that was wrong. -/
def LexicalCause.overlong? : LexicalCause → Option Overlong
  | .overlong number => some number
  | .unknownCharacter _ | .singleEquals | .unterminated _ | .badEscape _ => none

/-- A fault in the text of an expression, and where it is. -/
structure LexicalFault where
  cause : LexicalCause
  position : Nat
  deriving DecidableEq

namespace Lexeme

/-- The characters that a name starts with. -/
def isNameStart (c : Char) : Bool := c.isAlpha || c = '_'

/-- The characters that a name goes on with. -/
def isNameChar (c : Char) : Bool := isNameStart c || c.isDigit

/-- The mark that a character is, whatever follows it. -/
def singleMark? (c : Char) : Option Mark :=
  match c with
  | '.' => some .dot
  | '*' => some .star
  | ']' => some .rbracket
  | '\x7b' => some .lbrace
  | '\x7d' => some .rbrace
  | '(' => some .lparen
  | ')' => some .rparen
  | ',' => some .comma
  | ':' => some .colon
  | '@' => some .current
  | '-' => some .minus
  | _ => none

/-- A character that makes one mark with a certain second character, and another alone. -/
structure PairedMark where
  second : Char
  double : Mark
  single : Option Mark

/-- The characters of which some make a mark of two characters. -/
def pairedMark? (c : Char) : Option PairedMark :=
  match c with
  | '|' => some ⟨'|', .or, some .pipe⟩
  | '&' => some ⟨'&', .and, some .reference⟩
  | '!' => some ⟨'=', .comparator .ne, some .not⟩
  | '<' => some ⟨'=', .comparator .le, some (.comparator .lt)⟩
  | '>' => some ⟨'=', .comparator .ge, some (.comparator .gt)⟩
  | '=' => some ⟨'=', .comparator .eq, none⟩
  | _ => none

/-- The delimited form that a character opens. -/
def quotation? (c : Char) : Option Quotation :=
  match c with
  | '\x22' => some .name
  | '\x27' => some .rawString
  | '\x60' => some .literal
  | _ => none

/-- The text up to the closing delimiter. A backslash and the character after it stay together, so that an
    escaped delimiter does not close. -/
def body? (delimiter : Char) : List Char → Option (List Char)
  | [] => none
  | '\\' :: [] => none
  | '\\' :: c :: cs => (body? delimiter cs).map fun body => '\\' :: c :: body
  | c :: cs => if c = delimiter then some [] else (body? delimiter cs).map (c :: ·)

/-- The text of a raw string: a backslash escapes the quote and itself, and is kept before anything else. -/
def unescapeRaw : List Char → List Char
  | '\\' :: '\x27' :: cs => '\x27' :: unescapeRaw cs
  | '\\' :: '\\' :: cs => '\\' :: unescapeRaw cs
  | c :: cs => c :: unescapeRaw cs
  | [] => []

/-- The JSON text of a literal: an escaped delimiter stands for itself. -/
def unescapeLiteral : List Char → List Char
  | '\\' :: '\x60' :: cs => '\x60' :: unescapeLiteral cs
  | c :: cs => c :: unescapeLiteral cs
  | [] => []

/-- The lexeme that a delimited form stands for. -/
def ofBody (q : Quotation) (body : List Char) : Except LexicalCause Lexeme :=
  match q with
  | .name => match Json.readString (body ++ ['\x22']) with
    | .ok (text, []) => .ok (quotedName text)
    | _ => .error (.badEscape (String.ofList body))
  | .rawString => .ok (rawString (String.ofList (unescapeRaw body)))
  | .literal => .ok (literal (String.ofList (unescapeLiteral body)))

/-- The number that a row of digits stands for. -/
def ofDigits (digits : List Nat) : Except LexicalCause Lexeme :=
  if digitLimit < digits.length then .error (.overlong ⟨digits.length⟩) else .ok (number (digitsValue digits))

/-- The lexeme that a text starts with, and how many characters it takes after the first. -/
def read (c : Char) (cs : List Char) : Except LexicalCause (Lexeme × Nat) :=
  if isNameStart c then
    let more := cs.takeWhile isNameChar
    .ok (name (String.ofList (c :: more)), more.length)
  else if c.isDigit then
    let more := (takeDigits asciiDigit? cs).1
    (ofDigits ((c.toNat - '0'.toNat) :: more)).map fun l => (l, more.length)
  else if c = '[' then
    match cs with
    | ']' :: _ => .ok (mark .flatten, 1)
    | '?' :: _ => .ok (mark .filter, 1)
    | _ => .ok (mark .lbracket, 0)
  else match singleMark? c, pairedMark? c, quotation? c with
    | some m, _, _ => .ok (mark m, 0)
    | none, some p, _ =>
      if cs.head? = some p.second then .ok (mark p.double, 1)
      else match p.single with
        | some m => .ok (mark m, 0)
        | none => .error .singleEquals
    | none, none, some q => match body? q.delimiter cs with
      | some body => (ofBody q body).map fun l => (l, body.length + 1)
      | none => .error (.unterminated q)
    | none, none, none => .error (.unknownCharacter c)

end Lexeme

/-- A place in a text that is being cut into tokens: how many characters and bytes came before, and what is
    left. -/
structure Cursor where
  position : Nat
  offset : Nat
  rest : List Char

/-- What is found next at a cursor: a token and the cursor after it, the token of the end, or a fault. -/
inductive Found where
  | token (t : Token) (after : Cursor)
  | finish (t : Token)
  | fault (f : LexicalFault)

namespace Cursor

/-- The start of a text. -/
def start (cs : List Char) : Cursor := ⟨0, 0, cs⟩

/-- The cursor some characters further on. -/
def advance (c : Cursor) (n : Nat) : Cursor :=
  ⟨c.position + n, c.offset + Text.utf8Length (c.rest.take n), c.rest.drop n⟩

/-- The cursor after any blanks; the blanks are those of JSON. -/
def skipBlanks (c : Cursor) : Cursor := c.advance (c.rest.takeWhile Json.isSpace).length

/-- What is found after any blanks. -/
def next (c : Cursor) : Found :=
  let c := c.skipBlanks
  match c.rest with
  | [] => .finish ⟨.finish, c.position, c.position, c.offset⟩
  | d :: ds => match Lexeme.read d ds with
    | .error cause => .fault ⟨cause, c.position⟩
    | .ok (l, n) => .token ⟨l, c.position, c.position + n + 1, c.offset⟩ (c.advance (n + 1))

theorem length_skipBlanks_le (c : Cursor) : c.skipBlanks.rest.length ≤ c.rest.length := by
  simp [skipBlanks, advance]

theorem length_lt_of_next {c after : Cursor} {t : Token} (h : c.next = .token t after) :
    after.rest.length < c.rest.length := by
  have hle := c.length_skipBlanks_le
  unfold next at h
  cases hr : c.skipBlanks.rest with
  | nil => simp [hr] at h
  | cons d ds =>
    cases hl : Lexeme.read d ds with
    | error e => simp [hr, hl] at h
    | ok p =>
      simp only [hr, hl, Found.token.injEq] at h
      obtain ⟨_, rfl⟩ := h
      simp only [advance, hr, List.drop_succ_cons, List.length_drop]
      simp only [hr, List.length_cons] at hle
      omega

end Cursor

/-- How the tokens of a text end: with the token of the end, or at a fault. -/
inductive Ending where
  | finish (t : Token)
  | fault (f : LexicalFault)
  deriving DecidableEq

/-- The tokens of a text, and how they end. -/
structure Scan where
  tokens : List Token
  ending : Ending
  deriving DecidableEq

/-- The tokens from a cursor on. -/
def Cursor.scan (c : Cursor) : Scan :=
  match _h : c.next with
  | .finish t => ⟨[], .finish t⟩
  | .fault f => ⟨[], .fault f⟩
  | .token t after => let s := after.scan; ⟨t :: s.tokens, s.ending⟩
termination_by c.rest.length
decreasing_by exact c.length_lt_of_next _h

/-- The tokens of a text. -/
def Scan.ofText (cs : List Char) : Scan := (Cursor.start cs).scan

example : ((Scan.ofText ['a', '[', '0', ']']).tokens.map (·.lexeme)) =
    [.name "a", .mark .lbracket, .number 0, .mark .rbracket] := by decide +kernel

end JsonQuery
