import JsonQuery.Json.Basic
import JsonQuery.Number.Numeral
import JsonQuery.Text.Position

/-! Reading JSON text. A reader takes what it needs from the head of a text and returns the rest; on a fault it
    returns the cause and how much text was left there, from which `Json.read` computes the position. Numbers
    follow `Numeral`, and an integer of too many digits is a fault. Besides JSON proper the names `NaN`,
    `Infinity` and `-Infinity` are known, and what they are depends on the dialect. The reader of values recurses
    on a bound of which every character taken pays two steps, so twice the length of the text is bound enough. -/

namespace JsonQuery

/-- Why a text is not JSON. -/
inductive JsonCause where
  | expectedValue
  | expectedKey
  | expectedColon
  | expectedComma
  | unterminatedString
  | controlCharacter
  | badEscape
  | badUnicodeEscape
  | extraText
  | byteOrderMark
  | constant (name : String)
  | overlong (number : Overlong)
  deriving DecidableEq

/-- A fault in JSON text, and where it is. -/
structure JsonFault where
  cause : JsonCause
  position : Nat
  deriving DecidableEq

/-- What was wrong, in words. -/
def JsonCause.message : JsonCause → String
  | .expectedValue => "Expecting value"
  | .expectedKey => "Expecting property name enclosed in double quotes"
  | .expectedColon => "Expecting ':' delimiter"
  | .expectedComma => "Expecting ',' delimiter"
  | .unterminatedString => "Unterminated string starting at"
  | .controlCharacter => "Invalid control character at"
  | .badEscape => "Invalid \\escape"
  | .badUnicodeEscape => "Invalid \\uXXXX escape"
  | .extraText => "Extra data"
  | .byteOrderMark => "Unexpected UTF-8 BOM (decode using utf-8-sig)"
  | .constant name => name ++ " is not valid JSON"
  | .overlong number => number.message

/-- A fault in words: the message and, but for a refused constant or integer, the place, lines and columns
    from 1. -/
def JsonFault.message (f : JsonFault) (cs : List Char) : String :=
  match f.cause with
  | .constant _ | .overlong _ => f.cause.message
  | _ => f.cause.message ++ ": line " ++ toString (Text.lineNumberAt cs f.position) ++ " column "
    ++ toString (Text.columnAt cs f.position + 1) ++ " (char " ++ toString f.position ++ ")"

namespace Json

/-- What reading gives: a value and the rest of the text, or a cause and how much text was left there. -/
abbrev Reading (α : Type) := Except (JsonCause × Nat) (α × List Char)

/-- The blanks of JSON: space, tab, line feed and carriage return. -/
def isSpace (c : Char) : Bool := c = ' ' || c = '\t' || c = '\n' || c = '\r'

/-- A text without its leading blanks. -/
def skipSpace (cs : List Char) : List Char := cs.dropWhile isSpace

/-- The value of a hexadecimal digit. -/
def hexDigit? (c : Char) : Option Nat :=
  if '0' ≤ c ∧ c ≤ '9' then some (c.toNat - '0'.toNat)
  else if 'a' ≤ c ∧ c ≤ 'f' then some (c.toNat - 'a'.toNat + 10)
  else if 'A' ≤ c ∧ c ≤ 'F' then some (c.toNat - 'A'.toNat + 10)
  else none

/-- The value of four hexadecimal digits. -/
def hexQuad? (a b c d : Char) : Option Nat := do
  return 4096 * (← hexDigit? a) + 256 * (← hexDigit? b) + 16 * (← hexDigit? c) + (← hexDigit? d)

/-- The character that a letter stands for after a backslash. -/
def escapedChar? (c : Char) : Option Char :=
  match c with
  | '\x22' => some '\x22'
  | '\\' => some '\\'
  | '/' => some '/'
  | 'b' => some '\x08'
  | 'f' => some '\x0c'
  | 'n' => some '\n'
  | 'r' => some '\r'
  | 't' => some '\t'
  | _ => none

/-- The character that two halves of a surrogate pair stand for. -/
def joinSurrogates (high low : Nat) : Char :=
  Char.ofNat (0x10000 + 1024 * (high - 0xd800) + (low - 0xdc00))

/-- The character with a code. A surrogate that is not one of a pair is no character; texts that spell one are
    left out of account here, and U+FFFD stands for it. -/
def charOfCode (code : Nat) : Char := if 0xd800 ≤ code ∧ code ≤ 0xdfff then '\ufffd' else Char.ofNat code

/-- What follows `\u`: the character, and how many characters spell it. Four hexadecimal digits must be there
    and something after them; the first half of a surrogate pair takes the second along. -/
def readUnicode (cs : List Char) : Except (JsonCause × Nat) (Char × Nat) :=
  match cs with
  | a :: b :: c :: d :: next :: more =>
    match hexQuad? a b c d with
    | none => .error (.badUnicodeEscape, cs.length + 1)
    | some code =>
      match next, more with
      | '\\', 'u' :: e :: f :: g :: h :: _ :: _ =>
        if 0xd800 ≤ code ∧ code ≤ 0xdbff then
          match hexQuad? e f g h with
          | none => .error (.badUnicodeEscape, more.length)
          | some low =>
            if 0xdc00 ≤ low ∧ low ≤ 0xdfff then .ok (joinSurrogates code low, 10)
            else .ok (charOfCode code, 4)
        else .ok (charOfCode code, 4)
      | _, _ => .ok (charOfCode code, 4)
  | _ => .error (.badUnicodeEscape, cs.length + 1)

/-- What follows a backslash in a string: the character that it stands for, and how many characters spell
    it. -/
def readEscape (opening : Nat) (cs : List Char) : Except (JsonCause × Nat) (Char × Nat) :=
  match cs with
  | [] => .error (.unterminatedString, opening)
  | 'u' :: rest => (readUnicode rest).map fun (c, n) => (c, n + 1)
  | c :: _ => match escapedChar? c with
    | some d => .ok (d, 1)
    | none => .error (.badEscape, cs.length + 1)

/-- The characters of a string up to its closing quote. The count is of characters that the last escape
    spells, and `opening` is how much text was left at the opening quote. -/
def readChars (opening : Nat) : Nat → List Char → Reading (List Char)
  | _, [] => .error (.unterminatedString, opening)
  | n + 1, _ :: cs => readChars opening n cs
  | 0, c :: cs =>
    if c = '\x22' then .ok ([], cs)
    else if c = '\\' then
      match readEscape opening cs with
      | .error e => .error e
      | .ok (d, n) => (readChars opening n cs).map fun (ds, rest) => (d :: ds, rest)
    else if c.toNat < 0x20 then .error (.controlCharacter, cs.length + 1)
    else (readChars opening 0 cs).map fun (ds, rest) => (c :: ds, rest)

/-- The rest of a string whose opening quote has been taken. -/
def readString (cs : List Char) : Reading String :=
  (readChars (cs.length + 1) 0 cs).map fun (ds, rest) => (String.ofList ds, rest)

/-- The named constants that are no JSON. -/
def constants : List (String × Double) :=
  [("NaN", .nan), ("Infinity", .infinite false), ("-Infinity", .infinite true)]

/-- What a text is read as: a document, in which the named constants are doubles, or a literal, in which they
    are faults. -/
inductive Dialect where
  | document | literal
  deriving DecidableEq

/-- What a named constant is. -/
def Dialect.constant (d : Dialect) (name : String) (x : Double) (cs : List Char) : Reading Json :=
  match d with
  | .document => .ok (.number (.double x), cs.drop name.length)
  | .literal => .error (.constant name, cs.length)

/-- A value that is one word, if the text starts with one. -/
def readWord? (d : Dialect) (cs : List Char) : Option (Reading Json) :=
  if "null".toList.isPrefixOf cs then some (.ok (.null, cs.drop 4))
  else if "true".toList.isPrefixOf cs then some (.ok (.bool true, cs.drop 4))
  else if "false".toList.isPrefixOf cs then some (.ok (.bool false, cs.drop 5))
  else (constants.find? fun (name, _) => name.toList.isPrefixOf cs).map fun (name, x) => d.constant name x cs

/-- A value that is neither a string nor a container. -/
def readScalar (d : Dialect) (cs : List Char) : Reading Json :=
  match readWord? d cs with
  | some r => r
  | none => match Numeral.read? asciiDigit? cs with
    | some (n, rest) => match n.value? with
      | .ok x => .ok (.number x, rest)
      | .error number => .error (.overlong number, cs.length)
    | none => .error (.expectedValue, cs.length)

mutual

/-- The value at the head of a text. -/
def readValue (d : Dialect) : Nat → List Char → Reading Json
  | 0, cs => .error (.expectedValue, cs.length)
  | bound + 1, cs => match cs with
    | '\x22' :: rest => (readString rest).map fun (s, rest) => (.string s, rest)
    | '[' :: rest => match skipSpace rest with
      | ']' :: rest => .ok (.array [], rest)
      | rest => (readItems d bound rest).map fun (items, rest) => (.array items, rest)
    | '{' :: rest => match skipSpace rest with
      | '}' :: rest => .ok (.object [], rest)
      | rest => (readMembers d bound rest).map fun (ms, rest) => (.object (Members.ofPairs ms), rest)
    | cs => readScalar d cs

/-- The items of an array, of which there is at least one, and its closing bracket. -/
def readItems (d : Dialect) : Nat → List Char → Reading (List Json)
  | 0, cs => .error (.expectedValue, cs.length)
  | bound + 1, cs => match readValue d bound cs with
    | .error e => .error e
    | .ok (x, rest) => match skipSpace rest with
      | ']' :: rest => .ok ([x], rest)
      | ',' :: rest =>
        (readItems d bound (skipSpace rest)).map fun (items, rest) => (x :: items, rest)
      | rest => .error (.expectedComma, rest.length)

/-- The members of an object, of which there is at least one, and its closing brace. -/
def readMembers (d : Dialect) : Nat → List Char → Reading (List (String × Json))
  | 0, cs => .error (.expectedKey, cs.length)
  | bound + 1, cs => match cs with
    | '\x22' :: rest => match readString rest with
      | .error e => .error e
      | .ok (k, rest) => match skipSpace rest with
        | ':' :: rest => match readValue d bound (skipSpace rest) with
          | .error e => .error e
          | .ok (v, rest) => match skipSpace rest with
            | '}' :: rest => .ok ([(k, v)], rest)
            | ',' :: rest =>
              (readMembers d bound (skipSpace rest)).map fun (ms, rest) => ((k, v) :: ms, rest)
            | rest => .error (.expectedComma, rest.length)
        | rest => .error (.expectedColon, rest.length)
    | cs => .error (.expectedKey, cs.length)

end

/-- One value with nothing but blanks around it. -/
def readWhole (d : Dialect) (cs : List Char) : Except (JsonCause × Nat) Json :=
  if cs.head? = some '\ufeff' then .error (.byteOrderMark, cs.length)
  else match readValue d (2 * cs.length + 1) (skipSpace cs) with
    | .error e => .error e
    | .ok (v, rest) => match skipSpace rest with
      | [] => .ok v
      | rest => .error (.extraText, rest.length)

/-- The value that a text stands for in a dialect. -/
def read (d : Dialect) (cs : List Char) : Except JsonFault Json :=
  match readWhole d cs with
  | .ok v => .ok v
  | .error (cause, left) => .error ⟨cause, cs.length - left⟩

/-- The value of a document. -/
def ofText? (s : String) : Option Json := (read .document s.toList).toOption

end Json
end JsonQuery
