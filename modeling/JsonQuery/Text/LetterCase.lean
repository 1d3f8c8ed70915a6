/-! Letters without regard to case, as far as they meet ASCII letters: outside ASCII only the dotless i and the
    long s have an ASCII letter for their upper case, and only the Kelvin sign has one for its lower case. A
    text is compared in upper or in lower case with names that are ASCII, so other characters stay as they
    are. -/

namespace JsonQuery.Text

/-- The upper case of a character where that is an ASCII letter; any other character as it is. -/
def upperChar (c : Char) : Char :=
  if c = '\u0131' then 'I' else if c = '\u017f' then 'S' else c.toUpper

/-- The lower case of a character where that is an ASCII letter; any other character as it is. -/
def lowerChar (c : Char) : Char := if c = '\u212a' then 'k' else c.toLower

/-- A text in upper case. -/
def upper (s : String) : String := String.ofList (s.toList.map upperChar)

/-- A text in lower case. -/
def lower (s : String) : String := String.ofList (s.toList.map lowerChar)

example : upper "Warn\u0131ng" = "WARNING" ∧ lower "Json_\u212aEY" = "json_key" := by decide +kernel

end JsonQuery.Text
