import JsonQuery.Text.Printable

/-! A text as it is quoted in a message: between single quotes, or between double quotes if it holds a single
    quote and no double one; the quote and the backslash are escaped by a backslash, line ends and tabs by
    their letters, and any other character that may not be shown by its code point. -/

namespace JsonQuery.Text

/-- The lower-case hexadecimal digits of a number, padded with zeros to a width. -/
def hexDigits (width n : Nat) : List Char :=
  let digits := Nat.toDigits 16 n
  List.replicate (width - digits.length) '0' ++ digits

/-- One character between quotes of the given kind. -/
def quotedChar (quote c : Char) : List Char :=
  if c = quote ∨ c = '\\' then ['\\', c]
  else if c = '\n' then ['\\', 'n']
  else if c = '\r' then ['\\', 'r']
  else if c = '\t' then ['\\', 't']
  else if isPrintable c then [c]
  else if c.toNat < 0x100 then '\\' :: 'x' :: hexDigits 2 c.toNat
  else if c.toNat < 0x10000 then '\\' :: 'u' :: hexDigits 4 c.toNat
  else '\\' :: 'U' :: hexDigits 8 c.toNat

/-- The kind of quote that a text is put between. -/
def quoteFor (cs : List Char) : Char :=
  if cs.contains '\x27' && !cs.contains '\x22' then '\x22' else '\x27'

/-- A text between quotes. -/
def quoted (cs : List Char) : List Char :=
  let quote := quoteFor cs
  quote :: (cs.flatMap (quotedChar quote) ++ [quote])

/-- A list of texts, each between quotes. -/
def quotedList (texts : List String) : String :=
  "[" ++ String.intercalate ", " (texts.map fun t => String.ofList (quoted t.toList)) ++ "]"

example : quoted ['a', '\x27', '\\', '\n'] = ['\x22', 'a', '\x27', '\\', '\\', '\\', 'n', '\x22'] := by
  decide +kernel

end JsonQuery.Text
