import JsonQuery.Json.Basic
import JsonQuery.Number.Numeral
import JsonQuery.Text.Quoted

/-! The compact text of a JSON value: no blanks, keys in their order, and every character of a string as it is
    but for the quote, the backslash and the controls below the space, which are escaped. A value is written
    only if all its numbers can be. -/

namespace JsonQuery.Json

/-- One character of a quoted string. -/
def quotedChar (c : Char) : List Char :=
  if c = '\x22' then ['\\', '\x22']
  else if c = '\\' then ['\\', '\\']
  else if c = '\n' then ['\\', 'n']
  else if c = '\r' then ['\\', 'r']
  else if c = '\t' then ['\\', 't']
  else if c = '\x08' then ['\\', 'b']
  else if c = '\x0c' then ['\\', 'f']
  else if c.toNat < 0x20 then '\\' :: 'u' :: Text.hexDigits 4 c.toNat
  else [c]

/-- A string between quotes. -/
def quotedString (s : String) : List Char := '\x22' :: (s.toList.flatMap quotedChar ++ ['\x22'])

mutual

/-- The compact text of a value. -/
def chars : Json → List Char
  | .null => ['n', 'u', 'l', 'l']
  | .bool true => ['t', 'r', 'u', 'e']
  | .bool false => ['f', 'a', 'l', 's', 'e']
  | .number n => n.text
  | .string s => quotedString s
  | .array items => '[' :: (itemsChars items ++ [']'])
  | .object members => '{' :: (membersChars members ++ ['}'])

/-- The texts of values, separated by commas. -/
def itemsChars : List Json → List Char
  | [] => []
  | [x] => chars x
  | x :: y :: rest => chars x ++ ',' :: itemsChars (y :: rest)

/-- The texts of members, separated by commas. -/
def membersChars : List (String × Json) → List Char
  | [] => []
  | [(k, v)] => quotedString k ++ ':' :: chars v
  | (k, v) :: m :: rest => quotedString k ++ ':' :: (chars v ++ ',' :: membersChars (m :: rest))

end

/-- The compact text of a value. -/
def text (v : Json) : String := String.ofList v.chars

mutual

/-- Whether all the numbers of a value can be written. -/
def isWritable : Json → Bool
  | .number n => n.isWritable
  | .array items => itemsWritable items
  | .object members => membersWritable members
  | .null | .bool _ | .string _ => true

/-- Whether all the numbers of some values can be written. -/
def itemsWritable : List Json → Bool
  | [] => true
  | v :: rest => isWritable v && itemsWritable rest

/-- Whether all the numbers of some members can be written. -/
def membersWritable : List (String × Json) → Bool
  | [] => true
  | (_, v) :: rest => isWritable v && membersWritable rest

end

end JsonQuery.Json
