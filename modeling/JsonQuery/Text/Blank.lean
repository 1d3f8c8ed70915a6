/-! Blanks. A character is *blank* if it has the property White_Space of the Unicode character database or is one of
    the four ASCII information separators. An expression of blanks alone counts as empty. -/

namespace JsonQuery.Text

/-- Whether a code point is blank. -/
def isBlankCode (n : Nat) : Bool :=
  (0x09 ≤ n && n ≤ 0x0d) || (0x1c ≤ n && n ≤ 0x20) || n == 0x85 || n == 0xa0 || n == 0x1680
    || (0x2000 ≤ n && n ≤ 0x200a) || n == 0x2028 || n == 0x2029 || n == 0x202f || n == 0x205f || n == 0x3000

/-- Whether a character is blank. -/
def isBlank (c : Char) : Bool := isBlankCode c.toNat

/-- A text without the characters of some kind at either end. -/
def trim (kind : Char → Bool) (cs : List Char) : List Char :=
  ((cs.dropWhile kind).reverse.dropWhile kind).reverse

end JsonQuery.Text
