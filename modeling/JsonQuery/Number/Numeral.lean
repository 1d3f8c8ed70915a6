import JsonQuery.Number.Basic
import JsonQuery.Number.Shortest

/-! A *numeral* is a number as written: an optional minus, a whole part without a superfluous leading zero, an
    optional fraction and an optional signed exponent. `Numeral.read?` takes the longest numeral at the head of
    a text, for any class of digits; a numeral with neither fraction nor exponent stands for an integer, any
    other for the nearest double. `Number.text` writes a number so that reading gives it back: an integer in
    full, a double with its shortest digits, positionally while its first digit stands between the fourth
    place after the point and the sixteenth before it. Integers of more than a certain number of digits are
    neither read from texts nor written; what is done about that is up to those who read and write. -/

namespace JsonQuery

/-- A number as written, digits by value. -/
structure Numeral where
  negative : Bool
  whole : List Nat
  fraction : List Nat
  exponent : Option Int
  deriving DecidableEq

/-- The most digits of an integer that is read from a text or written. -/
def digitLimit : Nat := 4300

/-- An integer written with more digits than that. -/
structure Overlong where
  digits : Nat
  deriving DecidableEq

/-- What was wrong, in words. -/
def Overlong.message (o : Overlong) : String :=
  "Exceeds the limit (4300 digits) for integer string conversion: value has " ++ toString o.digits
    ++ " digits; use sys.set_int_max_str_digits() to increase the limit"

/-- The value of a row of decimal digits, the most significant first. -/
def digitsValue (digits : List Nat) : Nat := digits.foldl (fun n d => 10 * n + d) 0

/-- The value of an ASCII digit. -/
def asciiDigit? (c : Char) : Option Nat := if c.isDigit then some (c.toNat - '0'.toNat) else none

/-- The leading digits of a text, and what follows them. -/
def takeDigits (digit? : Char → Option Nat) : List Char → List Nat × List Char
  | [] => ([], [])
  | c :: cs => match digit? c with
    | some d => let (ds, rest) := takeDigits digit? cs; (d :: ds, rest)
    | none => ([], c :: cs)

namespace Numeral

/-- The value of a numeral. -/
def value (n : Numeral) : Number :=
  if n.fraction = [] ∧ n.exponent = none then
    .int (if n.negative then -(digitsValue n.whole : Int) else digitsValue n.whole)
  else
    .double (Double.ofDecimal n.negative (digitsValue (n.whole ++ n.fraction))
      (n.exponent.getD 0 - n.fraction.length))

/-- Whether a numeral is that of an integer. -/
def isInteger (n : Numeral) : Bool := n.fraction.isEmpty && n.exponent.isNone

/-- The value of a numeral, unless it is an integer of too many digits. -/
def value? (n : Numeral) : Except Overlong Number :=
  if n.isInteger ∧ digitLimit < n.whole.length then .error ⟨n.whole.length⟩ else .ok n.value

/-- The whole part: a zero alone, or digits of which the first is an ASCII digit other than zero. -/
def readWhole? (digit? : Char → Option Nat) : List Char → Option (List Nat × List Char)
  | [] => none
  | c :: cs =>
    if c = '0' then some ([0], cs)
    else match asciiDigit? c with
      | some d => let (ds, rest) := takeDigits digit? cs; some (d :: ds, rest)
      | none => none

/-- A fraction, which is a point and at least one digit; without one nothing is taken. -/
def readFraction (digit? : Char → Option Nat) : List Char → List Nat × List Char
  | '.' :: cs => match takeDigits digit? cs with
    | ([], _) => ([], '.' :: cs)
    | (ds, rest) => (ds, rest)
  | cs => ([], cs)

/-- The sign of an exponent: negative after a minus, and a plus may be written. -/
def readExponentSign : List Char → Bool × List Char
  | '-' :: cs => (true, cs)
  | '+' :: cs => (false, cs)
  | cs => (false, cs)

/-- An exponent, which is a mark, an optional sign and at least one digit; without one nothing is taken. -/
def readExponent (digit? : Char → Option Nat) : List Char → Option Int × List Char
  | [] => (none, [])
  | c :: cs =>
    if c = 'e' ∨ c = 'E' then
      let (negative, digits) := readExponentSign cs
      match takeDigits digit? digits with
      | ([], _) => (none, c :: cs)
      | (ds, rest) => (some (if negative then -(digitsValue ds : Int) else digitsValue ds), rest)
    else (none, c :: cs)

/-- An optional minus. -/
def readMinus : List Char → Bool × List Char
  | '-' :: cs => (true, cs)
  | cs => (false, cs)

/-- The longest numeral at the head of a text, and what follows it. -/
def read? (digit? : Char → Option Nat) (cs : List Char) : Option (Numeral × List Char) :=
  let (negative, cs) := readMinus cs
  (readWhole? digit? cs).map fun (whole, cs) =>
    let (fraction, cs) := readFraction digit? cs
    let (exponent, cs) := readExponent digit? cs
    (⟨negative, whole, fraction, exponent⟩, cs)

end Numeral

/-- How a decimal is laid out: the range of the first digit's place in which it is written positionally, and
    the least number of digits of an exponent. -/
structure DecimalLayout where
  leastPlace : Int
  greatestPlace : Int
  exponentDigits : Nat

/-- Numbers are written positionally from `10^-4` up to but not including `10^16`, and an exponent has at
    least two digits. -/
def DecimalLayout.number : DecimalLayout := ⟨-4, 15, 2⟩

/-- The decimal digits of a natural number. -/
def natDigits (n : Nat) : List Char := Nat.toDigits 10 n

/-- An exponent with its mark and its sign. -/
def exponentText (width : Nat) (exponent : Int) : List Char :=
  let digits := natDigits exponent.natAbs
  'e' :: (if exponent < 0 then '-' else '+') :: (List.replicate (width - digits.length) '0' ++ digits)

/-- The text of a positive decimal; a whole value is marked as a double by `.0`. -/
def Decimal.text (layout : DecimalLayout) (d : Decimal) : List Char :=
  let digits := natDigits d.digits
  let place := d.exponent + digits.length - 1
  if layout.leastPlace ≤ place ∧ place ≤ layout.greatestPlace then
    if place < 0 then
      '0' :: '.' :: (List.replicate (-place - 1).toNat '0' ++ digits)
    else if 0 ≤ d.exponent then
      digits ++ List.replicate d.exponent.toNat '0' ++ ['.', '0']
    else
      let whole := (place + 1).toNat
      digits.take whole ++ '.' :: digits.drop whole
  else
    digits.take 1 ++ (if digits.length = 1 then [] else '.' :: digits.drop 1)
      ++ exponentText layout.exponentDigits place

/-- The text of a double. -/
def Double.text (x : Double) : List Char :=
  match x with
  | .nan => "NaN".toList
  | .infinite negative => (if negative then "-Infinity" else "Infinity").toList
  | .finite negative m e _ =>
    (if negative then ['-'] else []) ++
      if m = 0 then ['0', '.', '0'] else (Double.shortest m e).text .number

/-- The text of an integer. -/
def intText (n : Int) : List Char := (if n < 0 then ['-'] else []) ++ natDigits n.natAbs

/-- The text of a number. -/
def Number.text : Number → List Char
  | .int n => intText n
  | .double x => x.text

/-- Whether a number can be written: an integer may not have too many digits. -/
def Number.isWritable : Number → Bool
  | .int n => (natDigits n.natAbs).length ≤ digitLimit
  | .double _ => true

example : (Decimal.mk 1 (-5)).text .number = ['1', 'e', '-', '0', '5'] := by decide
example : (Decimal.mk 1 (-4)).text .number = ['0', '.', '0', '0', '0', '1'] := by decide
example : (Decimal.mk 15 299).text .number = ['1', '.', '5', 'e', '+', '3', '0', '0'] := by decide
example : (Decimal.mk 125 (-1)).text .number = ['1', '2', '.', '5'] := by decide

end JsonQuery
