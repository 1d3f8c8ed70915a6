import JsonQuery.Number.Double

/-! The shortest decimal of a double: of all decimals `digits·10^exponent` that read back as the double, one with
    the fewest digits, and of those the nearest. A double is a whole number of units and a unit is `5^1074` at
    the scale `10^-1074`, so its exact decimal is known; cutting that to 1, 2, … 17 digits gives two
    neighbours on each grid, and the first grid on which a neighbour reads back is taken. The exact decimal
    itself always reads back, which makes the search total. -/

namespace JsonQuery

/-- The decimal `digits·10^exponent`. -/
structure Decimal where
  digits : Nat
  exponent : Int
  deriving DecidableEq

namespace Double

/-- The exact value of `m·2^e` units as a decimal. -/
def exactDecimal (m e : Nat) : Decimal := ⟨(m <<< e) * Nat.pow 5 1074, -1074⟩

/-- Whether a decimal, read as a positive number, is the double `m·2^e`. -/
def readsBack (m e : Nat) (d : Decimal) : Bool :=
  ofDecimal false d.digits d.exponent == ofPair false m e

/-- A decimal with one digit more than `n` is a power of ten, and is written with one digit. -/
def carry (n : Nat) (d : Decimal) : Decimal :=
  if d.digits = Nat.pow 10 n then ⟨1, d.exponent + n⟩ else d

/-- The neighbours of a decimal of `length` digits on the grid of `n`-digit decimals, the nearer one first; a
    decimal halfway between them is nearer to the one with an even last digit. -/
def neighbours (exact : Decimal) (length n : Nat) : List Decimal :=
  let cut := length - n
  let step := Nat.pow 10 cut
  let below := exact.digits / step
  let rest := exact.digits % step
  let low : Decimal := ⟨below, exact.exponent + cut⟩
  let high := carry n ⟨below + 1, exact.exponent + cut⟩
  if 2 * rest < step || (2 * rest == step && below % 2 == 0) then [low, high] else [high, low]

/-- The shortest decimal of the positive double `m·2^e`. -/
def shortest (m e : Nat) : Decimal :=
  let exact := exactDecimal m e
  let length := (Nat.toDigits 10 exact.digits).length
  ((List.range 17).findSome? fun n => (neighbours exact length (n + 1)).find? (readsBack m e)).getD exact

example : shortest 7205759403792794 1018 = ⟨1, -1⟩ := by decide +kernel
example : shortest 1 0 = ⟨5, -324⟩ := by decide +kernel

end Double
end JsonQuery
