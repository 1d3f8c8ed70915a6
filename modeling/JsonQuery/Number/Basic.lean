import JsonQuery.Number.Double

/-! A *number* is an unbounded integer or a double. Numbers of both kinds are compared by exact value: each
    one that is not a NaN has a `rank`, a pair of integers compared lexicographically, in which the finite
    numbers stand between the infinities by their count of units. A NaN has no rank, so it is neither below,
    above nor equal to anything. Adding stays within the integers until a double takes part. -/

namespace JsonQuery

/-- An unbounded integer or a double. -/
inductive Number where
  | int (value : Int)
  | double (value : Double)
  deriving DecidableEq

namespace Number

instance : Inhabited Number := ⟨.int 0⟩

/-- Where a number stands among the others: below, among or above the finite ones, and its count of units. -/
def rank? : Number → Option (Int × Int)
  | .int n => some (0, n * Double.unitsPerOne)
  | .double .nan => none
  | .double (.infinite true) => some (-1, 0)
  | .double (.infinite false) => some (1, 0)
  | .double x => x.units?.map (0, ·)

/-- The exact order of two numbers, if neither is a NaN. -/
def compare? (x y : Number) : Option Ordering :=
  match x.rank?, y.rank? with
  | some a, some b => some ((compare a.1 b.1).then (compare a.2 b.2))
  | _, _ => none

/-- Equality of values: an integer equals a double of the same value, and a NaN equals nothing. -/
def equals (x y : Number) : Bool := x.compare? y == some .eq

/-- Whether `x` is strictly below `y`. -/
def less (x y : Number) : Bool := x.compare? y == some .lt

/-- Whether `x` is below or equal to `y`. -/
def lessEq (x y : Number) : Bool := x.less y || x.equals y

/-- The number as a double, rounded if it is an integer; an integer past the largest double has none. -/
def toDouble? : Number → Option Double
  | .int n => Double.ofInt? n
  | .double x => some x

/-- The sum, an integer if both terms are. There is none if an integer past the largest double meets a
    double. -/
def add? : Number → Number → Option Number
  | .int a, .int b => some (.int (a + b))
  | x, y => match x.toDouble?, y.toDouble? with
    | some a, some b => some (.double (a.add b))
    | _, _ => none

/-- The sum from left to right, from the integer 0. -/
def sum? (xs : List Number) : Option Number :=
  xs.foldlM add? (.int 0)

/-- The magnitude. -/
def abs : Number → Number
  | .int n => .int n.natAbs
  | .double x => .double x.abs

/-- The number twice. -/
def twice : Number → Number
  | .int n => .int (2 * n)
  | .double x => .double (x.add x)

/-- Whether the number is an integer or a finite double. -/
def isFinite : Number → Bool
  | .int _ => true
  | .double x => x.isFinite

example : (Number.int (2 ^ 53 + 1)).compare? (.double (Double.ofDecimal false (2 ^ 53) 0)) = some .gt := by
  decide +kernel
example : (Number.int (10 ^ 400)).less (.double (.infinite false)) = true := by decide +kernel

end Number
end JsonQuery
