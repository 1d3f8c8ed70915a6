/-! A *double* is a 64-bit binary floating-point number, held as exact data: a sign, a mantissa `m` and an
    exponent `e` stand for `±m·2^e` *units*, one unit being the smallest positive double `2^-1074`. In units
    every finite double is a whole number, so exact comparison is comparison of integers, and every operation
    is "compute exactly, then round once": `ofRatio` rounds a quotient of units to the nearest double, a tie
    going to the even mantissa. -/

namespace JsonQuery

/-- A mantissa and an exponent in the one form that a finite double has: 53 bits, the top one set unless the
    exponent is 0, and no exponent past that of the largest double. -/
def CanonicalPair (m e : Nat) : Prop := m < 1 <<< 53 ∧ (e = 0 ∨ 1 <<< 52 ≤ m) ∧ e ≤ 2045

instance (m e : Nat) : Decidable (CanonicalPair m e) :=
  inferInstanceAs (Decidable (m < 1 <<< 53 ∧ (e = 0 ∨ 1 <<< 52 ≤ m) ∧ e ≤ 2045))

/-- A double. A zero keeps its sign; a NaN has neither sign nor payload. -/
inductive Double where
  | nan
  | infinite (negative : Bool)
  | finite (negative : Bool) (mantissa exponent : Nat) (canonical : CanonicalPair mantissa exponent)
  deriving DecidableEq

namespace Double

/-- How many units make one: `2^1074`. -/
def unitsPerOne : Nat := 1 <<< 1074

/-- The zero of either sign. -/
def zero (negative : Bool) : Double := .finite negative 0 0 (by decide)

instance : Inhabited Double := ⟨zero false⟩

/-- The double `±m·2^e` if there is one; a pair too large for a finite double gives an infinity. -/
def ofPair (negative : Bool) (m e : Nat) : Double :=
  if h : CanonicalPair m e then .finite negative m e h else .infinite negative

/-- The whole number nearest to `num / den`, a tie going to the even one. -/
def roundHalfEven (num den : Nat) : Nat :=
  let q := num / den
  let r := num % den
  if 2 * r < den then q
  else if den < 2 * r then q + 1
  else if q % 2 = 0 then q else q + 1

/-- The exponent of a double whose magnitude, cut to whole units, is `q`: the least that leaves 53 bits. -/
def exponentOf (q : Nat) : Nat := if q < 1 <<< 53 then 0 else q.log2 - 52

/-- The double nearest to `num / den` units. -/
def ofRatio (negative : Bool) (num den : Nat) : Double :=
  let e := exponentOf (num / den)
  let m := roundHalfEven num (den <<< e)
  if m = 1 <<< 53 then ofPair negative (1 <<< 52) (e + 1) else ofPair negative m e

/-- The value of a finite double in units. -/
def units? : Double → Option Int
  | .finite negative m e _ => some (if negative then -((m <<< e : Nat) : Int) else ((m <<< e : Nat) : Int))
  | _ => none

/-- Whether the double is a number other than the infinities. -/
def isFinite : Double → Bool
  | .finite .. => true
  | _ => false

/-- The double nearest to a signed number of units; `negativeZero` says which zero stands for no units. -/
def ofUnits (negativeZero : Bool) (u : Int) : Double :=
  ofRatio (if u = 0 then negativeZero else decide (u < 0)) u.natAbs 1

/-- The double nearest to an integer, unless the integer is past the largest double. -/
def ofInt? (n : Int) : Option Double :=
  let d := ofUnits false (n * unitsPerOne)
  if d.isFinite then some d else none

/-- The double nearest to `a / b`, unless the quotient is past the largest double. -/
def ofQuotient? (a : Int) (b : Nat) : Option Double :=
  let d := ofRatio (decide (a < 0)) (a.natAbs * unitsPerOne) b
  if d.isFinite then some d else none

/-- The double nearest to `±digits·10^exponent`. Past `10^310` every value is infinite and below `10^-400`
    every value is zero, so that no power of ten larger than the digits need is computed. -/
def ofDecimal (negative : Bool) (digits : Nat) (exponent : Int) : Double :=
  if digits = 0 then zero negative
  else if 310 < exponent then .infinite negative
  else if exponent < -(400 + (Nat.toDigits 10 digits).length) then zero negative
  else match exponent with
    | .ofNat k => ofRatio negative (digits * Nat.pow 10 k * unitsPerOne) 1
    | .negSucc k => ofRatio negative (digits * unitsPerOne) (Nat.pow 10 (k + 1))

/-- The magnitude, sign dropped. -/
def abs : Double → Double
  | .nan => .nan
  | .infinite _ => .infinite false
  | .finite _ m e h => .finite false m e h

/-- The sum, rounded once. The sum of two zeros is negative only if both are. -/
def add : Double → Double → Double
  | .nan, _ | _, .nan => .nan
  | .infinite a, .infinite b => if a = b then .infinite a else .nan
  | .infinite a, .finite .. => .infinite a
  | .finite .., .infinite b => .infinite b
  | x@(.finite a ..), y@(.finite b ..) => ofUnits (a && b) (x.units?.getD 0 + y.units?.getD 0)

/-- The quotient by a positive whole number, rounded once. -/
def divNat (x : Double) (n : Nat) : Double :=
  match x with
  | .nan => .nan
  | .infinite negative => .infinite negative
  | .finite negative m e _ => ofRatio negative (m <<< e) n

/-- The greatest integer that is not above the double, for a finite one. -/
def floor? (x : Double) : Option Int :=
  x.units?.map (Int.fdiv · unitsPerOne)

/-- The least integer that is not below the double, for a finite one. -/
def ceil? (x : Double) : Option Int :=
  x.units?.map fun u => -Int.fdiv (-u) unitsPerOne

/-- The integer that the double is, if it is one. -/
def toInt? (x : Double) : Option Int :=
  x.units?.bind fun u => if u % (unitsPerOne : Int) = 0 then some (u / unitsPerOne) else none

example : ofDecimal false 1 (-1) = .finite false 7205759403792794 1018 (by decide) := by decide +kernel
example : ofDecimal true 5 (-324) = .finite true 1 0 (by decide) := by decide +kernel
example : ofDecimal false 17976931348623158 292 = .finite false (2 ^ 53 - 1) 2045 (by decide) := by
  decide +kernel
example : ofDecimal false 17976931348623159 292 = .infinite false := by decide +kernel

end Double
end JsonQuery
