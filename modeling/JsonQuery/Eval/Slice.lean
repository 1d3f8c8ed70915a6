/-! Slices of a list. The bounds count from the end if they are negative and are then clamped to the list; a
    positive step walks up from the start while below the stop, a negative one down while above it. Absent
    bounds take in the whole list. -/

namespace JsonQuery.Slice

/-- An index counted from the start: a negative one is counted from the end. -/
def fromStart (length : Nat) (i : Int) : Int := if i < 0 then i + length else i

/-- An integer, moved into a range if it lies outside. -/
def clamp (low high i : Int) : Int := max low (min high i)

/-- The first index of a slice with a certain step. -/
def first (length : Nat) (start : Option Int) (step : Int) : Int :=
  if 0 < step then (start.map fun i => clamp 0 length (fromStart length i)).getD 0
  else (start.map fun i => clamp (-1) (length - 1) (fromStart length i)).getD (length - 1)

/-- The index before which a slice with a certain step ends. -/
def limit (length : Nat) (stop : Option Int) (step : Int) : Int :=
  if 0 < step then (stop.map fun i => clamp 0 length (fromStart length i)).getD length
  else (stop.map fun i => clamp (-1) (length - 1) (fromStart length i)).getD (-1)

/-- How many steps there are from one index to before another. -/
def count (first limit step : Int) : Nat :=
  if 0 < step then ((limit - first + step - 1) / step).toNat
  else if step < 0 then ((first - limit - step - 1) / -step).toNat
  else 0

/-- The indices of a slice, in the order of the walk. -/
def indices (length : Nat) (start stop : Option Int) (step : Int) : List Int :=
  let i := first length start step
  (List.range (count i (limit length stop step) step)).map fun (k : Nat) => i + (k : Int) * step

/-- The items of a slice; an absent step is 1. -/
def select {α : Type} (xs : List α) (start stop step : Option Int) : List α :=
  let items := xs.toArray
  (indices xs.length start stop (step.getD 1)).filterMap fun i => items[i.toNat]?

example : select [0, 1, 2, 3, 4] (some 1) (some 3) none = [1, 2] := by decide +kernel
example : select [0, 1, 2, 3, 4] none none (some (-1)) = [4, 3, 2, 1, 0] := by decide +kernel
example : select [0, 1, 2, 3, 4] (some (-9)) (some 9) (some 2) = [0, 2, 4] := by decide +kernel
example : select [0, 1, 2] (some 9) (some (-9)) (some (-2)) = [2, 0] := by decide +kernel

end JsonQuery.Slice
