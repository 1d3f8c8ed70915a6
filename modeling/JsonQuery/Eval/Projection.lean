import JsonQuery.Json.Basic

/-! Projections. A wildcard, a slice, a filter and a flattening give a projection: a value of some depth, to
    whose elements that many levels down the rest of a chain applies. A value of depth 0 is plain. Collapsing
    a projection to a plain value drops the nulls of every level. -/

namespace JsonQuery

/-- A value and how many levels of projection it has. -/
structure Projected (ρ : Type) where
  value : Value ρ
  depth : Nat

namespace Projected

variable {ρ : Type}

/-- A value without projection. -/
def plain (v : Value ρ) : Projected ρ := ⟨v, 0⟩

/-- Applies a function that may fail to every element at the innermost level. The function is told the numbers
    of the items that lead to the element, the last one first, which go on from some that are given. -/
def mapInner {ε : Type} (f : List Nat → Value ρ → Except ε (Value ρ)) :
    Nat → List Nat → Value ρ → Except ε (Value ρ)
  | 0, way, v => f way v
  | depth + 1, way, .array items => do
    return .array (← items.zipIdx.mapM fun (x, i) => mapInner f depth (i :: way) x)
  | _ + 1, _, _ => .ok .null

/-- The plain value of a projection. -/
def collapseValue : Nat → Value ρ → Value ρ
  | 0, v => v
  | depth + 1, .array items => .array ((items.map (collapseValue depth)).filter fun v => !v.isNull)
  | _ + 1, _ => .null

/-- The plain value of a projection. -/
def collapse (p : Projected ρ) : Value ρ := collapseValue p.depth p.value

/-- The value after a function that may fail has been applied to every element at the innermost level. -/
def apply {ε : Type} (p : Projected ρ) (f : List Nat → Value ρ → Except ε (Value ρ)) :
    Except ε (Projected ρ) := do
  return ⟨← mapInner f p.depth [] p.value, p.depth⟩

/-- The projection with one more level, which a function that may fail makes of every element at the
    innermost. -/
def expand {ε : Type} (p : Projected ρ) (f : List Nat → Value ρ → Except ε (Value ρ)) :
    Except ε (Projected ρ) := do
  return ⟨← mapInner f p.depth [] p.value, p.depth + 1⟩

end Projected

/-- An array whose items that are arrays have been replaced by their own items; null for other values. -/
def Value.flattened {ρ : Type} : Value ρ → Value ρ
  | .array items => .array (items.flatMap fun
    | .array inner => inner
    | v => [v])
  | _ => .null

end JsonQuery
