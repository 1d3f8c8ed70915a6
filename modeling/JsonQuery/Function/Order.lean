import JsonQuery.Eval.Error

/-! Ordering values by keys. Keys are numbers, compared by exact value, or strings, compared by code point.
    Sorting is stable; of several least or greatest elements the first is taken. -/

namespace JsonQuery

variable {ρ : Type}

/-- Whether one key is strictly below another; keys of different kinds are not ordered. -/
def Value.keyLess : Value ρ → Value ρ → Bool
  | .number a, .number b => a.less b
  | .string a, .string b => decide (a < b)
  | _, _ => false

/-- Elements with their keys. -/
abbrev Keyed (ρ : Type) := List (Value ρ × Value ρ)

namespace Keyed

/-- The elements in the order of their keys, elements with equal keys in the order in which they came. -/
def sorted (xs : Keyed ρ) : List (Value ρ) :=
  (xs.mergeSort fun a b => !b.1.keyLess a.1).map Prod.snd

/-- The first of the elements that no other is better than. -/
def best? (better : Value ρ → Value ρ → Bool) : Keyed ρ → Option (Value ρ)
  | [] => none
  | x :: xs => some (xs.foldl (fun b a => if better a.1 b.1 then a else b) x).2

/-- The first of the elements with the least key. -/
def least? (xs : Keyed ρ) : Option (Value ρ) := xs.best? Value.keyLess

/-- The first of the elements with the greatest key. -/
def greatest? (xs : Keyed ρ) : Option (Value ρ) := xs.best? fun a b => b.keyLess a

/-- Elements that are their own keys. -/
def ofItems (items : List (Value ρ)) : Keyed ρ := items.map fun x => (x, x)

/-- The kind that the first of some keys asks of all of them, if it is one that is ordered. -/
def wantedKind? (key : Value ρ) : Option ValueKind :=
  match key.kind with
  | .number => some .number
  | .string => some .string
  | _ => none

/-- Checks that keys are all numbers or all strings; `function` is the one that needs them. -/
def checkKeys (function : String) : List (Value ρ) → Except EvalError Unit
  | [] => .ok ()
  | key :: keys =>
    match (key :: keys).find? fun k => some k.kind != wantedKind? key with
    | none => .ok ()
    | some k => .error (.wrongKey function (wantedKind? key) k.kind)

/-- The elements with their keys, which are computed first, all of them and in turn, and then checked. -/
def ofKeys (function : String) (apply : Nat → Value ρ → Except EvalError (Value ρ)) (items : List (Value ρ)) :
    Except EvalError (Keyed ρ) := do
  let keys ← items.zipIdx.mapM fun (x, i) => apply i x
  checkKeys function keys
  return keys.zip items

end Keyed
end JsonQuery
