import JsonQuery.Eval.Evaluator

/-! A direct meaning of expressions. Where the evaluator carries a projection along a chain and collapses it
    at the end, here an expression is given the rest of its chain as a function of a value, and a projection
    applies that function to each of its items at once and drops the nulls. Only a flattening waits for the
    final value of its base. Pipes, logic, comparisons, multiselects and arguments see final values. -/

namespace JsonQuery

variable {ε : Type}

/-- The rest of a chain at each item of an array, without the nulls; null for other values. -/
def Value.each (k : Json → Except ε Json) : Json → Except ε Json
  | .array items => do return .array ((← items.mapM k).filter fun v => !v.isNull)
  | _ => .ok .null

namespace Expr

mutual

/-- What an expression gives at a value if the rest of its chain is a certain function. -/
def direct (functions : FunctionTable Empty) :
    Expr → Json → (Json → Except EvalError Json) → Except EvalError Json
  | identifier name, v, k => k (v.field name)
  | current, v, k => k v
  | literal w, _, k => k w
  | rawString text, _, k => k (.string text)
  | index base i, v, k => directBase functions base v fun w => k (w.itemAt i)
  | slice base start stop step, v, k =>
    if step = some 0 then .error .zeroStep
    else directBase functions base v fun w => (w.sliced start stop step).each k
  | flatten base, v, k => do (← directBase functions base v .ok).flattened.each k
  | subexpression left right, v, k => direct functions left v fun w => direct functions right w k
  | objectWildcard base, v, k => directBase functions base v fun w => w.objectValues.each k
  | arrayWildcard base, v, k => directBase functions base v fun w => w.each k
  | pipe left right, v, k => do direct functions right (← direct functions left v .ok) k
  | or left right, v, k => do
    let w ← direct functions left v .ok
    if w.isTruthy then k w else k (← direct functions right v .ok)
  | and left right, v, k => do
    let w ← direct functions left v .ok
    if w.isTruthy then k (← direct functions right v .ok) else k w
  | not operand, v, k => do k (.bool !(← direct functions operand v .ok).isTruthy)
  | comparison op left right, v, k => do
    let a ← direct functions left v .ok
    let b ← direct functions right v .ok
    k (op.compare a b)
  | filter source predicate, v, k => directBase functions source v fun w => do
    (← w.filtered fun _ x => direct functions predicate x .ok).each k
  | multiselectList items, v, k =>
    if v.isNull then k .null else do k (.array (← directItems functions items v))
  | multiselectHash pairs, v, k =>
    if v.isNull then k .null else do k (.object (Members.ofPairs (← directPairs functions pairs v)))
  | call function args, v, k =>
    match Members.get? function functions with
    | none => .error (.unknownFunction function)
    | some f => do k (← f.invoke (← directArgs functions args v))
  | reference _, _, _ => .error .looseReference
  | extension kind, _, _ => .error (.unknownNode kind)

/-- What a child that may be absent gives; the current value if it is. -/
def directBase (functions : FunctionTable Empty) :
    Option Expr → Json → (Json → Except EvalError Json) → Except EvalError Json
  | none, v, k => k v
  | some e, v, k => direct functions e v k

/-- The final values of some expressions, in order. -/
def directItems (functions : FunctionTable Empty) : List Expr → Json → Except EvalError (List Json)
  | [], _ => .ok []
  | e :: es, v => do
    let w ← direct functions e v .ok
    return w :: (← directItems functions es v)

/-- The final values of some keyed expressions, in order. -/
def directPairs (functions : FunctionTable Empty) :
    List (String × Expr) → Json → Except EvalError (List (String × Json))
  | [], _ => .ok []
  | (key, e) :: es, v => do
    let w ← direct functions e v .ok
    return (key, w) :: (← directPairs functions es v)

/-- The arguments of a call, in order: final values, and what references refer to. -/
def directArgs (functions : FunctionTable Empty) : List Expr → Json → Except EvalError (List (Argument Empty))
  | [], _ => .ok []
  | reference e :: es, v => do
    return .expression none (fun _ w => direct functions e w .ok) :: (← directArgs functions es v)
  | e :: es, v => do
    let w ← direct functions e v .ok
    return .value w :: (← directArgs functions es v)

end

end Expr
end JsonQuery
