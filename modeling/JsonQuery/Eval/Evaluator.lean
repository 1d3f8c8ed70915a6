import JsonQuery.Eval.Place
import JsonQuery.Eval.Projection
import JsonQuery.Eval.Slice
import JsonQuery.Expr.Parser
import JsonQuery.Function.Builtin

/-! Evaluating expressions against values. `Expr.visit` gives the projection that an expression denotes; the
    level of a node may not pass the limit. Missing data is null. Chains go on inside projections; pipes,
    logic, comparisons, multiselects and arguments see plain values. A function may hand an expression among its
    arguments on as a value; the environment says what the expression is then known by, and how it is
    evaluated when it is an argument again, at the place of that argument. Where functions hand nothing on
    nothing is known and values are JSON.

    A machine is an environment and the stack on which an evaluation runs. The stack may give out before the limit
    is met; when, is up to the machine, and is said for every place. What is done at a node after its children
    counts with the place of the node. An environment by itself stands for a machine that has stack enough. -/

namespace JsonQuery

variable {ρ : Type}

/-- What evaluation depends on besides the expression and the value. -/
structure Environment (ρ : Type) where
  functions : FunctionTable ρ
  limit : Int
  known : Place → Option ρ
  follow : ρ → Place → Value ρ → Except EvalError (Value ρ)

/-- The stack of a machine: whether it gives out on a node at some place, and how many references it lets follow
    from each other. -/
structure EvaluatorStack where
  givesOut : Place → Bool
  references : Nat

/-- A stack that never gives out on a node, for so many references. -/
def EvaluatorStack.ample (references : Nat) : EvaluatorStack := ⟨fun _ => false, references⟩

/-- An environment, and the stack on which an evaluation runs. -/
structure Machine (ρ : Type) extends Environment ρ where
  stack : EvaluatorStack

instance : Coe (Environment ρ) (Machine ρ) := ⟨fun env => ⟨env, .ample 0⟩⟩

/-- The outcome of a node at some place, unless the node is too deep or the stack gives out on it. -/
@[macro_inline]
def Machine.enter {α : Type} (m : Machine ρ) (place : Place) (outcome : Except EvalError α) : Except EvalError α :=
  if m.limit < place.level + 1 then .error (.tooDeep m.limit)
  else if m.stack.givesOut place then .error (.exhausted m.limit)
  else outcome

/-- With stack enough, a node within the limit has its outcome. -/
theorem Environment.enter_of {α : Type} {env : Environment ρ} {place : Place} (h : ¬ env.limit < place.level + 1)
    (outcome : Except EvalError α) : (env : Machine ρ).enter place outcome = outcome := by
  rw [Machine.enter, if_neg h]
  rfl

namespace Environment

/-- The environment of functions that hand no expression on. -/
def plain (functions : FunctionTable Empty) (limit : Int) : Environment Empty :=
  ⟨functions, limit, fun _ => none, fun r _ _ => nomatch r⟩

/-- A value as the argument at some place: a reference is an expression again. -/
def argument (env : Environment ρ) (place : Place) : Value ρ → Argument ρ
  | .reference r => .expression (some r) fun n w => env.follow r (place.turn [n]) w
  | v => .value v

end Environment

namespace Machine

/-- A machine for functions that hand no expression on. -/
abbrev plainOn (stack : EvaluatorStack) (functions : FunctionTable Empty) (limit : Int) : Machine Empty :=
  ⟨.plain functions limit, stack⟩

/-- A machine for functions that hand no expression on, with stack enough. -/
abbrev plain (functions : FunctionTable Empty) (limit : Int) : Machine Empty := plainOn (.ample 0) functions limit

end Machine

/-- The item at an index of an array, counted from the end if it is negative. -/
def Value.itemAt (i : Int) : Value ρ → Value ρ
  | .array items =>
    if -items.length ≤ i ∧ i < items.length then (items[(Slice.fromStart items.length i).toNat]?).getD .null
    else .null
  | _ => .null

/-- A slice of an array. -/
def Value.sliced (start stop step : Option Int) : Value ρ → Value ρ
  | .array items => .array (Slice.select items start stop step)
  | _ => .null

/-- An array; other values have no items. -/
def Value.arrayOrNull : Value ρ → Value ρ
  | .array items => .array items
  | _ => .null

/-- The values of an object. -/
def Value.objectValues : Value ρ → Value ρ
  | .object members => .array (Members.values members)
  | _ => .null

/-- The items of an array that satisfy a test that may fail and is told the number of the item. -/
def Value.filtered {ε : Type} (test : Nat → Value ρ → Except ε (Value ρ)) : Value ρ → Except ε (Value ρ)
  | .array items => do
    return .array ((← items.zipIdx.filterM fun (x, i) => return (← test i x).isTruthy).map Prod.fst)
  | _ => .ok .null

/-- The outcome of a comparison. Order is between numbers only. -/
def Comparator.compare [BEq ρ] : Comparator → Value ρ → Value ρ → Value ρ
  | .eq, v, w => .bool (v.equals w)
  | .ne, v, w => .bool (!v.equals w)
  | .lt, .number a, .number b => .bool (a.less b)
  | .le, .number a, .number b => .bool (a.lessEq b)
  | .gt, .number a, .number b => .bool (b.less a)
  | .ge, .number a, .number b => .bool (b.lessEq a)
  | _, _, _ => .null

namespace Expr

mutual

/-- The projection that an expression at some place denotes at a value. -/
def visit [BEq ρ] (m : Machine ρ) : Expr → Place → Value ρ → Except EvalError (Projected ρ)
  | e, place, v =>
    m.enter place <| match e with
      | identifier name => .ok (.plain (v.field name))
      | current => .ok (.plain v)
      | literal w => .ok (.plain w.lift)
      | rawString text => .ok (.plain (.string text))
      | index base i => do
        (← visitBase m base (place.child 0) v).apply fun _ w => .ok (w.itemAt i)
      | slice base start stop step =>
        if step = some 0 then .error .zeroStep
        else do (← visitBase m base (place.child 0) v).expand fun _ w => .ok (w.sliced start stop step)
      | flatten base => do
        return ⟨(← visitBase m base (place.child 0) v).collapse.flattened, 1⟩
      | subexpression left right => do
        let p ← visit m left (place.child 0) v
        if p.depth = 0 then visit m right (place.child 1) p.value
        else p.apply fun way w => return (← visit m right ((place.child 1).turn way) w).collapse
      | objectWildcard base => do
        (← visitBase m base (place.child 0) v).expand fun _ w => .ok w.objectValues
      | arrayWildcard base => do
        (← visitBase m base (place.child 0) v).expand fun _ w => .ok w.arrayOrNull
      | pipe left right => do
        visit m right (place.child 1) (← visit m left (place.child 0) v).collapse
      | or left right => do
        let w := (← visit m left (place.child 0) v).collapse
        if w.isTruthy then return .plain w
        else return .plain (← visit m right (place.child 1) v).collapse
      | and left right => do
        let w := (← visit m left (place.child 0) v).collapse
        if w.isTruthy then return .plain (← visit m right (place.child 1) v).collapse
        else return .plain w
      | not operand => do
        return .plain (.bool !(← visit m operand (place.child 0) v).collapse.isTruthy)
      | comparison op left right => do
        let a := (← visit m left (place.child 0) v).collapse
        let b := (← visit m right (place.child 1) v).collapse
        return .plain (op.compare a b)
      | filter source predicate => do
        let inner := place.child source.toList.length
        (← visitBase m source (place.child 0) v).expand fun way w =>
          w.filtered fun n x => return (← visit m predicate (inner.turn (n :: way)) x).collapse
      | multiselectList items =>
        if v.isNull then .ok (.plain .null)
        else do return .plain (.array (← visitItems m items 0 place v))
      | multiselectHash pairs =>
        if v.isNull then .ok (.plain .null)
        else do return .plain (.object (Members.ofPairs (← visitPairs m pairs 0 place v)))
      | call function args =>
        match Members.get? function m.functions with
        | none => .error (.unknownFunction function)
        | some f => do return .plain (← f.invoke (← visitArgs m args 0 place v))
      | reference _ => .error .looseReference
      | extension kind => .error (.unknownNode kind)

/-- The projection that a child denotes; the current value if the child is absent. -/
def visitBase [BEq ρ] (m : Machine ρ) :
    Option Expr → Place → Value ρ → Except EvalError (Projected ρ)
  | none, _, v => .ok (.plain v)
  | some e, place, v => visit m e place v

/-- The values of the children of a node from some child on, in order. -/
def visitItems [BEq ρ] (m : Machine ρ) :
    List Expr → Nat → Place → Value ρ → Except EvalError (List (Value ρ))
  | [], _, _, _ => .ok []
  | e :: es, i, place, v => do
    let w := (← visit m e (place.child i) v).collapse
    return w :: (← visitItems m es (i + 1) place v)

/-- The values of the keyed children of a node from some child on, in order. -/
def visitPairs [BEq ρ] (m : Machine ρ) :
    List (String × Expr) → Nat → Place → Value ρ → Except EvalError (List (String × Value ρ))
  | [], _, _, _ => .ok []
  | (k, e) :: es, i, place, v => do
    let w := (← visit m e (place.child i) v).collapse
    return (k, w) :: (← visitPairs m es (i + 1) place v)

/-- The arguments that the children of a node stand for from some child on, in order: values, and what
    references refer to. -/
def visitArgs [BEq ρ] (m : Machine ρ) :
    List Expr → Nat → Place → Value ρ → Except EvalError (List (Argument ρ))
  | [], _, _, _ => .ok []
  | reference e :: es, i, place, v => do
    let inner := place.child i
    return .expression (m.known inner) (fun n w => return (← visit m e (inner.turn [n]) w).collapse)
      :: (← visitArgs m es (i + 1) place v)
  | e :: es, i, place, v => do
    let w := (← visit m e (place.child i) v).collapse
    return m.argument (place.child i) w :: (← visitArgs m es (i + 1) place v)

end

/-- The plain value of an expression at a value. -/
def evaluate [BEq ρ] (m : Machine ρ) (e : Expr) (v : Value ρ) : Except EvalError (Value ρ) := do
  return (← visit m e .root v).collapse

end Expr
end JsonQuery
