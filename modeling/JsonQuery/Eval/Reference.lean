import JsonQuery.Eval.Evaluator

/-! Expressions as values. A function may give back an expression that was among its arguments. As a value such an
    expression is a reference, known by its path in the tree under evaluation and by the history of the call
    that it was written in; so two references are equal if they come from one evaluation of one call. When a
    reference is an argument again its node is looked up and evaluated at its own level, and the history goes
    on from the argument. An expression that is handed on may come to be evaluated within itself, so
    references that follow from each other are counted, and the stack has room for some number of them only; a
    written argument needs no reference and is not counted. -/

namespace JsonQuery

/-- A reference to a part of the tree under evaluation: the path to it, and how it came about. -/
structure Reference where
  path : List Nat
  history : List Step
  deriving DecidableEq

namespace Environment

/-- The environment of functions that may hand expressions on, given what becomes of the references. -/
def handing (functions : FunctionTable Reference) (limit : Int)
    (follow : Reference → Place → Value Reference → Except EvalError (Value Reference)) :
    Environment Reference :=
  ⟨functions, limit, fun place => some ⟨place.path, place.history⟩, follow⟩

end Environment

namespace Machine

/-- The plain value of what a reference into a tree refers to, evaluated for an argument at some place, if only so
    many references follow from each other. -/
def followed (stack : EvaluatorStack) (functions : FunctionTable Reference) (limit : Int) (tree : Expr) :
    Nat → Reference → Place → Value Reference → Except EvalError (Value Reference)
  | 0, _, _, _ => .error (.exhausted limit)
  | room + 1, r, caller, v => match tree.nodeAt? r.path with
    | none => .error .looseReference
    | some (e, place) => do
      let m : Machine Reference := ⟨.handing functions limit (followed stack functions limit tree room), stack⟩
      return (← e.visit m { place with history := caller.history } v).collapse

/-- A machine for a tree and for functions that may hand expressions on. -/
def linked (stack : EvaluatorStack) (functions : FunctionTable Reference) (limit : Int) (tree : Expr) :
    Machine Reference :=
  ⟨.handing functions limit (followed stack functions limit tree stack.references), stack⟩

end Machine

/-- The plain value of an expression at a document, under functions that may hand expressions on. -/
def Expr.evaluateLinked (stack : EvaluatorStack) (functions : FunctionTable Reference) (limit : Int) (e : Expr)
    (document : Json) : Except EvalError (Value Reference) :=
  e.evaluate (.linked stack functions limit e) document.lift

end JsonQuery
