import JsonQuery.Eval.Error

/-! Functions of queries. A `Function` has a name, for each parameter the types that it accepts, and what it
    computes from its arguments; the last parameter of a variadic function takes all arguments from its place
    on. `Function.invoke` checks the count, then each argument from left to right, and then computes. An
    argument that is an expression can be evaluated, and handed on as a value if it is known by something; a
    function that evaluates it more than once numbers the turns. A table lists functions by name, in the order
    in which the names first came. -/

namespace JsonQuery

/-- An argument: a value, or an expression to be evaluated, at numbered turns, against values. -/
inductive Argument (ρ : Type) where
  | value (v : Value ρ)
  | expression (known : Option ρ) (apply : Nat → Value ρ → Except EvalError (Value ρ))

namespace Argument

variable {ρ : Type}

/-- What an argument is. -/
def kind : Argument ρ → ValueKind
  | value v => v.kind
  | expression .. => .expression

/-- An argument as a value; an expression that is known by nothing is null. -/
def handed : Argument ρ → Value ρ
  | value v => v
  | expression (some r) _ => .reference r
  | expression none _ => .null

end Argument

/-- Whether a value is an array of which all items are of one kind. -/
def Value.isArrayOf {ρ : Type} (kind : ValueKind) : Value ρ → Bool
  | .array items => items.all fun x => x.kind == kind
  | _ => false

/-- Whether a parameter type accepts an argument. -/
def ParamType.accepts {ρ : Type} : ParamType → Argument ρ → Bool
  | .any, a => a.kind != .expression
  | .ofKind kind, a => a.kind == kind
  | .numbers, .value v => v.isArrayOf .number
  | .strings, .value v => v.isArrayOf .string
  | _, _ => false

/-- A function of queries. -/
structure Function (ρ : Type) where
  name : String
  params : List (List ParamType)
  variadic : Bool
  compute : List (Argument ρ) → Except EvalError (Value ρ)

namespace Function

variable {ρ : Type}

/-- Whether a function takes that many arguments. -/
def takes (f : Function ρ) (count : Nat) : Bool :=
  if f.variadic then f.params.length ≤ count else count == f.params.length

/-- The types that the argument at a place may have; places past the last parameter share it. -/
def slot? (f : Function ρ) (place : Nat) : Option (List ParamType) :=
  f.params[min place (f.params.length - 1)]?

/-- Checks the arguments from a place on. -/
def checkFrom (f : Function ρ) (place : Nat) : List (Argument ρ) → Except EvalError Unit
  | [] => .ok ()
  | a :: rest => match f.slot? place with
    | none => .error (.noParameter f.name)
    | some allowed =>
      if allowed.any fun p => p.accepts a then f.checkFrom (place + 1) rest
      else .error (.wrongArgument f.name (place + 1) allowed a.kind)

/-- Checks the arguments and computes the result. -/
def invoke (f : Function ρ) (args : List (Argument ρ)) : Except EvalError (Value ρ) :=
  if f.takes args.length then do
    f.checkFrom 0 args
    f.compute args
  else
    .error (.wrongCount f.name f.params.length f.variadic args.length)

end Function

/-- The functions that queries may call, by name. -/
abbrev FunctionTable (ρ : Type) := Members (Function ρ)

/-- Adds functions; one whose name is taken replaces the one that had it, in its place. -/
def FunctionTable.extend {ρ : Type} (table : FunctionTable ρ) (fs : List (Function ρ)) : FunctionTable ρ :=
  table.union (fs.map fun f => (f.name, f))

end JsonQuery
