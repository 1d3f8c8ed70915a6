import JsonQuery.Function.Basic

/-! Ready-made computations from which a host can put functions of its own together: choosing or counting
    arguments, listing and joining them, doubling a value, and applying an expression to a value. Expressions
    among the arguments are handed on like values. Where the arguments do not suit the computation the result
    is null. -/

namespace JsonQuery

/-- A ready-made computation. -/
inductive Sample where
  | first | last | count | list | null | concat | double | apply | applyTwice
  deriving DecidableEq

namespace Sample

variable {ρ : Type}

/-- The name of a computation. -/
def label : Sample → String
  | first => "first"
  | last => "last"
  | count => "count"
  | list => "list"
  | null => "null"
  | concat => "concat"
  | double => "double"
  | apply => "apply"
  | applyTwice => "apply_twice"

/-- All ready-made computations. -/
def all : List Sample := [first, last, count, list, null, concat, double, apply, applyTwice]

/-- Twice a value: a number doubled, a boolean doubled as 1 or 0, a text or an array repeated. -/
def twice : Value ρ → Value ρ
  | .number n => .number n.twice
  | .bool b => .int (if b then 2 else 0)
  | .string text => .string (text ++ text)
  | .array items => .array (items ++ items)
  | _ => .null

/-- What a ready-made computation gives for some arguments. -/
def compute (s : Sample) (args : List (Argument ρ)) : Except EvalError (Value ρ) :=
  match s, args with
  | first, _ => .ok ((args.head?.map Argument.handed).getD .null)
  | last, _ => .ok ((args.getLast?.map Argument.handed).getD .null)
  | count, _ => .ok (.int args.length)
  | list, _ => .ok (.array (args.map Argument.handed))
  | concat, _ => .ok (.string (String.join (args.filterMap fun a => a.handed.string?)))
  | double, [.value v] => .ok (twice v)
  | apply, [.expression _ f, a] => f 0 a.handed
  | applyTwice, [.expression _ f, a] => f 0 a.handed >>= f 1
  | _, _ => .ok .null

end Sample
end JsonQuery
