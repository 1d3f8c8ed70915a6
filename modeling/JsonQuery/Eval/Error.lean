import JsonQuery.Json.Basic
import JsonQuery.Number.Numeral
import JsonQuery.Text.Quoted

/-! Why an evaluation fails. Missing data never does: what remains is functions that are unknown or are given
    the wrong arguments, slices with a step of 0, expressions that are too deep or hand references on without
    end, nodes that have no value, and integers too large for a double or too long to be written. -/

namespace JsonQuery

/-- What a parameter of a function accepts. -/
inductive ParamType where
  | any
  | ofKind (kind : ValueKind)
  | numbers
  | strings
  deriving DecidableEq

/-- The name of a parameter type. -/
def ParamType.label : ParamType → String
  | .any => "any"
  | .ofKind kind => kind.label
  | .numbers => "array-number"
  | .strings => "array-string"

/-- All parameter types. -/
def ParamType.all : List ParamType :=
  [.any, .ofKind .number, .ofKind .string, .ofKind .boolean, .ofKind .array, .ofKind .object, .ofKind .null,
    .ofKind .expression, .numbers, .strings]

/-- What a number was too large for. -/
inductive Overflow where
  | conversion
  | quotient
  deriving DecidableEq

/-- Why an evaluation fails. -/
inductive EvalError where
  | unknownFunction (function : String)
  | wrongCount (function : String) (wanted : Nat) (orMore : Bool) (received : Nat)
  | wrongArgument (function : String) (position : Nat) (allowed : List ParamType) (received : ValueKind)
  | wrongKey (function : String) (wanted : Option ValueKind) (received : ValueKind)
  | noParameter (function : String)
  | looseReference
  | zeroStep
  | tooDeep (limit : Int)
  | exhausted (limit : Int)
  | unknownNode (kind : String)
  | overflow (what : Overflow)
  | overlong
  deriving DecidableEq

/-- The kinds of failure that a query may meet. -/
inductive FailureKind where
  | unknownFunction | arityMismatch | typeMismatch | zeroStep | tooDeep
  deriving DecidableEq

/-- The name of a kind of failure. -/
def FailureKind.label : FailureKind → String
  | .unknownFunction => "unknown_function"
  | .arityMismatch => "arity_mismatch"
  | .typeMismatch => "type_mismatch"
  | .zeroStep => "invalid_step_0"
  | .tooDeep => "max_depth_exceeded"

namespace EvalError

/-- The kind of a failure; the last few are not failures of a query but of a host or of arithmetic. -/
def kind? : EvalError → Option FailureKind
  | unknownFunction _ => some .unknownFunction
  | wrongCount .. => some .arityMismatch
  | wrongArgument .. | wrongKey .. | looseReference => some .typeMismatch
  | zeroStep => some .zeroStep
  | tooDeep _ | exhausted _ => some .tooDeep
  | noParameter _ | unknownNode _ | overflow _ | overlong => none

/-- The function that a failure is about. -/
def function? : EvalError → Option String
  | unknownFunction f | wrongCount f .. | wrongArgument f .. | wrongKey f .. | noParameter f => some f
  | looseReference | zeroStep | tooDeep _ | exhausted _ | unknownNode _ | overflow _ | overlong => none

/-- What was wrong, in words. -/
def message : EvalError → String
  | unknownFunction f => "Unknown function: " ++ f ++ "()"
  | wrongCount f wanted orMore received =>
    "Expected " ++ (if orMore then "at least " else "") ++ toString wanted
      ++ (if wanted = 1 then " argument" else " arguments") ++ " for function " ++ f ++ "(), received "
      ++ toString received
  | wrongArgument f position allowed received =>
    "In function " ++ f ++ "(), invalid type for argument " ++ toString position ++ ": expected one of "
      ++ Text.quotedList (allowed.map ParamType.label) ++ ", received \"" ++ received.label ++ "\""
  | wrongKey f wanted received =>
    "In function " ++ f ++ "(), invalid type for expression result: expected "
      ++ (match wanted with
        | some kind => kind.label
        | none => "number or string")
      ++ ", received \"" ++ received.label ++ "\""
  | noParameter _ => "tuple index out of range"
  | looseReference => "Expression references (&) can only be passed to functions"
  | zeroStep => "Slice step cannot be 0"
  | tooDeep limit => "Expression exceeds maximum evaluation depth of " ++ String.ofList (intText limit)
  | exhausted limit =>
    "Expression nesting exhausted the interpreter stack before the maximum evaluation depth of "
      ++ String.ofList (intText limit)
  | unknownNode kind => "Cannot evaluate node of type " ++ kind
  | overflow .conversion => "int too large to convert to float"
  | overflow .quotient => "integer division result too large for a float"
  | overlong =>
    "Exceeds the limit (4300 digits) for integer string conversion; use sys.set_int_max_str_digits() to "
      ++ "increase the limit"

end EvalError
end JsonQuery
