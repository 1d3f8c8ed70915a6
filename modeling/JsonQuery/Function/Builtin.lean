import JsonQuery.Function.Basic
import JsonQuery.Function.Order
import JsonQuery.Json.Printer
import JsonQuery.Text.DecimalDigit
import JsonQuery.Text.Search

/-! The functions that every query may call. Each is a signature and what it computes from arguments that the
    signature admits; for arguments that it does not admit the result is null, and `Function.invoke` never
    asks for it. -/

namespace JsonQuery.Builtin

variable {ρ : Type}

/-- Computes from values alone. -/
def onValues (compute : List (Value ρ) → Except EvalError (Value ρ)) (args : List (Argument ρ)) :
    Except EvalError (Value ρ) :=
  compute (args.filterMap fun
    | .value v => some v
    | .expression .. => none)

/-- A parameter for values of one kind. -/
def one (kind : ValueKind) : List ParamType := [.ofKind kind]

/-- A parameter for arrays of numbers or of strings. -/
def ordered : List ParamType := [.numbers, .strings]

/-- The numbers among some values. -/
def numbersOf (items : List (Value ρ)) : List Number := items.filterMap Value.number?

/-- The strings among some values. -/
def stringsOf (items : List (Value ρ)) : List String := items.filterMap Value.string?

/-! ### Numbers -/

/-- The sum; an integer past the largest double cannot be added to a double. -/
def sum (xs : List Number) : Except EvalError Number :=
  match Number.sum? xs with
  | some n => .ok n
  | none => .error (.overflow .conversion)

/-- The sum divided by the count, as a double rounded once; null if there are no numbers. -/
def avg (xs : List Number) : Except EvalError (Value ρ) :=
  if xs.isEmpty then .ok .null
  else do
    match ← sum xs with
    | .int n => match Double.ofQuotient? n xs.length with
      | some d => .ok (.number (.double d))
      | none => .error (.overflow .quotient)
    | .double x => .ok (.number (.double (x.divNat xs.length)))

/-- A number made whole by a rule for finite doubles. An integer stays as it is, but has to fit a double; an
    infinity and a NaN stay as they are. -/
def whole (toInt? : Double → Option Int) : Number → Except EvalError Number
  | .int n => match Double.ofInt? n with
    | some _ => .ok (.int n)
    | none => .error (.overflow .conversion)
  | .double x => match toInt? x with
    | some n => .ok (.int n)
    | none => .ok (.double x)

/-- The double that an integer's text stands for: an infinity if the integer is too large. -/
def integerOrInfinity (n : Int) : Number :=
  match Double.ofInt? n with
  | some _ => .int n
  | none => .double (.infinite (decide (n < 0)))

/-- The number that a whole text spells, digits of any script being admitted after the first; otherwise
    null. An integer too large for a double gives an infinity. -/
def numberOfText (cs : List Char) : Value ρ :=
  match Numeral.read? Text.decimalDigit? cs with
  | some (n, []) => match n.value with
    | .int i => .number (integerOrInfinity i)
    | .double x => .number (.double x)
  | _ => .null

/-! ### Strings and containers -/

/-- Whether an array has an item equal to a value, or a string holds another. -/
def contains [BEq ρ] : Value ρ → Value ρ → Bool
  | .string s, .string part => Text.occursIn part.toList s.toList
  | .array items, v => items.any fun x => x.equals v
  | _, _ => false

/-- The count of characters, items or members. -/
def length : Value ρ → Nat
  | .string s => s.toList.length
  | .array items => items.length
  | .object members => members.length
  | _ => 0

/-- A string or an array backwards. -/
def reverse : Value ρ → Value ρ
  | .string s => .string (String.ofList s.toList.reverse)
  | .array items => .array items.reverse
  | v => v

/-- An array as it is, any other value alone in an array. -/
def toArray : Value ρ → Value ρ
  | .array items => .array items
  | v => .array [v]

/-- A string as it is, any other value as its JSON text, which it has unless an integer in it is too long. -/
def toString : Value ρ → Except EvalError (Value ρ)
  | .string s => .ok (.string s)
  | v => if v.toJson.isWritable then .ok (.string v.toJson.text) else .error .overlong

/-- A number as it is, a string as the number that it spells, anything else null. -/
def toNumber : Value ρ → Value ρ
  | .number n => .number n
  | .string s => numberOfText s.toList
  | _ => .null

/-- The members of all objects, later ones winning. -/
def merge (objects : List (Members (Value ρ))) : Members (Value ρ) := objects.foldl Members.union []

/-- The first value that is not null. -/
def notNull (values : List (Value ρ)) : Value ρ := (values.find? fun v => !v.isNull).getD .null

/-! ### The table -/

/-- A function of values, with a fixed number of parameters. -/
def ofValues (name : String) (params : List (List ParamType))
    (compute : List (Value ρ) → Except EvalError (Value ρ)) : Function ρ :=
  ⟨name, params, false, onValues compute⟩

/-- A function of one value. -/
def unary (name : String) (param : List ParamType) (compute : Value ρ → Except EvalError (Value ρ)) : Function ρ :=
  ofValues name [param] fun
    | [v] => compute v
    | _ => .ok .null

/-- A function of two values. -/
def binary (name : String) (first second : List ParamType)
    (compute : Value ρ → Value ρ → Except EvalError (Value ρ)) : Function ρ :=
  ofValues name [first, second] fun
    | [v, w] => compute v w
    | _ => .ok .null

/-- A function of one number. -/
def numeric (name : String) (compute : Number → Except EvalError Number) : Function ρ :=
  unary name (one .number) fun
    | .number n => (compute n).map .number
    | _ => .ok .null

/-- A function of an array of numbers. -/
def aggregate (name : String) (compute : List Number → Except EvalError (Value ρ)) : Function ρ :=
  unary name [.numbers] fun
    | .array items => compute (numbersOf items)
    | _ => .ok .null

/-- A function of an array of numbers or of strings. -/
def ofOrdered (name : String) (compute : List (Value ρ) → Value ρ) : Function ρ :=
  unary name ordered fun
    | .array items => .ok (compute items)
    | _ => .ok .null

/-- A function of two strings. -/
def ofStrings (name : String) (compute : List Char → List Char → Bool) : Function ρ :=
  binary name (one .string) (one .string) fun
    | .string s, .string t => .ok (.bool (compute s.toList t.toList))
    | _, _ => .ok .null

/-- A function of an object. -/
def ofObject (name : String) (compute : Members (Value ρ) → List (Value ρ)) : Function ρ :=
  unary name (one .object) fun
    | .object members => .ok (.array (compute members))
    | _ => .ok .null

/-- A function of an array and of the keys that an expression gives its items. -/
def keyed (name : String) (compute : Keyed ρ → Value ρ) : Function ρ :=
  ⟨name, [one .array, one .expression], false, fun
    | [.value (.array items), .expression _ apply] => do return compute (← Keyed.ofKeys name apply items)
    | _ => .ok .null⟩

/-- The value of an expression at each item of an array. -/
def map : Function ρ :=
  ⟨"map", [one .expression, one .array], false, fun
    | [.expression _ apply, .value (.array items)] => do
      return .array (← items.zipIdx.mapM fun (x, i) => apply i x)
    | _ => .ok .null⟩

/-- Strings with a string between each two. -/
def join : Function ρ :=
  binary "join" (one .string) [.strings] fun
    | .string glue, .array items => .ok (.string (String.intercalate glue (stringsOf items)))
    | _, _ => .ok .null

/-- A function of any number of values, at least one. -/
def variadic (name : String) (param : List ParamType) (compute : List (Value ρ) → Value ρ) : Function ρ :=
  ⟨name, [param], true, onValues fun vs => .ok (compute vs)⟩

/-- All builtin functions, in the order of the table. -/
def all [BEq ρ] : List (Function ρ) :=
  [numeric "abs" fun n => .ok n.abs,
    aggregate "avg" avg,
    numeric "ceil" (whole Double.ceil?),
    numeric "floor" (whole Double.floor?),
    binary "contains" [.ofKind .array, .ofKind .string] [.any] fun v w => .ok (.bool (contains v w)),
    ofStrings "ends_with" fun s t => t.isSuffixOf s,
    ofStrings "starts_with" fun s t => t.isPrefixOf s,
    join,
    ofObject "keys" fun members => members.keys.map .string,
    ofObject "values" Members.values,
    unary "length" [.ofKind .string, .ofKind .array, .ofKind .object] fun v => .ok (.int (length v)),
    map,
    ofOrdered "max" fun items => (Keyed.greatest? (.ofItems items)).getD .null,
    ofOrdered "min" fun items => (Keyed.least? (.ofItems items)).getD .null,
    keyed "max_by" fun xs => xs.greatest?.getD .null,
    keyed "min_by" fun xs => xs.least?.getD .null,
    ofOrdered "sort" fun items => .array (Keyed.sorted (.ofItems items)),
    keyed "sort_by" fun xs => .array xs.sorted,
    variadic "merge" (one .object) fun vs => .object (merge (vs.filterMap Value.members?)),
    variadic "not_null" [.any] notNull,
    unary "reverse" [.ofKind .array, .ofKind .string] fun v => .ok (reverse v),
    aggregate "sum" fun xs => (sum xs).map .number,
    unary "to_array" [.any] fun v => .ok (toArray v),
    unary "to_string" [.any] toString,
    unary "to_number" [.any] fun v => .ok (toNumber v),
    unary "type" [.any] fun v => .ok (.string v.kind.label)]

/-- The table of builtin functions. -/
def table [BEq ρ] : FunctionTable ρ := FunctionTable.extend [] all

end JsonQuery.Builtin
