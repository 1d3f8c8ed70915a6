import JsonQuery.Json.Members
import JsonQuery.Number.Basic

/-! Values. A `Value` is built like JSON, but its leaves may also be references to something else, known by a
    `ρ`; a JSON value is one whose references are empty, so that it has none. Objects keep the order of their
    keys, and `1` and `1.0` are different values that are equal numbers. `Value.equals` is the equality of
    queries: it keeps booleans and numbers apart, compares numbers by value, ignores the order of keys and
    compares references by what they are known by. `Value.isTruthy` is the truth of queries: null, false and
    whatever is empty are false, and every number and reference is true. -/

namespace JsonQuery

/-- A value whose leaves may be references. -/
inductive Value (ρ : Type) where
  | null
  | bool (value : Bool)
  | number (value : Number)
  | string (value : String)
  | array (items : List (Value ρ))
  | object (members : List (String × Value ρ))
  | reference (known : ρ)
  deriving Inhabited

/-- A JSON value. -/
abbrev Json := Value Empty

/-- The kinds of value; a reference is an expression. -/
inductive ValueKind where
  | null | boolean | number | string | array | object | expression
  deriving DecidableEq

/-- The name of a kind, in queries and in messages. -/
def ValueKind.label : ValueKind → String
  | .null => "null"
  | .boolean => "boolean"
  | .number => "number"
  | .string => "string"
  | .array => "array"
  | .object => "object"
  | .expression => "expref"

namespace Value

variable {ρ : Type}

/-- The kind of a value. -/
def kind : Value ρ → ValueKind
  | null => .null
  | bool _ => .boolean
  | number _ => .number
  | string _ => .string
  | array _ => .array
  | object _ => .object
  | reference _ => .expression

/-- The value of an integer. -/
def int (n : Int) : Value ρ := .number (.int n)

/-- Whether a value counts as true. -/
def isTruthy : Value ρ → Bool
  | null => false
  | bool b => b
  | number _ => true
  | string s => s != ""
  | array items => !items.isEmpty
  | object members => !members.isEmpty
  | reference _ => true

/-- Whether a value is null. -/
def isNull : Value ρ → Bool
  | null => true
  | _ => false

mutual

/-- Equality of values in queries. -/
def equals [BEq ρ] : Value ρ → Value ρ → Bool
  | null, null => true
  | bool a, bool b => a == b
  | number a, number b => a.equals b
  | string a, string b => a == b
  | array xs, array ys => equalItems xs ys
  | object ms, object ns => ms.length == ns.length && equalMembers ms ns
  | reference a, reference b => a == b
  | _, _ => false

/-- Equality item by item. -/
def equalItems [BEq ρ] : List (Value ρ) → List (Value ρ) → Bool
  | [], [] => true
  | x :: xs, y :: ys => equals x y && equalItems xs ys
  | _, _ => false

/-- Whether the second members give each key of the first an equal value. -/
def equalMembers [BEq ρ] : List (String × Value ρ) → List (String × Value ρ) → Bool
  | [], _ => true
  | (k, v) :: ms, ns =>
    (match Members.get? k ns with
      | some w => equals v w
      | none => false) && equalMembers ms ns

end

/-- The items of an array. -/
def items? : Value ρ → Option (List (Value ρ))
  | array items => some items
  | _ => none

/-- The members of an object. -/
def members? : Value ρ → Option (Members (Value ρ))
  | object members => some members
  | _ => none

/-- The value of a number. -/
def number? : Value ρ → Option Number
  | number n => some n
  | _ => none

/-- The text of a string. -/
def string? : Value ρ → Option String
  | string s => some s
  | _ => none

/-- The value of a key of an object; whatever is not there is null. -/
def field (key : String) : Value ρ → Value ρ
  | object members => (Members.get? key members).getD .null
  | _ => .null

/-! ### Between JSON and other values -/

mutual

/-- A JSON value among values with references. -/
def lift : Json → Value ρ
  | .null => null
  | .bool b => bool b
  | .number n => number n
  | .string s => string s
  | .array items => array (liftItems items)
  | .object members => object (liftMembers members)

/-- JSON values among values with references. -/
def liftItems : List Json → List (Value ρ)
  | [] => []
  | v :: rest => lift v :: liftItems rest

/-- Members with JSON values among members with references. -/
def liftMembers : List (String × Json) → List (String × Value ρ)
  | [] => []
  | (k, v) :: rest => (k, lift v) :: liftMembers rest

end

mutual

/-- A value as JSON, every reference being null. -/
def toJson : Value ρ → Json
  | null => .null
  | bool b => .bool b
  | number n => .number n
  | string s => .string s
  | array items => .array (toJsonItems items)
  | object members => .object (toJsonMembers members)
  | reference _ => .null

/-- Values as JSON. -/
def toJsonItems : List (Value ρ) → List Json
  | [] => []
  | v :: rest => toJson v :: toJsonItems rest

/-- Members as JSON. -/
def toJsonMembers : List (String × Value ρ) → List (String × Json)
  | [] => []
  | (k, v) :: rest => (k, toJson v) :: toJsonMembers rest

end

mutual

theorem toJson_lift : ∀ v : Json, (lift v : Value ρ).toJson = v
  | .null | .bool _ | .number _ | .string _ => rfl
  | .array items => by rw [lift, toJson, toJsonItems_liftItems]
  | .object members => by rw [lift, toJson, toJsonMembers_liftMembers]

theorem toJsonItems_liftItems : ∀ items : List Json, toJsonItems (liftItems items : List (Value ρ)) = items
  | [] => rfl
  | v :: rest => by rw [liftItems, toJsonItems, toJson_lift, toJsonItems_liftItems]

theorem toJsonMembers_liftMembers : ∀ members : List (String × Json),
    toJsonMembers (liftMembers members : List (String × Value ρ)) = members
  | [] => rfl
  | (k, v) :: rest => by rw [liftMembers, toJsonMembers, toJson_lift, toJsonMembers_liftMembers]

end

mutual

theorem lift_self : ∀ v : Json, (lift v : Json) = v
  | .null | .bool _ | .number _ | .string _ => rfl
  | .array items => by rw [lift, liftItems_self]
  | .object members => by rw [lift, liftMembers_self]

theorem liftItems_self : ∀ items : List Json, (liftItems items : List Json) = items
  | [] => rfl
  | v :: rest => by rw [liftItems, lift_self, liftItems_self]

theorem liftMembers_self : ∀ members : List (String × Json), (liftMembers members : List (String × Json)) = members
  | [] => rfl
  | (k, v) :: rest => by rw [liftMembers, lift_self, liftMembers_self]

end

end Value
end JsonQuery
