import JsonQuery.Json.Basic
import JsonQuery.Token.Basic

/-! Query expressions as trees. A child that may be absent stands for the current value. An `extension` is a
    node that a host has added to a tree; it has no children and no meaning here. `Expr.walk` lists a tree in
    pre-order, which is the order of its text. -/

namespace JsonQuery

/-- A query expression. -/
inductive Expr where
  | identifier (name : String)
  | current
  | literal (value : Json)
  | rawString (text : String)
  | index (base : Option Expr) (index : Int)
  | slice (base : Option Expr) (start stop step : Option Int)
  | flatten (base : Option Expr)
  | subexpression (left right : Expr)
  | objectWildcard (base : Option Expr)
  | arrayWildcard (base : Option Expr)
  | pipe (left right : Expr)
  | or (left right : Expr)
  | and (left right : Expr)
  | not (operand : Expr)
  | comparison (op : Comparator) (left right : Expr)
  | filter (source : Option Expr) (predicate : Expr)
  | multiselectList (items : List Expr)
  | multiselectHash (pairs : List (String × Expr))
  | call (function : String) (args : List Expr)
  | reference (expression : Expr)
  | extension (kind : String)

namespace Expr

/-- The name of a kind of node. -/
def label : Expr → String
  | identifier _ => "Identifier"
  | current => "CurrentNode"
  | literal _ => "Literal"
  | rawString _ => "RawString"
  | index .. => "Index"
  | slice .. => "Slice"
  | flatten _ => "Flatten"
  | subexpression .. => "Subexpression"
  | objectWildcard _ => "WildcardObject"
  | arrayWildcard _ => "WildcardArray"
  | pipe .. => "Pipe"
  | or .. => "Or"
  | and .. => "And"
  | not _ => "Not"
  | comparison .. => "Comparison"
  | filter .. => "Filter"
  | multiselectList _ => "MultiselectList"
  | multiselectHash _ => "MultiselectHash"
  | call .. => "FunctionCall"
  | reference _ => "ExpressionRef"
  | extension kind => kind

/-- The children of a node, from left to right. -/
def children : Expr → List Expr
  | identifier _ | current | literal _ | rawString _ | extension _ => []
  | index base _ | slice base _ _ _ | flatten base | objectWildcard base | arrayWildcard base => base.toList
  | subexpression l r | pipe l r | or l r | and l r | comparison _ l r => [l, r]
  | not e | reference e => [e]
  | filter source predicate => source.toList ++ [predicate]
  | multiselectList items => items
  | multiselectHash pairs => pairs.map Prod.snd
  | call _ args => args

mutual

/-- The nodes of a tree in pre-order: a node, then its children from left to right. -/
def walk : Expr → List Expr
  | e@(identifier _) | e@current | e@(literal _) | e@(rawString _) | e@(extension _) => [e]
  | e@(index base _) | e@(slice base _ _ _) | e@(flatten base) | e@(objectWildcard base)
  | e@(arrayWildcard base) => e :: walkOption base
  | e@(subexpression l r) | e@(pipe l r) | e@(or l r) | e@(and l r) | e@(comparison _ l r) =>
    e :: (walk l ++ walk r)
  | e@(not operand) => e :: walk operand
  | e@(reference expression) => e :: walk expression
  | e@(filter source predicate) => e :: (walkOption source ++ walk predicate)
  | e@(multiselectList items) => e :: walkList items
  | e@(multiselectHash pairs) => e :: walkPairs pairs
  | e@(call _ args) => e :: walkList args

/-- The nodes of a child that may be absent. -/
def walkOption : Option Expr → List Expr
  | none => []
  | some e => walk e

/-- The nodes of trees, tree by tree. -/
def walkList : List Expr → List Expr
  | [] => []
  | e :: es => walk e ++ walkList es

/-- The nodes of keyed trees, tree by tree. -/
def walkPairs : List (String × Expr) → List Expr
  | [] => []
  | (_, e) :: es => walk e ++ walkPairs es

end

/-- The function that a node calls. -/
def called? : Expr → Option String
  | call function _ => some function
  | _ => none

/-- The names of the functions called anywhere in a tree, each once, in the order of their first calls. -/
def referencedFunctions (e : Expr) : List String := (e.walk.filterMap called?).eraseDups

end Expr
end JsonQuery
