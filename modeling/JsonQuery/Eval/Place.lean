import JsonQuery.Expr.Basic

/-! Places of nodes in a tree under evaluation. A place is the way from the root, child by child, and the level,
    which counts the nodes above. A reference is no node of its own: what it refers to stands at its place. So
    a path leads to one node, and the level of the node is known from the path. A node may be evaluated more
    than once, for the elements of a projection or by a function; a place therefore also has a history, in
    which these turns are told apart, so that no two evaluations have one history. -/

namespace JsonQuery

/-- A step towards an evaluation: to a child, or to one of several turns, which are told apart by numbers. -/
inductive Step where
  | child (i : Nat)
  | turn (numbers : List Nat)
  deriving DecidableEq

/-- Where a node stands and how its evaluation came about: how many nodes are above it, the numbers of the
    children that lead to it, and the steps that led to the evaluation, the last ones first. -/
structure Place where
  level : Nat
  path : List Nat
  history : List Step
  deriving DecidableEq

namespace Place

/-- The place of a whole tree. -/
def root : Place := ⟨0, [], []⟩

/-- The place of a child. -/
def child (p : Place) (i : Nat) : Place := ⟨p.level + 1, i :: p.path, .child i :: p.history⟩

/-- A place at one of several turns. -/
def turn (p : Place) (numbers : List Nat) : Place := { p with history := .turn numbers :: p.history }

end Place

namespace Expr

/-- What a reference refers to; any other node is taken for itself. -/
def referent : Expr → Expr
  | reference e => e
  | e => e

/-- The node at the end of a path, the first step first, and its place, from a node at some place. -/
def descend? : Expr → Place → List Nat → Option (Expr × Place)
  | e, place, [] => some (e.referent, place)
  | e, place, i :: path => match e.referent.children[i]? with
    | some c => descend? c (place.child i) path
    | none => none

/-- The node of a whole tree that a place's path leads to, and its place. -/
def nodeAt? (e : Expr) (path : List Nat) : Option (Expr × Place) := e.descend? .root path.reverse

example : (call "f" [current, reference (identifier "a")]).nodeAt? [1]
    = some (identifier "a", ⟨1, [1], [.child 1]⟩) := rfl

end Expr
end JsonQuery
