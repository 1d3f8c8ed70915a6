import JsonQuery.Proofs.Eval.Arguments
import JsonQuery.Proofs.Expr.Height

/-! The levels of evaluation. A node is as many levels down as there are nodes above it. So what is within the
    limit under a node, by the height of the tree there, is within it under each of its children. -/

namespace JsonQuery.Expr

variable {limit : Int}

/-- With stack enough only the limit stands in the way. -/
theorem enter_eq {ρ α : Type} (env : Environment ρ) (place : Place) (outcome : Except EvalError α) :
    (env : Machine ρ).enter place outcome =
      if env.limit < place.level + 1 then .error (.tooDeep env.limit) else outcome := rfl

/-- A node that is entered has the outcome that it would have by itself. -/
theorem of_enter_eq_ok {ρ α : Type} {m : Machine ρ} {place : Place} {outcome : Except EvalError α} {x : α}
    (h : m.enter place outcome = .ok x) : outcome = .ok x := by
  rw [Machine.enter] at h
  split at h
  next => cases h
  next =>
    split at h
    next => cases h
    next => exact h

/-- A node within the limit is not too deep. -/
theorem not_too_deep {place : Place} {n : Nat} (h : (place.level : Int) + (n + 1 : Nat) ≤ limit) :
    ¬ (builtins limit).limit < place.level + 1 := by
  show ¬ limit < place.level + 1
  omega

theorem level_child (place : Place) (i : Nat) : (place.child i).level = place.level + 1 := rfl

/-- What is within the limit under a node is within it at each child of the node. -/
theorem child_within {place : Place} {n m : Nat} (i : Nat) (h : (place.level : Int) + (n + 1 : Nat) ≤ limit)
    (hm : m ≤ n) : ((place.child i).level : Int) + m ≤ limit := by
  rw [level_child]
  omega

theorem within_mono {place : Place} {n m : Nat} (h : (place.level : Int) + (n + 1 : Nat) ≤ limit)
    (hm : m ≤ n) : (place.level : Int) + (m + 1 : Nat) ≤ limit := by
  omega

/-- At the root all of the limit is left. -/
theorem root_within {n : Nat} (h : (n : Int) ≤ limit) : (Place.root.level : Int) + n ≤ limit := by
  simpa [Place.root] using h

end JsonQuery.Expr
