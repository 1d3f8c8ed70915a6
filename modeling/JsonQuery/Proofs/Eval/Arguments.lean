import JsonQuery.Eval.Evaluator

/-! The arguments of a call, one by one. An argument is a value unless it is written as a reference; where
    functions hand nothing on, values are never references themselves. -/

namespace JsonQuery

variable {ρ : Type}

namespace Expr

/-- The argument that a child at some place stands for. -/
def visitArg [BEq ρ] (m : Machine ρ) (place : Place) (v : Value ρ) :
    Expr → Except EvalError (Argument ρ)
  | reference e =>
    .ok (.expression (m.known place) fun n w => return (← visit m e (place.turn [n]) w).collapse)
  | e => do return m.argument place (← visit m e place v).collapse

theorem visitArgs_cons [BEq ρ] (m : Machine ρ) (e : Expr) (es : List Expr) (i : Nat) (place : Place)
    (v : Value ρ) : visitArgs m (e :: es) i place v =
      (do return (← visitArg m (place.child i) v e) :: (← visitArgs m es (i + 1) place v)) := by
  cases e with
  | reference e =>
    rw [visitArgs, visitArg]
    rfl
  | _ =>
    rw [visitArgs, visitArg]
    · simp only [bind_assoc, pure_bind]
    all_goals simp

/-- A machine for the builtin functions. -/
abbrev builtinsOn (stack : EvaluatorStack) (limit : Int) : Machine Empty := .plainOn stack Builtin.table limit

/-- A machine for the builtin functions, with stack enough. -/
abbrev builtins (limit : Int) : Machine Empty := builtinsOn (.ample 0) limit

theorem argument_of_plain {stack : EvaluatorStack} {functions : FunctionTable Empty} {limit : Int} (place : Place)
    (v : Json) : (Machine.plainOn stack functions limit).argument place v = .value v := by
  cases v with
  | reference r => exact nomatch r
  | _ => rfl

/-- An argument that is not written as a reference is what its value is as an argument. -/
theorem visitArg_of_ne [BEq ρ] {m : Machine ρ} {e : Expr} (he : ∀ e', e ≠ reference e') (place : Place)
    (v : Value ρ) : visitArg m place v e = (do return m.argument place (← visit m e place v).collapse) := by
  cases e with
  | reference e => exact absurd rfl (he e)
  | _ => rfl

/-- Under the builtin functions an argument that is not written as a reference is a value. -/
theorem visitArg_builtins {stack : EvaluatorStack} {limit : Int} {e : Expr} (he : ∀ e', e ≠ reference e')
    (place : Place) (v : Json) :
    visitArg (builtinsOn stack limit) place v e = (visit (builtinsOn stack limit) e place v).map fun p =>
      .value p.collapse := by
  rw [visitArg_of_ne he]
  cases visit (builtinsOn stack limit) e place v with
  | error err => rfl
  | ok p => exact congrArg Except.ok (argument_of_plain place p.collapse)

end Expr
end JsonQuery
