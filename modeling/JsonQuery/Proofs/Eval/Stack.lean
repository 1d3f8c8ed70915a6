import JsonQuery.Proofs.Eval.Moved
import JsonQuery.Proofs.Function.Builtins

/-! What the stack of a machine changes in an evaluation under builtin functions. They hand failures on as they are, so
    the evaluation does what it does with stack enough until the stack gives out at some place, and then it fails for
    that. What holds of all failures with stack enough therefore holds on every machine, that one apart. -/

namespace JsonQuery

/-- A failure on account of the stack of a machine, which does give out somewhere; it names the limit. -/
def EvaluatorStack.Fails (stack : EvaluatorStack) (limit : Int) (e : EvalError) : Prop :=
  (∃ place, stack.givesOut place = true) ∧ e = .exhausted limit

/-- A table whose functions are builtin ones, some or all of them, under whatever names. -/
def FunctionTable.OfBuiltins (functions : FunctionTable Empty) : Prop :=
  ∀ ⦃name f⦄, Members.get? name functions = some f → f ∈ Builtin.all

theorem ofBuiltins_table : FunctionTable.OfBuiltins Builtin.table := fun _ _ h => (Builtin.of_get? h).1

/-- No failure of a builtin function's own is one of depth. -/
theorem Builtin.Raises.ne_tooDeep {name : String} {e : EvalError} (h : Raises name e) :
    e.kind? ≠ some .tooDeep := by
  cases e <;> first | exact h.elim | simp [EvalError.kind?]

variable {functions : FunctionTable Empty} {cut : EvalError → Prop} {R : EvalError → EvalError → Prop}

theorem CallsFollow.of_builtins (h : functions.OfBuiltins) (hR : ∀ e, e.kind? ≠ some .tooDeep → R e e)
    (name : String) : CallsFollow cut R functions functions name where
  same := rfl
  unknown _ := hR _ nofun
  invoke _ hf _ _ hargs := Builtin.invoke_follows (h hf) (fun e he => hR e he.ne_tooDeep) hargs

/-- On a machine what is evaluated at a place is evaluated as with stack enough, until the stack gives out. -/
theorem sideBySide_of_stack (stack : EvaluatorStack) (functions : FunctionTable Empty) (limit : Int) :
    SideBySide (stack.Fails limit) Eq (.plainOn stack functions limit) (.plain functions limit)
      fun _ p q => p = q where
  mono hp _ := hp
  child i hp _ := congrArg (Place.child · i) hp
  turn numbers hp := congrArg (Place.turn · numbers) hp
  node {_ p q x y} hp hx := by
    subst hp
    rw [Expr.enter_eq, Machine.enter]
    split
    next => exact .error rfl
    next =>
      split
      next hout => exact .cut ⟨⟨p, hout⟩, rfl⟩
      next => exact hx
  known _ := rfl
  follow r := nomatch r
  zeroStep := rfl
  looseReference := rfl
  unknownNode _ := rfl

/-- On a machine a tree has the outcome that it has with stack enough, or the stack gives out. -/
theorem Expr.evaluate_eq_or (hfunctions : functions.OfBuiltins) (stack : EvaluatorStack) (limit : Int) (e : Expr)
    (document : Json) :
    evaluate (.plainOn stack functions limit) e document = evaluate (.plain functions limit) e document ∨
      ∃ err, evaluate (.plainOn stack functions limit) e document = .error err ∧ stack.Fails limit err := by
  have hfollows := evaluate_follows (sideBySide_of_stack stack functions limit) e document
    (fun f _ _ => .of_builtins hfunctions (fun _ _ => rfl) f) rfl
  exact hfollows.eq_or_cut.imp_left Eq.symm

end JsonQuery
