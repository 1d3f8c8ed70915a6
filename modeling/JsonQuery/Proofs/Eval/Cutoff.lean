import JsonQuery.Proofs.Eval.Stack

/-! The limit on the depth of evaluation as a cut-off. Under a greater limit an evaluation goes on in the same way, on
    the same machine, until the lesser one cuts it off or the stack gives out; so whatever outcome there is under the
    lesser limit, other than being too deep, there is under the greater. A limit of at least the height of a tree cuts
    nothing off, since a function evaluates the expressions among its arguments at the level of its call. -/

namespace JsonQuery

variable {functions : FunctionTable Empty} {limit limit' : Int}

/-- What is evaluated at a place is evaluated in the same way where the limit is farther, until the nearer limit cuts
    it off or the stack gives out. A place counts by the levels that are left below it, and on a stack that may give
    out by itself. -/
theorem sideBySide_of_farther (stack : EvaluatorStack) (functions : FunctionTable Empty) :
    SideBySide (·.kind? = some .tooDeep) Eq (.plainOn stack functions limit) (.plainOn stack functions limit')
      fun _ p q => limit - p.level ≤ limit' - q.level ∧ (p = q ∨ ∀ place, stack.givesOut place = false) where
  mono hp _ := hp
  child {_ _ p q} i hp _ := by
    refine ⟨?_, hp.2.imp_left (congrArg (Place.child · i))⟩
    have hleft := hp.1
    show limit - (p.level + 1 : Nat) ≤ limit' - (q.level + 1 : Nat)
    omega
  turn numbers hp := ⟨hp.1, hp.2.imp_left (congrArg (Place.turn · numbers))⟩
  node {_ p q x y} hp hx := by
    obtain ⟨hleft, hstack⟩ := hp
    rw [Machine.enter, Machine.enter]
    split
    next => exact .cut rfl
    next hdeep =>
      split
      next => exact .cut rfl
      next hholds =>
        have hroom : ¬ (Machine.plainOn stack functions limit').limit < q.level + 1 := fun h => hdeep (by
          change limit' < q.level + 1 at h
          show limit < p.level + 1
          omega)
        have hholds' : ¬ stack.givesOut q = true := by
          rcases hstack with rfl | hnever
          · exact hholds
          · simp [hnever q]
        rw [if_neg hroom, if_neg hholds']
        exact hx
  known _ := rfl
  follow r := nomatch r
  zeroStep := rfl
  looseReference := rfl
  unknownNode _ := rfl

namespace Expr

/-- Under a limit of at least the height of a tree its evaluation is never too deep, with stack enough. -/
theorem evaluate_shallow_of_height (hfunctions : functions.OfBuiltins) {e : Expr} (h : e.height ≤ limit)
    (document : Json) : Shallow (evaluate (.plain functions limit) e document) := by
  have hR : ∀ e : EvalError, e.kind? ≠ some .tooDeep → e = e ∧ e.kind? ≠ some .tooDeep := fun _ he => ⟨rfl, he⟩
  have hroom : (Place.root.level : Int) + e.height ≤ limit := by simpa [Place.root] using h
  exact shallow_iff.2 (Alike.self_iff.1 (evaluate_follows (Room.sideBySide functions hR) e document
    (fun f _ _ => .of_builtins hfunctions hR f) ⟨hroom, hroom⟩))

/-- On any machine it is too deep only where the stack gives out. -/
theorem evaluate_shallow_or (hfunctions : functions.OfBuiltins) (stack : EvaluatorStack) {e : Expr}
    (h : e.height ≤ limit) (document : Json) : Shallow (evaluate (.plainOn stack functions limit) e document) ∨
      ∃ err, evaluate (.plainOn stack functions limit) e document = .error err ∧ stack.Fails limit err := by
  refine (evaluate_eq_or hfunctions stack limit e document).imp_left fun hsame => ?_
  rw [hsame]
  exact evaluate_shallow_of_height hfunctions h document

/-- A projection at some place is the one at every place that has the limit farther below it. -/
theorem visit_farther (hfunctions : functions.OfBuiltins) {e : Expr} {p q : Place} {v : Json} {r : Projected Empty}
    (h : limit - p.level ≤ limit' - q.level) (hr : visit (.plain functions limit) e p v = .ok r) :
    visit (.plain functions limit') e q v = .ok r := by
  have hfollows := visit_follows (sideBySide_of_farther (.ample 0) functions) e v
    (fun f _ _ => .of_builtins hfunctions (fun _ _ => rfl) f) ⟨h, .inr fun _ => rfl⟩
  rw [hr] at hfollows
  exact hfollows.eq_of_failsOnly trivial

/-- On any machine an outcome under some limit that is not that of being too deep is the outcome under every greater
    limit, and under a limit of at least the height of the tree no outcome is, unless the stack gives out. -/
theorem evaluate_cutoff (hfunctions : functions.OfBuiltins) (stack : EvaluatorStack) (h : limit ≤ limit') (e : Expr)
    (document : Json) :
    (Shallow (evaluate (.plainOn stack functions limit) e document) →
      evaluate (.plainOn stack functions limit') e document = evaluate (.plainOn stack functions limit) e document) ∧
    (e.height ≤ limit → Shallow (evaluate (.plainOn stack functions limit) e document) ∨
      ∃ err, evaluate (.plainOn stack functions limit) e document = .error err ∧ stack.Fails limit err) := by
  refine ⟨fun hshallow => ?_, fun hheight => evaluate_shallow_or hfunctions stack hheight document⟩
  have hfollows := evaluate_follows (sideBySide_of_farther stack functions) e document
    (fun f _ _ => .of_builtins hfunctions (fun _ _ => rfl) f) ⟨Int.sub_le_sub_right h _, .inl rfl⟩
  exact hfollows.eq_of_failsOnly (shallow_iff.1 hshallow)

/-- A function has its expression evaluated one level below its call, however often, so two levels will do. -/
theorem evaluate_cutoff_map : ∃ e : Expr, e.height = 2 ∧
    evaluate (.plainOn (.ample 0) Builtin.table 128) e (.array [.array [.int 1], .array [.int 2]]) =
      .ok (.array [.int 1, .int 2]) := by
  refine ⟨call "map" [reference (index none 0), current], rfl, ?_⟩
  have h := evaluate_cutoff ofBuiltins_table (.ample 0) (show (2 : Int) ≤ 128 by decide)
    (call "map" [reference (index none 0), current]) (.array [.array [.int 1], .array [.int 2]])
  have hshallow := (h.2 (by decide)).resolve_right fun ⟨_, _, ⟨_, hout⟩, _⟩ => nomatch hout
  rw [h.1 hshallow]
  rfl

/-- A stack that gives out one level down makes a tree of two levels too deep for a limit of two. -/
theorem evaluate_exhausted : (index (some current) 0).height ≤ 2 ∧
    evaluate (.plainOn ⟨fun place => 0 < place.level, 0⟩ Builtin.table 2) (index (some current) 0)
      (.array [.int 1]) = .error (.exhausted 2) ∧
    (EvalError.exhausted 2).kind? = some .tooDeep := ⟨Nat.le_refl 2, rfl, rfl⟩

end Expr
end JsonQuery
