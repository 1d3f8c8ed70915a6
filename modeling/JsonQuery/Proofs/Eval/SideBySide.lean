import JsonQuery.Proofs.Eval.Depth
import JsonQuery.Proofs.Expr.Shape
import JsonQuery.Proofs.Function.Alike

/-! Two evaluations of one tree side by side. The machines may differ, and so may the places; what has to
    hold of two places that belong together is said for one step: what becomes of a node, of its children, of the
    turns of an evaluation, and of the references among its arguments. Where it holds, and where the calls in
    the tree go together, the second outcome follows the first. There is one case for each kind of node. -/

namespace JsonQuery

variable {ρ : Type} {cut : EvalError → Prop} {R : EvalError → EvalError → Prop}

namespace Projected

variable {f g : List Nat → Value ρ → Except EvalError (Value ρ)}

theorem mapInner_follows (h : ∀ way v, Follows cut R (f way v) (g way v)) :
    ∀ (depth : Nat) (way : List Nat) (v : Value ρ),
      Follows cut R (mapInner f depth way v) (mapInner g depth way v) := by
  intro depth
  induction depth with
  | zero => exact h
  | succ depth ih =>
    intro way v
    cases v with
    | array items => exact (Follows.mapM (fun (x, i) => ih (i :: way) x) items.zipIdx).bind fun ys => .ok _
    | _ => exact .ok _

theorem apply_follows (h : ∀ way v, Follows cut R (f way v) (g way v)) (p : Projected ρ) :
    Follows cut R (p.apply f) (p.apply g) :=
  (mapInner_follows h p.depth [] p.value).bind fun _ => .ok _

theorem expand_follows (h : ∀ way v, Follows cut R (f way v) (g way v)) (p : Projected ρ) :
    Follows cut R (p.expand f) (p.expand g) :=
  (mapInner_follows h p.depth [] p.value).bind fun _ => .ok _

end Projected

theorem Value.filtered_follows {test test' : Nat → Value ρ → Except EvalError (Value ρ)}
    (h : ∀ n v, Follows cut R (test n v) (test' n v)) (v : Value ρ) :
    Follows cut R (v.filtered test) (v.filtered test') := by
  cases v with
  | array items =>
    refine (Follows.filterM (fun (x, i) => ?_) items.zipIdx).bind fun ys => .ok _
    exact (h i x).bind fun w => .ok w.isTruthy
  | _ => exact .ok _

/-- Under some name two tables have the same function or none, and the outcomes of its calls follow each other
    where the arguments do. -/
structure CallsFollow (cut : EvalError → Prop) (R : EvalError → EvalError → Prop)
    (functions functions' : FunctionTable ρ) (name : String) : Prop where
  same : Members.get? name functions = Members.get? name functions'
  unknown : Members.get? name functions = none → R (.unknownFunction name) (.unknownFunction name)
  invoke : ∀ ⦃f⦄, Members.get? name functions = some f →
    ∀ ⦃args args' : List (Argument ρ)⦄, List.Forall₂ (Argument.Follows cut R) args args' →
      Follows cut R (f.invoke args) (f.invoke args')

/-- Two tables that have the same under some name have calls by it with equal outcomes. -/
theorem CallsFollow.of_same {functions functions' : FunctionTable ρ} {name : String}
    (h : Members.get? name functions = Members.get? name functions') :
    CallsFollow (fun _ => False) Eq functions functions' name := by
  refine ⟨h, fun _ => rfl, fun f _ args args' hargs => ?_⟩
  obtain rfl : args = args' := Argument.Alike.args_eq hargs fun _ _ => id
  exact .refl (fun _ => rfl) _

/-- Places on two machines that belong together, for trees of some height: what follows below a node follows at
    the node; the children belong together, and so do the turns; references are known by the same, and follow. -/
structure SideBySide (cut : EvalError → Prop) (R : EvalError → EvalError → Prop) (m m' : Machine ρ)
    (At : Nat → Place → Place → Prop) : Prop where
  mono : ∀ {n k p q}, At n p q → k ≤ n → At k p q
  child : ∀ {n k p q} (i : Nat), At (n + 1) p q → k ≤ n → At k (p.child i) (q.child i)
  turn : ∀ {n p q} (numbers : List Nat), At n p q → At n (p.turn numbers) (q.turn numbers)
  node : ∀ {n p q} {x y : Except EvalError (Projected ρ)}, At (n + 1) p q → Follows cut R x y →
    Follows cut R (m.enter p x) (m'.enter q y)
  known : ∀ {n p q}, At n p q → m.known p = m'.known q
  follow : ∀ {n p q} (r : ρ) (v : Value ρ), At n p q → Follows cut R (m.follow r p v) (m'.follow r q v)
  zeroStep : R .zeroStep .zeroStep
  looseReference : R .looseReference .looseReference
  unknownNode : ∀ kind, R (.unknownNode kind) (.unknownNode kind)

namespace Expr

variable {m m' : Machine ρ} {At : Nat → Place → Place → Prop}

theorem argument_follows (h : SideBySide cut R m m' At) {n : Nat} {p q : Place} (hp : At n p q)
    (w : Value ρ) : Argument.Follows cut R (m.argument p w) (m'.argument q w) := by
  cases w with
  | reference r => exact .expression fun n v => h.follow r v (h.turn [n] hp)
  | _ => exact .value _

variable [BEq ρ]

mutual

/-- An evaluation that goes on as another does has an outcome that follows the outcome of the other. -/
theorem visit_follows (h : SideBySide cut R m m' At) : ∀ (e : Expr) {p q : Place} (v : Value ρ),
    CallsOnly (CallsFollow cut R m.functions m'.functions) e.walk → At e.height p q →
    Follows cut R (visit m e p v) (visit m' e q v)
  | identifier _, _, _, _, _, hp | current, _, _, _, _, hp | literal _, _, _, _, _, hp
  | rawString _, _, _, _, _, hp => by
    rw [visit, visit]
    exact h.node hp (.ok _)
  | index base i, _, _, v, hc, hp => by
    rw [visit, visit]
    exact h.node hp ((visitBase_follows h base v hc.tail (h.child 0 hp (Nat.le_refl _))).bind
      fun r => r.apply_follows fun _ w => .ok (w.itemAt i))
  | slice base start stop step, _, _, v, hc, hp => by
    rw [visit, visit]
    refine h.node hp ?_
    split
    next => exact .error h.zeroStep
    next =>
      exact (visitBase_follows h base v hc.tail (h.child 0 hp (Nat.le_refl _))).bind
        fun r => r.expand_follows fun _ w => .ok (w.sliced start stop step)
  | flatten base, _, _, v, hc, hp => by
    rw [visit, visit]
    exact h.node hp ((visitBase_follows h base v hc.tail (h.child 0 hp (Nat.le_refl _))).bind fun _ => .ok _)
  | subexpression left right, p, q, v, hc, hp => by
    have hright := h.child 1 hp (Nat.le_max_right left.height right.height)
    rw [visit, visit]
    refine h.node hp ((visit_follows h left v hc.tail.left (h.child 0 hp (Nat.le_max_left _ _))).bind
      fun r => ?_)
    split
    next => exact visit_follows h right r.value hc.tail.right hright
    next =>
      refine r.apply_follows fun way w => ?_
      exact (visit_follows h right w hc.tail.right (h.turn way hright)).bind fun _ => .ok _
  | objectWildcard base, _, _, v, hc, hp => by
    rw [visit, visit]
    exact h.node hp ((visitBase_follows h base v hc.tail (h.child 0 hp (Nat.le_refl _))).bind
      fun r => r.expand_follows fun _ w => .ok w.objectValues)
  | arrayWildcard base, _, _, v, hc, hp => by
    rw [visit, visit]
    exact h.node hp ((visitBase_follows h base v hc.tail (h.child 0 hp (Nat.le_refl _))).bind
      fun r => r.expand_follows fun _ w => .ok w.arrayOrNull)
  | pipe left right, _, _, v, hc, hp => by
    rw [visit, visit]
    exact h.node hp ((visit_follows h left v hc.tail.left (h.child 0 hp (Nat.le_max_left _ _))).bind
      fun r => visit_follows h right r.collapse hc.tail.right (h.child 1 hp (Nat.le_max_right _ _)))
  | or left right, _, _, v, hc, hp => by
    have hright := visit_follows h right v hc.tail.right (h.child 1 hp (Nat.le_max_right _ _))
    rw [visit, visit]
    refine h.node hp ((visit_follows h left v hc.tail.left (h.child 0 hp (Nat.le_max_left _ _))).bind
      fun r => ?_)
    dsimp only
    split
    next => exact .ok _
    next => exact hright.bind fun _ => .ok _
  | and left right, _, _, v, hc, hp => by
    have hright := visit_follows h right v hc.tail.right (h.child 1 hp (Nat.le_max_right _ _))
    rw [visit, visit]
    refine h.node hp ((visit_follows h left v hc.tail.left (h.child 0 hp (Nat.le_max_left _ _))).bind
      fun r => ?_)
    dsimp only
    split
    next => exact hright.bind fun _ => .ok _
    next => exact .ok _
  | not operand, _, _, v, hc, hp => by
    rw [visit, visit]
    exact h.node hp ((visit_follows h operand v hc.tail (h.child 0 hp (Nat.le_refl _))).bind fun _ => .ok _)
  | comparison op left right, _, _, v, hc, hp => by
    have hright := visit_follows h right v hc.tail.right (h.child 1 hp (Nat.le_max_right _ _))
    rw [visit, visit]
    exact h.node hp ((visit_follows h left v hc.tail.left (h.child 0 hp (Nat.le_max_left _ _))).bind
      fun _ => hright.bind fun _ => .ok _)
  | filter source predicate, p, q, v, hc, hp => by
    have hpredicate := h.child source.toList.length hp (Nat.le_max_right _ _)
    rw [visit, visit]
    refine h.node hp ((visitBase_follows h source v hc.tail.left (h.child 0 hp (Nat.le_max_left _ _))).bind
      fun r => r.expand_follows fun way w => Value.filtered_follows (fun n x => ?_) w)
    exact (visit_follows h predicate x hc.tail.right (h.turn (n :: way) hpredicate)).bind fun _ => .ok _
  | multiselectList items, _, _, v, hc, hp => by
    rw [visit, visit]
    refine h.node hp ?_
    split
    next => exact .ok _
    next => exact (visitItems_follows h items 0 v hc.tail hp).bind fun _ => .ok _
  | multiselectHash pairs, _, _, v, hc, hp => by
    rw [visit, visit]
    refine h.node hp ?_
    split
    next => exact .ok _
    next => exact (visitPairs_follows h pairs 0 v hc.tail hp).bind fun _ => .ok _
  | call function args, _, _, v, hc, hp => by
    have hcall := hc function args List.mem_cons_self
    rw [visit, visit, ← hcall.same]
    refine h.node hp ?_
    split
    next hnone => exact .error (hcall.unknown hnone)
    next f hf =>
      exact visitArgs_follow h args 0 v hc.tail hp fun _ _ hargs => (hcall.invoke hf hargs).bind fun _ => .ok _
  | reference e, _, _, _, _, hp => by
    rw [visit, visit]
    exact h.node (h.mono hp (height_pos e)) (.error h.looseReference)
  | extension kind, _, _, _, _, hp => by
    rw [visit, visit]
    exact h.node hp (.error (h.unknownNode kind))

theorem visitBase_follows (h : SideBySide cut R m m' At) : ∀ (base : Option Expr) {p q : Place} (v : Value ρ),
    CallsOnly (CallsFollow cut R m.functions m'.functions) (walkOption base) → At (heightOption base) p q →
    Follows cut R (visitBase m base p v) (visitBase m' base q v)
  | none, _, _, _, _, _ => by
    rw [visitBase, visitBase]
    exact .ok _
  | some e, _, _, v, hc, hp => by
    rw [visitBase, visitBase]
    exact visit_follows h e v hc hp

theorem visitItems_follows (h : SideBySide cut R m m' At) : ∀ (items : List Expr) (i : Nat) {p q : Place}
    (v : Value ρ), CallsOnly (CallsFollow cut R m.functions m'.functions) (walkList items) →
    At (heightList items + 1) p q → Follows cut R (visitItems m items i p v) (visitItems m' items i q v)
  | [], _, _, _, _, _, _ => by
    rw [visitItems, visitItems]
    exact .ok _
  | e :: es, i, _, _, v, hc, hp => by
    have hrest := visitItems_follows h es (i + 1) v hc.right (h.mono hp (Nat.succ_le_succ (Nat.le_max_right _ _)))
    rw [visitItems, visitItems]
    exact (visit_follows h e v hc.left (h.child i hp (Nat.le_max_left _ _))).bind
      fun _ => hrest.bind fun _ => .ok _

theorem visitPairs_follows (h : SideBySide cut R m m' At) : ∀ (pairs : List (String × Expr)) (i : Nat)
    {p q : Place} (v : Value ρ), CallsOnly (CallsFollow cut R m.functions m'.functions) (walkPairs pairs) →
    At (heightPairs pairs + 1) p q → Follows cut R (visitPairs m pairs i p v) (visitPairs m' pairs i q v)
  | [], _, _, _, _, _, _ => by
    rw [visitPairs, visitPairs]
    exact .ok _
  | (_, e) :: es, i, _, _, v, hc, hp => by
    have hrest := visitPairs_follows h es (i + 1) v hc.right (h.mono hp (Nat.succ_le_succ (Nat.le_max_right _ _)))
    rw [visitPairs, visitPairs]
    exact (visit_follows h e v hc.left (h.child i hp (Nat.le_max_left _ _))).bind
      fun _ => hrest.bind fun _ => .ok _

/-- What is computed from the arguments follows if it does so for arguments that follow each other. -/
theorem visitArgs_follow (h : SideBySide cut R m m' At) : ∀ (args : List Expr) (i : Nat) {p q : Place}
    (v : Value ρ), CallsOnly (CallsFollow cut R m.functions m'.functions) (walkList args) →
    At (heightList args + 1) p q → ∀ {α : Type} {k k' : List (Argument ρ) → Except EvalError α},
    (∀ as as', List.Forall₂ (Argument.Follows cut R) as as' → Follows cut R (k as) (k' as')) →
    Follows cut R (visitArgs m args i p v >>= k) (visitArgs m' args i q v >>= k')
  | [], _, _, _, _, _, _, _, _, _, hk => by
    rw [visitArgs, visitArgs]
    exact hk [] [] .nil
  | e :: es, i, p, q, v, hc, hp, _, k, k', hk => by
    have hchild := h.child i hp (Nat.le_max_left e.height (heightList es))
    have hrest : ∀ {a a'}, Argument.Follows cut R a a' →
        Follows cut R (visitArgs m es (i + 1) p v >>= fun as => k (a :: as))
          (visitArgs m' es (i + 1) q v >>= fun as => k' (a' :: as)) := fun ha =>
      visitArgs_follow h es (i + 1) v hc.right (h.mono hp (Nat.succ_le_succ (Nat.le_max_right _ _)))
        fun _ _ has => hk _ _ (.cons ha has)
    simp only [visitArgs_cons, bind_assoc, pure_bind]
    cases e with
    | reference e =>
      rw [visitArg, visitArg, h.known hchild]
      refine hrest (.expression fun n w => ?_)
      exact (visit_follows h e w hc.left.tail (h.turn [n] hchild)).bind fun _ => .ok _
    | _ =>
      simp only [visitArg, bind_assoc, pure_bind]
      exact (visit_follows h _ v hc.left hchild).bind fun r => hrest (argument_follows h hchild r.collapse)

end

/-- The value of a whole tree is that at the root. -/
theorem evaluate_follows (h : SideBySide cut R m m' At) (e : Expr) (v : Value ρ)
    (hc : CallsOnly (CallsFollow cut R m.functions m'.functions) e.walk) (hroot : At e.height .root .root) :
    Follows cut R (evaluate m e v) (evaluate m' e v) :=
  (visit_follows h e v hc hroot).bind fun _ => .ok _

end Expr
end JsonQuery
