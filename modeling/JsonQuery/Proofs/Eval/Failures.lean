import JsonQuery.Proofs.Eval.SideBySide
import JsonQuery.Proofs.Function.Builtins

/-! The failures of evaluation. A step of a projection fails only as the function does that is applied to the
    elements. So the evaluation of a tree of the shape that texts have fails only where a call in the tree does,
    or where a node is deeper than the limit; a step of 0, a reference that is no argument and a node of a host
    are never met. There is one case for each kind of node. -/

namespace JsonQuery

variable {ρ : Type} {P : EvalError → Prop}

namespace Projected

variable {f : List Nat → Value ρ → Except EvalError (Value ρ)}

theorem apply_failsOnly (h : ∀ way v, FailsOnly P (f way v)) (p : Projected ρ) : FailsOnly P (p.apply f) :=
  Alike.self_iff.1 (p.apply_follows fun way v => Alike.self_iff.2 (h way v))

theorem expand_failsOnly (h : ∀ way v, FailsOnly P (f way v)) (p : Projected ρ) : FailsOnly P (p.expand f) :=
  Alike.self_iff.1 (p.expand_follows fun way v => Alike.self_iff.2 (h way v))

end Projected

theorem Value.filtered_failsOnly {test : Nat → Value ρ → Except EvalError (Value ρ)}
    (h : ∀ n v, FailsOnly P (test n v)) (v : Value ρ) : FailsOnly P (v.filtered test) :=
  Alike.self_iff.1 (v.filtered_follows fun n w => Alike.self_iff.2 (h n w))

/-- An argument that fails only in some ways. -/
inductive Argument.FailsOnly (P : EvalError → Prop) : Argument ρ → Prop
  | value (v : Value ρ) : Argument.FailsOnly P (.value v)
  | expression {known : Option ρ} {f : Nat → Value ρ → Except EvalError (Value ρ)} :
    (∀ n v, JsonQuery.FailsOnly P (f n v)) → Argument.FailsOnly P (.expression known f)

/-- The failures of the calls by some name are among those to be met. -/
def Builtin.Admits (P : EvalError → Prop) (name : String) : Prop := ∀ e, Blames name e → P e

/-- A call of a builtin function fails in a way of its own, or as one of its arguments does. -/
theorem Builtin.invoke_failsOnly [BEq ρ] {name : String} (hP : Admits P name) {f : Function ρ}
    (h : Members.get? name table = some f) {args : List (Argument ρ)} (hargs : ∀ a ∈ args, a.FailsOnly P) :
    FailsOnly P (f.invoke args) := by
  refine Alike.self_iff.1 (invoke_alike (fun e he => ⟨rfl, hP e he⟩) h ?_)
  refine List.forall₂_same.2 fun a ha => ?_
  cases hargs a ha with
  | value v => exact .value v
  | expression hf => exact .expression fun n v => Alike.self_iff.2 (hf n v)

/-- At some level there is room for a tree of some height, unless being too deep is a failure to be met. -/
def Fits (P : EvalError → Prop) (limit : Int) (level height : Nat) : Prop :=
  P (.tooDeep limit) ∨ (level : Int) + height ≤ limit

namespace Fits

variable {limit : Int} {place : Place} {level n m : Nat}

theorem mono (h : Fits P limit level n) (hm : m ≤ n) : Fits P limit level m :=
  h.imp_right fun h => by omega

theorem child (i : Nat) (h : Fits P limit place.level (n + 1)) (hm : m ≤ n) :
    Fits P limit (place.child i).level m :=
  h.imp_right fun h => Expr.child_within i h hm

theorem node {α : Type} {functions : FunctionTable Empty} {x : Except EvalError α}
    (h : Fits P limit place.level (n + 1)) (hx : FailsOnly P x) :
    FailsOnly P ((Machine.plain functions limit).enter place x) := by
  rw [Expr.enter_eq]
  split
  next hdeep =>
    refine h.resolve_right fun h => ?_
    change limit < place.level + 1 at hdeep
    omega
  next => exact hx

end Fits

namespace Expr

variable {limit : Int} {value : Json → Prop}

mutual

/-- Evaluation fails as the functions called do, or by being too deep. -/
theorem visit_failsOnly : ∀ (e : Expr) (place : Place) (v : Json), Shaped (Builtin.Admits P) value e →
    Fits P limit place.level e.height → FailsOnly P (visit (builtins limit) e place v)
  | identifier _, _, _, _, h | current, _, _, _, h | literal _, _, _, _, h | rawString _, _, _, _, h => by
    rw [visit]
    exact h.node trivial
  | index base i, place, v, ⟨_, hs⟩, h => by
    rw [visit]
    have hbase := visitBase_failsOnly base (place.child 0) v hs (h.child 0 (Nat.le_refl _))
    refine h.node (hbase.bind fun p _ => ?_)
    exact p.apply_failsOnly fun _ _ => .ok _
  | slice base start stop step, place, v, ⟨hstep, _, hs⟩, h => by
    rw [visit, if_neg hstep]
    have hbase := visitBase_failsOnly base (place.child 0) v hs (h.child 0 (Nat.le_refl _))
    refine h.node (hbase.bind fun p _ => ?_)
    exact p.expand_failsOnly fun _ _ => .ok _
  | flatten base, place, v, hs, h => by
    rw [visit]
    exact h.node ((visitBase_failsOnly base (place.child 0) v hs (h.child 0 (Nat.le_refl _))).bind
      fun p _ => trivial)
  | subexpression left right, place, v, ⟨_, hl, hr⟩, h => by
    have hright := h.child 1 (Nat.le_max_right left.height right.height)
    rw [visit]
    refine h.node ((visit_failsOnly left (place.child 0) v hl (h.child 0 (Nat.le_max_left _ _))).bind
      fun p _ => ?_)
    split
    next => exact visit_failsOnly right (place.child 1) p.value hr hright
    next =>
      refine p.apply_failsOnly fun way w => ?_
      exact (visit_failsOnly right ((place.child 1).turn way) w hr hright).bind fun _ _ => trivial
  | objectWildcard base, place, v, hs, h => by
    rw [visit]
    have hbase := visitBase_failsOnly base (place.child 0) v hs (h.child 0 (Nat.le_refl _))
    refine h.node (hbase.bind fun p _ => ?_)
    exact p.expand_failsOnly fun _ _ => .ok _
  | arrayWildcard base, place, v, hs, h => by
    rw [visit]
    have hbase := visitBase_failsOnly base (place.child 0) v hs (h.child 0 (Nat.le_refl _))
    refine h.node (hbase.bind fun p _ => ?_)
    exact p.expand_failsOnly fun _ _ => .ok _
  | pipe left right, place, v, ⟨hl, hr⟩, h => by
    rw [visit]
    refine h.node ((visit_failsOnly left (place.child 0) v hl (h.child 0 (Nat.le_max_left _ _))).bind
      fun p _ => ?_)
    exact visit_failsOnly right (place.child 1) p.collapse hr (h.child 1 (Nat.le_max_right _ _))
  | or left right, place, v, ⟨hl, hr⟩, h => by
    have hright := visit_failsOnly right (place.child 1) v hr (h.child 1 (Nat.le_max_right _ _))
    rw [visit]
    refine h.node ((visit_failsOnly left (place.child 0) v hl (h.child 0 (Nat.le_max_left _ _))).bind
      fun p _ => ?_)
    dsimp only
    split
    next => exact trivial
    next => exact hright.bind fun _ _ => trivial
  | and left right, place, v, ⟨hl, hr⟩, h => by
    have hright := visit_failsOnly right (place.child 1) v hr (h.child 1 (Nat.le_max_right _ _))
    rw [visit]
    refine h.node ((visit_failsOnly left (place.child 0) v hl (h.child 0 (Nat.le_max_left _ _))).bind
      fun p _ => ?_)
    dsimp only
    split
    next => exact hright.bind fun _ _ => trivial
    next => exact trivial
  | not operand, place, v, hs, h => by
    rw [visit]
    exact h.node ((visit_failsOnly operand (place.child 0) v hs (h.child 0 (Nat.le_refl _))).bind
      fun _ _ => trivial)
  | comparison op left right, place, v, ⟨hl, hr⟩, h => by
    have hright := visit_failsOnly right (place.child 1) v hr (h.child 1 (Nat.le_max_right _ _))
    rw [visit]
    exact h.node ((visit_failsOnly left (place.child 0) v hl (h.child 0 (Nat.le_max_left _ _))).bind
      fun p _ => hright.bind fun _ _ => trivial)
  | filter source predicate, place, v, ⟨hs, hp⟩, h => by
    have hsource := visitBase_failsOnly source (place.child 0) v hs (h.child 0 (Nat.le_max_left _ _))
    rw [visit]
    refine h.node (hsource.bind fun p _ => p.expand_failsOnly (fun way w =>
      Value.filtered_failsOnly (fun n x => ?_) w))
    exact (visit_failsOnly predicate ((place.child source.toList.length).turn (n :: way)) x hp
      (h.child source.toList.length (Nat.le_max_right _ _))).bind fun _ _ => trivial
  | multiselectList items, place, v, ⟨_, hs⟩, h => by
    rw [visit]
    refine h.node ?_
    split
    next => exact trivial
    next => exact (visitItems_failsOnly items 0 place v hs h).bind fun _ _ => trivial
  | multiselectHash pairs, place, v, ⟨_, hs⟩, h => by
    rw [visit]
    refine h.node ?_
    split
    next => exact trivial
    next => exact (visitPairs_failsOnly pairs 0 place v hs h).bind fun _ _ => trivial
  | call function args, place, v, ⟨hname, hs⟩, h => by
    rw [visit]
    refine h.node ?_
    split
    next => exact hname _ rfl
    next f hf =>
      have hf : Members.get? function Builtin.table = some f := hf
      refine (visitArgs_end args 0 place v hs h).bind fun args' hargs => ?_
      exact (Builtin.invoke_failsOnly hname hf hargs).bind fun _ _ => trivial

theorem visitBase_failsOnly : ∀ (base : Option Expr) (place : Place) (v : Json),
    ShapedOption (Builtin.Admits P) value base →
    Fits P limit place.level (heightOption base) → FailsOnly P (visitBase (builtins limit) base place v)
  | none, _, v, _, _ => by
    rw [visitBase]
    exact trivial
  | some e, place, v, hs, h => by
    rw [visitBase]
    exact visit_failsOnly e place v hs h

theorem visitItems_failsOnly : ∀ (items : List Expr) (i : Nat) (place : Place) (v : Json),
    ShapedList (Builtin.Admits P) value items → Fits P limit place.level (heightList items + 1) →
    FailsOnly P (visitItems (builtins limit) items i place v)
  | [], _, _, _, _, _ => by
    rw [visitItems]
    exact trivial
  | e :: es, i, place, v, ⟨he, hes⟩, h => by
    have hrest := visitItems_failsOnly es (i + 1) place v hes (h.mono (Nat.succ_le_succ (Nat.le_max_right _ _)))
    rw [visitItems]
    exact (visit_failsOnly e (place.child i) v he (h.child i (Nat.le_max_left _ _))).bind fun p _ =>
      hrest.bind fun _ _ => trivial

theorem visitPairs_failsOnly : ∀ (pairs : List (String × Expr)) (i : Nat) (place : Place) (v : Json),
    ShapedPairs (Builtin.Admits P) value pairs → Fits P limit place.level (heightPairs pairs + 1) →
    FailsOnly P (visitPairs (builtins limit) pairs i place v)
  | [], _, _, _, _, _ => by
    rw [visitPairs]
    exact trivial
  | (_, e) :: es, i, place, v, ⟨he, hes⟩, h => by
    have hrest := visitPairs_failsOnly es (i + 1) place v hes (h.mono (Nat.succ_le_succ (Nat.le_max_right _ _)))
    rw [visitPairs]
    exact (visit_failsOnly e (place.child i) v he (h.child i (Nat.le_max_left _ _))).bind fun p _ =>
      hrest.bind fun _ _ => trivial

theorem visitArgs_end : ∀ (args : List Expr) (i : Nat) (place : Place) (v : Json),
    ShapedArgs (Builtin.Admits P) value args → Fits P limit place.level (heightList args + 1) →
    Ends (fun args' => ∀ a ∈ args', a.FailsOnly P) P (visitArgs (builtins limit) args i place v)
  | [], _, _, _, _, _ => by
    rw [visitArgs]
    exact fun a ha => nomatch ha
  | e :: es, i, place, v, hs, h => by
    have hrest := visitArgs_end es (i + 1) place v
    have hfits := h.mono (Nat.succ_le_succ (Nat.le_max_right e.height (heightList es)))
    have hcons : ∀ {x : Except EvalError (Argument Empty)}, Ends (Argument.FailsOnly P) P x →
        ShapedArgs (Builtin.Admits P) value es →
        Ends (fun args' => ∀ a ∈ args', a.FailsOnly P) P
          (do return (← x) :: (← visitArgs (builtins limit) es (i + 1) place v)) := fun hx hes =>
      hx.bind fun a ha => (hrest hes hfits).bind fun as has => List.forall_mem_cons.2 ⟨ha, has⟩
    rw [visitArgs_cons]
    cases e with
    | reference e =>
      refine hcons (.expression fun n w => ?_) hs.2
      exact (visit_failsOnly e ((place.child i).turn [n]) w hs.1 (h.child i (Nat.le_max_left _ _))).bind
        fun _ _ => trivial
    | _ =>
      have he := visit_failsOnly _ (place.child i) v hs.1 (h.child i (Nat.le_max_left _ _))
      rw [visitArg_builtins (by simp)]
      exact hcons (he.map fun p _ => .value p.collapse) hs.2

end

/-! ### Texts -/

/-- The tree of a text evaluates to a result, or fails as a function does that it calls, or is too deep. -/
theorem evaluate_failsOnly {text : String} {bound : Int} {e : Expr} (h : parse text bound = .ok e)
    (hnames : ∀ f ∈ e.referencedFunctions, Builtin.Admits P f) (hlimit : P (.tooDeep limit) ∨ e.height ≤ limit)
    (document : Json) : FailsOnly P (evaluate (.plain Builtin.table limit) e document) := by
  have hfits : Fits P limit Place.root.level e.height := hlimit.imp_right fun h => by simpa [Place.root] using h
  exact (visit_failsOnly e .root document (shaped_of_parse h hnames) hfits).bind fun _ _ => trivial

end Expr
end JsonQuery
