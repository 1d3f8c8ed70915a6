import JsonQuery.Proofs.Eval.Arguments
import JsonQuery.Proofs.Eval.Depth
import JsonQuery.Proofs.Eval.Finish
import JsonQuery.Proofs.Expr.Shape
import JsonQuery.Proofs.Function.Builtins

/-! The evaluator agrees with the direct meaning. What a projection becomes when it is finished with the
    rest of a chain is what the direct meaning gives with that rest, for every rest; so the evaluator may
    carry a projection along and drop nulls once, at the end. This holds of every tree that a text denotes,
    under every limit of at least its height: there is one case for each kind of node. -/

namespace JsonQuery

open Projected (finish)

variable {ρ : Type}

/-- A projection that, finished with any rest of a chain, is what a function of the rest gives, and a
    failure where the function fails. -/
def Threads (x : Except EvalError (Projected Empty))
    (d : (Json → Except EvalError Json) → Except EvalError Json) : Prop :=
  ∀ k, (d k).toOption = x.toOption.bind fun p => finish (fun w => (k w).toOption) p.depth p.value

namespace Threads

variable {x y : Except EvalError (Projected Empty)}
  {d : (Json → Except EvalError Json) → Except EvalError Json}
  {f : List Nat → Json → Except EvalError Json}
  {g : (Json → Except EvalError Json) → Json → Except EvalError Json}

/-- With nothing left to do the function gives the plain value. -/
theorem collapse (h : Threads x d) : (d .ok).toOption = x.toOption.map Projected.collapse := by
  rw [h .ok, Option.map_eq_bind]
  exact congrArg _ (funext fun p => Projected.finish_some p.depth p.value)

theorem plain (w : Json) : Threads (.ok (.plain w)) fun k => k w := fun _ => rfl

theorem apply (h : Threads x d)
    (hf : ∀ k way w, ((f way w).toOption.bind fun u => (k u).toOption) = (g k w).toOption) :
    Threads (x >>= fun p => p.apply f) fun k => d (g k) := by
  intro k
  rw [toOption_bind, Option.bind_assoc, h (g k)]
  exact congrArg _ (funext fun p => (Projected.finish_apply (hf k) p).symm)

theorem expand (h : Threads x d)
    (hf : ∀ k way w, (f way w).toOption.bind (finish (fun u => (k u).toOption) 1) = (g k w).toOption) :
    Threads (x >>= fun p => p.expand f) fun k => d (g k) := by
  intro k
  rw [toOption_bind, Option.bind_assoc, h (g k)]
  exact congrArg _ (funext fun p => (Projected.finish_expand (hf k) p).symm)

/-- What is done with a plain value is done with what the function gives when nothing is left to do. -/
theorem then_collapse (h : Threads x d) (s : Json → Except EvalError (Projected Empty))
    (hs : ∀ w, Threads (s w) (g · w)) :
    Threads (x >>= fun p => s p.collapse) fun k => d .ok >>= g k := by
  intro k
  rw [toOption_bind, toOption_bind, h.collapse, Option.bind_map, Option.bind_assoc]
  exact congrArg _ (funext fun p => hs p.collapse k)

/-- A result that is computed alike passes on a plain value. -/
theorem then_plain {α : Type} {r r' : Except EvalError α} (h : r'.toOption = r.toOption) (value : α → Json) :
    Threads (do return .plain (value (← r))) (fun k => do k (value (← r'))) := by
  intro k
  rw [toOption_bind, toOption_bind, h, Option.bind_assoc]
  rfl

/-- To the right of a point a plain projection is extended at its value, any other one at each element. -/
theorem extend (h : Threads x d) {step : Json → Except EvalError (Projected Empty)}
    (hstep : ∀ w, Threads (step w) (g · w))
    (hf : ∀ k way w, ((f way w).toOption.bind fun u => (k u).toOption) = (g k w).toOption) :
    Threads (x >>= fun p => if p.depth = 0 then step p.value else p.apply f) fun k => d (g k) := by
  intro k
  rw [toOption_bind, Option.bind_assoc, h (g k)]
  refine congrArg _ (funext fun p => ?_)
  by_cases hp : p.depth = 0
  · rw [if_pos hp, hp]
    exact hstep p.value k
  · rw [if_neg hp]
    exact (Projected.finish_apply (hf k) p).symm

/-- A plain projection may be collapsed before the rest of the chain. -/
theorem of_plain (h : Threads x d) (hplain : ∀ p, x = .ok p → p.depth = 0)
    (k : Json → Except EvalError Json) :
    ((do return (← x).collapse : Except EvalError Json).toOption.bind fun u => (k u).toOption) =
    (d k).toOption := by
  rw [h k]
  cases x with
  | error e => rfl
  | ok p =>
    obtain ⟨w, n⟩ := p
    cases hplain _ rfl
    rfl

end Threads

/-- Outcomes of which the one is a failure if the other is, and otherwise arguments that are alike. -/
abbrev SameArguments (xs ys : Except EvalError (List (Argument Empty))) : Prop :=
  Option.Rel (List.Forall₂ (Argument.Alike fun _ _ => True)) xs.toOption ys.toOption

/-- What a child stands for as an argument. -/
theorem alike_value {x : Except EvalError (Projected Empty)}
    {d : (Json → Except EvalError Json) → Except EvalError Json} (h : Threads x d) :
    Option.Rel (Argument.Alike fun _ _ => True) ((d .ok).map .value).toOption
      (x.map fun p => Argument.value p.collapse).toOption := by
  have hvalue := h.collapse
  cases x with
  | error e =>
    cases hd : d .ok with
    | error e' => exact .none
    | ok w => rw [hd] at hvalue; cases hvalue
  | ok p =>
    cases hd : d .ok with
    | error e' => rw [hd] at hvalue; cases hvalue
    | ok w =>
      rw [hd] at hvalue
      cases hvalue
      exact .some (.value p.collapse)

theorem SameArguments.cons {x y : Except EvalError (Argument Empty)}
    {xs ys : Except EvalError (List (Argument Empty))}
    (h : Option.Rel (Argument.Alike fun _ _ => True) x.toOption y.toOption) (hs : SameArguments xs ys) :
    SameArguments (do return (← x) :: (← xs)) (do return (← y) :: (← ys)) := by
  cases x with
  | error e =>
    cases y with
    | error e' => exact .none
    | ok b => cases h
  | ok a =>
    cases y with
    | error e' => cases h
    | ok b =>
      cases h with
      | some hab =>
        cases xs with
        | error e =>
          cases ys with
          | error e' => exact .none
          | ok bs => cases hs
        | ok as =>
          cases ys with
          | error e' => cases hs
          | ok bs =>
            cases hs with
            | some hrest => exact .some (.cons hab hrest)

theorem SameArguments.invoke {name : String} {f : Function Empty}
    (hf : Members.get? name Builtin.table = some f)
    {xs ys : Except EvalError (List (Argument Empty))} (h : SameArguments xs ys) :
    (do f.invoke (← xs)).toOption = (do f.invoke (← ys)).toOption := by
  cases xs with
  | error e =>
    cases ys with
    | error e' => rfl
    | ok bs => cases h
  | ok as =>
    cases ys with
    | error e' => cases h
    | ok bs =>
      cases h with
      | some hargs =>
        have hinvoke : Alike (fun _ _ => True) (f.invoke as) (f.invoke bs) :=
          Builtin.invoke_alike (fun _ _ => trivial) hf hargs
        exact hinvoke.toOption_eq

namespace Expr

theorem depth_of_plain {α : Type} {r : Except EvalError α} {value : α → Value ρ} {p : Projected ρ}
    (h : (do return .plain (value (← r))) = Except.ok p) : p.depth = 0 := by
  cases r with
  | error e => cases h
  | ok a =>
    cases h
    rfl

/-- Fields, calls and multiselects have plain values. -/
theorem depth_of_isField [BEq ρ] {env : Environment ρ} {e : Expr} (he : e.isField = true) {place : Place}
    {v : Value ρ} {p : Projected ρ} (h : visit env e place v = .ok p) : p.depth = 0 := by
  cases e with
  | identifier name =>
    rw [visit] at h
    cases of_enter_eq_ok h
    rfl
  | call function args =>
    rw [visit] at h
    replace h := of_enter_eq_ok h
    split at h
    · cases h
    · rw [← bind_assoc] at h
      exact depth_of_plain h
  | multiselectList items =>
    rw [visit] at h
    replace h := of_enter_eq_ok h
    split at h
    · cases h
      rfl
    · exact depth_of_plain h
  | multiselectHash pairs =>
    rw [visit] at h
    replace h := of_enter_eq_ok h
    split at h
    · cases h
      rfl
    · exact depth_of_plain h
  | _ => cases he

/-- Under the direct meaning an argument that is not written as a reference is a value. -/
theorem directArgs_value {functions : FunctionTable Empty} {e : Expr} (he : ∀ e', e ≠ reference e')
    (es : List Expr) (v : Json) : directArgs functions (e :: es) v =
      (do return (← (direct functions e v .ok).map .value) :: (← directArgs functions es v)) := by
  have hargs : directArgs functions (e :: es) v =
      (do return .value (← direct functions e v .ok) :: (← directArgs functions es v)) := by
    cases e with
    | reference e' => exact absurd rfl (he e')
    | _ =>
      rw [directArgs]
      simp
  rw [hargs]
  cases direct functions e v .ok <;> rfl

variable {limit : Int}

mutual

/-- The evaluator threads projections as the direct meaning has them. -/
theorem visit_threads : ∀ (e : Expr) (place : Place) (v : Json), WellShaped e →
    (place.level : Int) + e.height ≤ limit →
    Threads (visit (builtins limit) e place v) (direct Builtin.table e v)
  | identifier name, place, v, _, h => by
    rw [visit, Environment.enter_of (not_too_deep h)]
    exact .plain (v.field name)
  | current, place, v, _, h => by
    rw [visit, Environment.enter_of (not_too_deep h)]
    exact .plain v
  | literal w, place, v, _, h => by
    rw [visit, Environment.enter_of (not_too_deep h), Value.lift_self]
    exact .plain w
  | rawString text, place, v, _, h => by
    rw [visit, Environment.enter_of (not_too_deep h)]
    exact .plain (.string text)
  | index base i, place, v, ⟨_, hs⟩, h => by
    rw [visit, Environment.enter_of (not_too_deep h)]
    exact (visitBase_threads base (place.child 0) v hs (child_within 0 h (Nat.le_refl _))).apply
      fun _ _ _ => rfl
  | slice base start stop step, place, v, ⟨hstep, _, hs⟩, h => by
    rw [visit, Environment.enter_of (not_too_deep h), if_neg hstep]
    have hslice : Threads _ fun k => directBase Builtin.table base v fun w =>
      (w.sliced start stop step).each k :=
      (visitBase_threads base (place.child 0) v hs (child_within 0 h (Nat.le_refl _))).expand
        (f := fun _ w => .ok (w.sliced start stop step)) fun k _ w => (Value.toOption_each k _).symm
    intro k
    rw [direct, if_neg hstep]
    exact hslice k
  | flatten base, place, v, hs, h => by
    rw [visit, Environment.enter_of (not_too_deep h)]
    exact (visitBase_threads base (place.child 0) v hs (child_within 0 h (Nat.le_refl _))).then_collapse
      (fun w => .ok ⟨w.flattened, 1⟩) fun w k => Value.toOption_each k w.flattened
  | subexpression left right, place, v, ⟨hfield, hl, hr⟩, h => by
    rw [visit, Environment.enter_of (not_too_deep h)]
    refine (visit_threads left (place.child 0) v hl (child_within 0 h (Nat.le_max_left _ _))).extend
      (fun w => visit_threads right (place.child 1) w hr (child_within 1 h (Nat.le_max_right _ _)))
      fun k way w => ?_
    have hright := visit_threads right ((place.child 1).turn way) w hr
      (child_within 1 h (Nat.le_max_right _ _))
    exact hright.of_plain (fun p => depth_of_isField hfield) k
  | objectWildcard base, place, v, hs, h => by
    rw [visit, Environment.enter_of (not_too_deep h)]
    exact (visitBase_threads base (place.child 0) v hs (child_within 0 h (Nat.le_refl _))).expand
      fun k _ w => (Value.toOption_each k w.objectValues).symm
  | arrayWildcard base, place, v, hs, h => by
    rw [visit, Environment.enter_of (not_too_deep h)]
    refine (visitBase_threads base (place.child 0) v hs (child_within 0 h (Nat.le_refl _))).expand
      fun k _ w => ?_
    rw [Value.toOption_each]
    cases w <;> rfl
  | pipe left right, place, v, ⟨hl, hr⟩, h => by
    rw [visit, Environment.enter_of (not_too_deep h)]
    exact (visit_threads left (place.child 0) v hl (child_within 0 h (Nat.le_max_left _ _))).then_collapse
      (visit (builtins limit) right (place.child 1)) fun w =>
        visit_threads right (place.child 1) w hr (child_within 1 h (Nat.le_max_right _ _))
  | or left right, place, v, ⟨hl, hr⟩, h => by
    rw [visit, Environment.enter_of (not_too_deep h)]
    have hright := visit_threads right (place.child 1) v hr (child_within 1 h (Nat.le_max_right _ _))
    refine (visit_threads left (place.child 0) v hl (child_within 0 h (Nat.le_max_left _ _))).then_collapse
      (fun w => if w.isTruthy then .ok (.plain w) else do return .plain (← visit _ right _ v).collapse)
      fun w => ?_
    cases w.isTruthy with
    | true => exact .plain w
    | false => exact hright.then_collapse (.ok ∘ .plain) .plain
  | and left right, place, v, ⟨hl, hr⟩, h => by
    rw [visit, Environment.enter_of (not_too_deep h)]
    have hright := visit_threads right (place.child 1) v hr (child_within 1 h (Nat.le_max_right _ _))
    refine (visit_threads left (place.child 0) v hl (child_within 0 h (Nat.le_max_left _ _))).then_collapse
      (fun w => if w.isTruthy then do return .plain (← visit _ right _ v).collapse else .ok (.plain w))
      fun w => ?_
    cases w.isTruthy with
    | true => exact hright.then_collapse (.ok ∘ .plain) .plain
    | false => exact .plain w
  | not operand, place, v, hs, h => by
    rw [visit, Environment.enter_of (not_too_deep h)]
    exact (visit_threads operand (place.child 0) v hs (child_within 0 h (Nat.le_refl _))).then_collapse
      (fun w => .ok (.plain (.bool !w.isTruthy))) fun w => .plain (.bool !w.isTruthy)
  | comparison op left right, place, v, ⟨hl, hr⟩, h => by
    rw [visit, Environment.enter_of (not_too_deep h)]
    have hright := visit_threads right (place.child 1) v hr (child_within 1 h (Nat.le_max_right _ _))
    refine (visit_threads left (place.child 0) v hl (child_within 0 h (Nat.le_max_left _ _))).then_collapse
      (fun a => do return .plain (op.compare a (← visit _ right _ v).collapse)) fun a => ?_
    exact hright.then_collapse (fun b => .ok (.plain (op.compare a b))) fun b => .plain (op.compare a b)
  | filter source predicate, place, v, ⟨hsource, hp⟩, h => by
    rw [visit, Environment.enter_of (not_too_deep h)]
    refine (visitBase_threads source (place.child 0) v hsource
      (child_within 0 h (Nat.le_max_left _ _))).expand fun k way w => ?_
    rw [toOption_bind]
    refine congrArg₂ _ (Value.filtered_congr (fun n x => ?_) w)
      (funext fun u => (Value.toOption_each k u).symm)
    have htest := visit_threads predicate ((place.child source.toList.length).turn (n :: way)) x hp
      (child_within source.toList.length h (Nat.le_max_right _ _))
    rw [htest.collapse]
    cases visit (builtins limit) predicate ((place.child source.toList.length).turn (n :: way)) x <;> rfl
  | multiselectList items, place, v, ⟨_, hs⟩, h => by
    rw [visit, Environment.enter_of (not_too_deep h)]
    intro k
    rw [direct]
    cases v.isNull with
    | true => exact Threads.plain .null k
    | false => exact Threads.then_plain (visitItems_agree items 0 place v hs h) .array k
  | multiselectHash pairs, place, v, ⟨_, hs⟩, h => by
    rw [visit, Environment.enter_of (not_too_deep h)]
    intro k
    rw [direct]
    cases v.isNull with
    | true => exact Threads.plain .null k
    | false => exact Threads.then_plain (visitPairs_agree pairs 0 place v hs h) (.object ∘ Members.ofPairs) k
  | call function args, place, v, ⟨_, hs⟩, h => by
    rw [visit, Environment.enter_of (not_too_deep h)]
    intro k
    rw [direct]
    have hargs := visitArgs_agree args 0 place v hs h
    have htable : (builtins limit).functions = Builtin.table := rfl
    rw [htable]
    cases hf : Members.get? function (Builtin.table : FunctionTable Empty) with
    | none => rfl
    | some f =>
      have hinvoke : Threads _ _ := Threads.then_plain (hargs.invoke hf) id
      simpa only [bind_assoc, id_eq] using hinvoke k

theorem visitBase_threads : ∀ (base : Option Expr) (place : Place) (v : Json),
    ShapedOption (fun _ => True) (fun _ => True) base → (place.level : Int) + heightOption base ≤ limit →
    Threads (visitBase (builtins limit) base place v) (directBase Builtin.table base v)
  | none, _, v, _, _ => by
    rw [visitBase]
    exact .plain v
  | some e, place, v, hs, h => by
    rw [visitBase]
    exact visit_threads e place v hs h

theorem visitItems_agree : ∀ (items : List Expr) (i : Nat) (place : Place) (v : Json),
    ShapedList (fun _ => True) (fun _ => True) items →
    (place.level : Int) + (heightList items + 1 : Nat) ≤ limit →
    (directItems Builtin.table items v).toOption = (visitItems (builtins limit) items i place v).toOption
  | [], _, _, _, _, _ => by
    rw [visitItems, directItems]
  | e :: es, i, place, v, ⟨he, hes⟩, h => by
    rw [visitItems, directItems]
    rw [toOption_bind, toOption_bind, (visit_threads e (place.child i) v he
      (child_within i h (Nat.le_max_left _ _))).collapse,
      Option.bind_map]
    refine congrArg _ (funext fun p => ?_)
    rw [toOption_bind, ← visitItems_agree es (i + 1) place v hes (within_mono h (Nat.le_max_right _ _))]
    exact toOption_bind _ _

theorem visitPairs_agree : ∀ (pairs : List (String × Expr)) (i : Nat) (place : Place) (v : Json),
    ShapedPairs (fun _ => True) (fun _ => True) pairs →
    (place.level : Int) + (heightPairs pairs + 1 : Nat) ≤ limit →
    (directPairs Builtin.table pairs v).toOption = (visitPairs (builtins limit) pairs i place v).toOption
  | [], _, _, _, _, _ => by
    rw [visitPairs, directPairs]
  | (key, e) :: es, i, place, v, ⟨he, hes⟩, h => by
    rw [visitPairs, directPairs]
    rw [toOption_bind, toOption_bind, (visit_threads e (place.child i) v he
      (child_within i h (Nat.le_max_left _ _))).collapse,
      Option.bind_map]
    refine congrArg _ (funext fun p => ?_)
    rw [toOption_bind, ← visitPairs_agree es (i + 1) place v hes (within_mono h (Nat.le_max_right _ _))]
    exact toOption_bind _ _

theorem visitArgs_agree : ∀ (args : List Expr) (i : Nat) (place : Place) (v : Json),
    ShapedArgs (fun _ => True) (fun _ => True) args →
    (place.level : Int) + (heightList args + 1 : Nat) ≤ limit →
    SameArguments (directArgs Builtin.table args v) (visitArgs (builtins limit) args i place v)
  | [], _, _, _, _, _ => by
    rw [visitArgs, directArgs]
    exact .some .nil
  | e :: es, i, place, v, hs, h => by
    have hrest := visitArgs_agree es (i + 1) place v
    rw [visitArgs_cons]
    cases e with
    | reference e =>
      rw [directArgs]
      refine SameArguments.cons (x := .ok _) (.some (.expression fun n w => ?_))
        (hrest hs.2 (within_mono h (Nat.le_max_right _ _)))
      have he := visit_threads e ((place.child i).turn [n]) w hs.1 (child_within i h (Nat.le_max_left _ _))
      refine Alike.of_toOption_eq ?_
      rw [he.collapse]
      cases visit (builtins limit) e ((place.child i).turn [n]) w <;> rfl
    | _ =>
      have he := visit_threads _ (place.child i) v hs.1 (child_within i h (Nat.le_max_left _ _))
      rw [directArgs_value (by simp), visitArg_builtins (by simp)]
      exact .cons (alike_value he) (hrest hs.2 (within_mono h (Nat.le_max_right _ _)))

end

/-- Under a limit of at least its height, a tree that a text denotes evaluates to what it directly means:
    the same result at every document, and a failure just where there is no result. -/
theorem evaluate_eq_direct {text : String} {bound limit : Int} {e : Expr} (h : parse text bound = .ok e)
    (hlimit : e.height ≤ limit) (document : Json) :
    (∀ r, evaluate (.plain Builtin.table limit) e document = .ok r ↔
      direct Builtin.table e document .ok = .ok r) ∧
    ((∃ failure, evaluate (.plain Builtin.table limit) e document = .error failure) ↔
      ∃ failure, direct Builtin.table e document .ok = .error failure) := by
  have hthreads := visit_threads e .root document (wellShaped_of_pipeline (parse_sound h).1)
    (by simpa [Place.root] using hlimit)
  have hsame : (evaluate (.plain Builtin.table limit) e document).toOption =
      (direct Builtin.table e document .ok).toOption := by
    rw [hthreads.collapse, evaluate, toOption_bind, Option.map_eq_bind]
    rfl
  simp only [eq_ok_iff_toOption, eq_error_iff_toOption, hsame, implies_true, and_self]

/-- Of a list that is within a projection the first items are taken, and what has none is left out. -/
theorem evaluate_eq_direct_first : ∃ e, parse "a[*].b[0]" 9 = .ok e ∧ e.height ≤ 4 ∧
    evaluate (.plain Builtin.table 4) e (.object [("a", .array
      [.object [("b", .array [.int 1, .int 2])], .object [("c", .null)],
        .object [("b", .array [.array []])]])])
      = .ok (.array [.int 1, .array []]) := by
  have hscan : Scan.ofText "a[*].b[0]".toList =
      ⟨(Scan.ofText "a[*].b[0]".toList).tokens, .finish ⟨.finish, 9, 9, 9⟩⟩ := by decide +kernel
  have hlexemes : (Scan.ofText "a[*].b[0]".toList).tokens.map Token.lexeme =
      [.name "a", .mark .lbracket, .mark .star, .mark .rbracket, .mark .dot, .name "b",
        .mark .lbracket, .number 0,
        .mark .rbracket] := by decide +kernel
  have hparse : parse "a[*].b[0]" 9 = .ok
      (.index (some (.subexpression (.arrayWildcard (some (.identifier "a"))) (.identifier "b"))) 0) := by
    have hitems := Grammar.Postfixed.suffixed (.primary (.name "a")) (.bracketed .items)
    have hfield := Grammar.Postfixed.suffixed hitems (.field (.name "b"))
    have hindex := Grammar.Postfixed.suffixed hfield (.bracketed (.selector (.index (.plain 0))))
    refine parse_complete hscan (by decide +kernel) ?_
    rw [hlexemes]
    exact .disjunction (.conjunction (.comparison (.operands (.postfixed hindex))))
  exact ⟨_, hparse, by decide, ((evaluate_eq_direct hparse (by decide) _).1 _).2 rfl⟩

end Expr
end JsonQuery
