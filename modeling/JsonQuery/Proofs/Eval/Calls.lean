import JsonQuery.Proofs.Eval.Arguments
import JsonQuery.Proofs.Eval.Cutoff
import Mathlib.Data.List.Forall2

/-! Calls on what their arguments give. A call whose arguments have values at their places is its function invoked on
    these values, wherever the call stands and whatever else the table has. A function that orders an array by keys
    needs the keys that its expression gives the items, each at its own turn. Where there are only builtin functions,
    all these values are those of the expressions by themselves, under a limit that is nearer. -/

namespace JsonQuery

variable {ρ : Type}

theorem mapM_of_forall₂ {α β ε : Type} {f : α → Except ε β} {xs : List α} {ys : List β}
    (h : List.Forall₂ (fun x y => f x = .ok y) xs ys) : xs.mapM f = .ok ys := by
  induction h with
  | nil => rfl
  | cons hxy _ ih =>
    rw [List.mapM_cons, hxy, ih]
    rfl

/-- A function gives results for all elements of a list just if it gives one for each. -/
theorem mapM_eq_ok_iff {α β ε : Type} {f : α → Except ε β} : ∀ {xs : List α} {ys : List β},
    xs.mapM f = .ok ys ↔ List.Forall₂ (fun x y => f x = .ok y) xs ys := by
  refine fun {xs ys} => ⟨fun h => ?_, mapM_of_forall₂⟩
  induction xs generalizing ys with
  | nil =>
    cases h
    exact .nil
  | cons x xs ih =>
    rw [List.mapM_cons] at h
    obtain ⟨y, hy, h⟩ := exists_of_bind_eq_ok h
    obtain ⟨zs, hzs, h⟩ := exists_of_bind_eq_ok h
    cases h
    exact .cons hy (ih hzs)

theorem Value.array_ne_reference (items : List (Value ρ)) (r : ρ) : Value.array items ≠ .reference r := by
  intro h
  cases h

/-- Keys that can be evaluated are checked, and if they pass they are put to the elements. -/
theorem Keyed.ofKeys_of_forall₂ (name : String) {apply : Nat → Value ρ → Except EvalError (Value ρ)}
    {items keys : List (Value ρ)} (h : List.Forall₂ (fun p k => apply p.2 p.1 = .ok k) items.zipIdx keys) :
    ofKeys name apply items = (checkKeys name keys).map fun _ => keys.zip items := by
  have hmapM : items.zipIdx.mapM (fun p => apply p.2 p.1) = .ok keys := mapM_of_forall₂ h
  show (do
    let keys ← items.zipIdx.mapM fun p => apply p.2 p.1
    checkKeys name keys
    return keys.zip items : Except EvalError (Keyed ρ)) = _
  rw [hmapM]
  show (do checkKeys name keys; return keys.zip items : Except EvalError (Keyed ρ)) = _
  cases checkKeys name keys <;> rfl

/-- A table that has builtin functions under their names. -/
def FunctionTable.HasBuiltins [BEq ρ] (functions : FunctionTable ρ) (names : List String) : Prop :=
  ∀ name ∈ names, Members.get? name functions = Members.get? name Builtin.table

theorem FunctionTable.hasBuiltins_plain (limit : Int) (names : List String) :
    (Environment.plain Builtin.table limit).functions.HasBuiltins names := fun _ _ => rfl

theorem FunctionTable.HasBuiltins.mono [BEq ρ] {functions : FunctionTable ρ} {names names' : List String}
    (h : functions.HasBuiltins names) (hnames : names' ⊆ names) : functions.HasBuiltins names' :=
  fun name hname => h name (hnames hname)

theorem FunctionTable.HasBuiltins.get?_of_mem_all [BEq ρ] {functions : FunctionTable ρ} {names : List String}
    (h : functions.HasBuiltins names) {name : String} (hname : name ∈ names) {f : Function ρ} (hf : f ∈ Builtin.all)
    (heq : f.name = name) : Members.get? name functions = some f := by
  subst heq
  exact (h f.name hname).trans (Builtin.get?_of_mem_all hf)

namespace Builtin

theorem accepts_any {w : Value ρ} (h : w.kind ≠ .expression) :
    [ParamType.any].any (fun p => p.accepts (.value w)) = true := by
  simpa [ParamType.accepts, Argument.kind] using h

section
variable (name : String) (param : List ParamType) (compute : Value ρ → Except EvalError (Value ρ))

theorem checkFrom_unary (w : Value ρ) : (unary name param compute).checkFrom 0 [.value w] =
    if param.any fun p => p.accepts (.value w) then .ok () else .error (.wrongArgument name 1 param w.kind) := by
  have hslot : (unary name param compute).slot? 0 = some param := rfl
  rw [Function.checkFrom, hslot]
  rfl

/-- A function of one value computes from a value that it accepts, and refuses any other. -/
theorem invoke_unary (w : Value ρ) : (unary name param compute).invoke [.value w] =
    if param.any fun p => p.accepts (.value w) then compute w else .error (.wrongArgument name 1 param w.kind) := by
  rw [Function.invoke, if_pos (by rfl), checkFrom_unary]
  cases param.any fun p => p.accepts (.value w) <;> rfl

end

section
variable (name : String) (first second : List ParamType) (compute : Value ρ → Value ρ → Except EvalError (Value ρ))

/-- A function of two values computes from two values that it accepts. -/
theorem invoke_binary {v w : Value ρ} (hv : first.any (fun p => p.accepts (.value v)) = true)
    (hw : second.any (fun p => p.accepts (.value w)) = true) :
    (binary name first second compute).invoke [.value v, .value w] = compute v w := by
  have hfirst : (binary name first second compute).slot? 0 = some first := rfl
  have hsecond : (binary name first second compute).slot? 1 = some second := rfl
  have hcheck : (binary name first second compute).checkFrom 0 [.value v, .value w] = .ok () := by
    rw [Function.checkFrom, hfirst]
    simp only [hv, if_true]
    rw [Function.checkFrom, hsecond]
    simp only [hw, if_true]
    rfl
  rw [Function.invoke, if_pos (by rfl), hcheck]
  rfl

end

end Builtin

/-- A child that is not cut off stands below a node that is not. -/
theorem Place.not_tooDeep_of_child {limit : Int} {place : Place} {i : Nat} (h : ¬ limit < (place.child i).level + 1) :
    ¬ limit < place.level + 1 := by
  change ¬ limit < (place.level + 1 : Nat) + 1 at h
  omega

namespace Expr

variable [BEq ρ] {env : Environment ρ} {place : Place} {name : String} {f : Function ρ} {source e : Expr}
  {v w : Value ρ} {items keys : List (Value ρ)}

/-! ### Arguments -/

/-- The plain value of an expression at some place, which at the root is what it is evaluated to. -/
def valueAt (env : Environment ρ) (e : Expr) (place : Place) (v : Value ρ) : Except EvalError (Value ρ) := do
  return (← visit env e place v).collapse

theorem evaluate_eq_valueAt (env : Environment ρ) (e : Expr) (v : Value ρ) :
    evaluate env e v = valueAt env e .root v := rfl

theorem visit_of_tooDeep (h : env.limit < place.level + 1) (e : Expr) (v : Value ρ) :
    visit env e place v = .error (.tooDeep env.limit) := by
  cases e <;> rw [visit, enter_eq, if_pos h]

/-- Where an expression has a value, the limit does not cut it off. -/
theorem not_tooDeep_of_valueAt (h : valueAt env e place v = .ok w) : ¬ env.limit < place.level + 1 := by
  intro hdeep
  rw [valueAt, visit_of_tooDeep hdeep] at h
  cases h

theorem valueAt_current (h : ¬ env.limit < place.level + 1) (v : Value ρ) : valueAt env current place v = .ok v := by
  rw [valueAt, visit, Environment.enter_of h]
  rfl

theorem valueAt_literal (h : ¬ env.limit < place.level + 1) (w : Json) (v : Value ρ) :
    valueAt env (literal w) place v = .ok w.lift := by
  rw [valueAt, visit, Environment.enter_of h]
  rfl

theorem valueAt_reference (env : Environment ρ) (e : Expr) (place : Place) (v w : Value ρ) :
    valueAt env (reference e) place v ≠ .ok w := by
  rw [valueAt, visit, enter_eq]
  split <;> exact nofun

/-- An argument that has a value, and one that is no expression, is this value. -/
theorem visitArg_of_valueAt (h : valueAt env e place v = .ok w) (hw : ∀ r, w ≠ .reference r) :
    visitArg env place v e = .ok (.value w) := by
  have hvisit : visitArg env place v e = (valueAt env e place v).map (env.argument place) := by
    rw [visitArg_of_ne fun e' he => valueAt_reference _ _ _ _ _ (he ▸ h), valueAt]
    cases visit env e place v <;> rfl
  rw [hvisit, h]
  cases w with
  | reference r => exact absurd rfl (hw r)
  | _ => rfl

/-- An argument that is no reference fails as its expression does. -/
theorem visitArg_of_error {err : EvalError} (h : valueAt env e place v = .error err) (he : ∀ e', e ≠ reference e') :
    visitArg env place v e = .error err := by
  rw [visitArg_of_ne he]
  rw [valueAt] at h
  cases hvisit : visit env e place v with
  | ok p =>
    rw [hvisit] at h
    cases h
  | error err' =>
    rw [hvisit] at h
    cases h
    rfl

/-! ### Calls -/

theorem valueAt_call {args : List Expr} {as : List (Argument ρ)} (hf : Members.get? name env.functions = some f)
    (hplace : ¬ env.limit < place.level + 1) (hargs : visitArgs env args 0 place v = .ok as) :
    valueAt env (call name args) place v = f.invoke as := by
  rw [valueAt, visit, Environment.enter_of hplace]
  simp only [hf, hargs]
  show (do let p ← (do let r ← f.invoke as; pure (Projected.plain r)); pure p.collapse) = _
  cases f.invoke as <;> rfl

/-- A call on one argument that has a value. -/
theorem valueAt_call_value (hf : Members.get? name env.functions = some f)
    (hsource : valueAt env source (place.child 0) v = .ok w) (hw : ∀ r, w ≠ .reference r) :
    valueAt env (call name [source]) place v = f.invoke [.value w] := by
  refine valueAt_call hf (Place.not_tooDeep_of_child (not_tooDeep_of_valueAt hsource)) ?_
  rw [visitArgs_cons, visitArg_of_valueAt hsource hw, visitArgs]
  rfl

/-- A call fails with its first argument. -/
theorem valueAt_call_error {err : EvalError} (hf : Members.get? name env.functions = some f)
    (hplace : ¬ env.limit < place.level + 1) (hsource : valueAt env source (place.child 0) v = .error err)
    (hne : ∀ e', source ≠ reference e') (rest : List Expr) :
    valueAt env (call name (source :: rest)) place v = .error err := by
  have hargs : visitArgs env (source :: rest) 0 place v = .error err := by
    rw [visitArgs_cons, visitArg_of_error hsource hne]
    rfl
  rw [valueAt, visit, Environment.enter_of hplace]
  simp only [hf, hargs]
  rfl

/-- A call on two arguments that have values. -/
theorem valueAt_call_values {l r : Expr} {a b : Value ρ} (hf : Members.get? name env.functions = some f)
    (hl : valueAt env l (place.child 0) v = .ok a) (ha : ∀ r, a ≠ .reference r)
    (hr : valueAt env r (place.child 1) v = .ok b) (hb : ∀ r, b ≠ .reference r) :
    valueAt env (call name [l, r]) place v = f.invoke [.value a, .value b] := by
  refine valueAt_call hf (Place.not_tooDeep_of_child (not_tooDeep_of_valueAt hl)) ?_
  rw [visitArgs_cons, visitArg_of_valueAt hl ha, visitArgs_cons, visitArg_of_valueAt hr hb, visitArgs]
  rfl

/-- A call of a function that takes any value. -/
theorem valueAt_call_any {compute : Value ρ → Except EvalError (Value ρ)}
    (hf : Members.get? name env.functions = some (Builtin.unary name [.any] compute))
    (hsource : valueAt env source (place.child 0) v = .ok w) (hw : w.kind ≠ .expression) :
    valueAt env (call name [source]) place v = compute w := by
  rw [valueAt_call_value hf hsource fun r h => hw (h ▸ rfl), Builtin.invoke_unary, if_pos (Builtin.accepts_any hw)]

/-- A call on a value and an expression. -/
theorem valueAt_call_reference (hf : Members.get? name env.functions = some f)
    (hsource : valueAt env source (place.child 0) v = .ok w) (hw : ∀ r, w ≠ .reference r) (e : Expr) :
    valueAt env (call name [source, reference e]) place v = f.invoke [.value w,
      .expression (env.known (place.child 1)) fun i x => valueAt env e ((place.child 1).turn [i]) x] := by
  refine valueAt_call hf (Place.not_tooDeep_of_child (not_tooDeep_of_valueAt hsource)) ?_
  rw [visitArgs_cons, visitArg_of_valueAt hsource hw, visitArgs_cons, visitArg, visitArgs]
  rfl

/-! ### Keys -/

/-- The keys that an expression at some place gives some items, one turn after the other. -/
def KeysAt (env : Environment ρ) (e : Expr) (place : Place) (items keys : List (Value ρ)) : Prop :=
  List.Forall₂ (fun p k => valueAt env e (place.turn [p.2]) p.1 = .ok k) items.zipIdx keys

theorem KeysAt.length_eq (h : KeysAt env e place items keys) : keys.length = items.length := by
  rw [← List.Forall₂.length_eq h, List.length_zipIdx]

/-- Keys that do not depend on the turn. -/
theorem keysAt_of_forall₂ (h : List.Forall₂ (fun x k => ∀ i, valueAt env e (place.turn [i]) x = .ok k) items keys) :
    KeysAt env e place items keys := by
  suffices ∀ n, List.Forall₂ (fun p k => valueAt env e (place.turn [p.2]) p.1 = .ok k) (items.zipIdx n) keys from this 0
  induction h with
  | nil => exact fun _ => .nil
  | cons hk _ ih => exact fun n => .cons (hk n) (ih (n + 1))

/-- The items are the keys that the current value gives. -/
theorem keysAt_current (h : ¬ env.limit < place.level + 1) (items : List (Value ρ)) :
    KeysAt env current place items items :=
  keysAt_of_forall₂ (List.forall₂_same.2 fun x _ _ => valueAt_current h x)

section
variable {functions : FunctionTable Empty} {limit : Int} {items keys : List Json}

/-- Where functions hand nothing on, keys do not depend on the turn. -/
theorem keysAt_plain : KeysAt (.plain functions limit) e place items keys ↔
    List.Forall₂ (fun x k => valueAt (.plain functions limit) e place x = .ok k) items keys := by
  have hturn : ∀ (i : Nat) (x : Json), valueAt (.plain functions limit) e (place.turn [i]) x =
      valueAt (.plain functions limit) e place x := fun i x => by
    rw [valueAt, visit_turn, valueAt]
  have hitems : List.Forall₂ (fun x k => valueAt (.plain functions limit) e place x = .ok k)
      (items.zipIdx.map Prod.fst) keys ↔ _ := List.forall₂_map_left_iff
  rw [List.zipIdx_map_fst] at hitems
  rw [hitems]
  simp only [KeysAt, hturn]

theorem KeysAt.reverse (h : KeysAt (.plain functions limit) e place items keys) :
    KeysAt (.plain functions limit) e place items.reverse keys.reverse :=
  keysAt_plain.2 (List.rel_reverse (keysAt_plain.1 h))

end

/-- A function of an array and of the keys of its items: where the keys can be evaluated they are checked, and if they
    pass the result is computed from them. -/
theorem valueAt_keyed {compute : Keyed ρ → Value ρ}
    (hf : Members.get? name env.functions = some (Builtin.keyed name compute))
    (hsource : valueAt env source (place.child 0) v = .ok (.array items))
    (hkeys : KeysAt env e (place.child 1) items keys) :
    valueAt env (call name [source, reference e]) place v =
      (Keyed.checkKeys name keys).map fun _ => compute (keys.zip items) := by
  have hpairs : Keyed.ofKeys name (fun i x => valueAt env e ((place.child 1).turn [i]) x) items =
      (Keyed.checkKeys name keys).map fun _ => keys.zip items := Keyed.ofKeys_of_forall₂ name hkeys
  rw [valueAt_call_reference hf hsource (Value.array_ne_reference items)]
  show (do return compute (← Keyed.ofKeys name _ items) : Except EvalError (Value ρ)) = _
  rw [hpairs]
  cases Keyed.checkKeys name keys <;> rfl

/-! ### Arguments by themselves -/

/-- Under builtin functions an expression has at any place the value that it has by itself under a limit that is as far
    from the root as the limit is from the place. -/
theorem valueAt_of_evaluate {functions : FunctionTable Empty} (hfunctions : functions.OfBuiltins) {limit limit' : Int}
    {v w : Json} (hplace : limit ≤ limit' - place.level) (h : evaluate (.plain functions limit) e v = .ok w) :
    valueAt (.plain functions limit') e place v = .ok w := by
  have hroot : limit - Place.root.level ≤ limit' - place.level := by simpa [Place.root] using hplace
  rw [evaluate] at h
  cases hr : visit (.plain functions limit) e .root v with
  | error failure =>
    rw [hr] at h
    cases h
  | ok r =>
    rw [hr] at h
    rw [valueAt, visit_farther hfunctions hroot hr]
    exact h

theorem keysAt_of_evaluate {functions : FunctionTable Empty} (hfunctions : functions.OfBuiltins) {limit limit' : Int}
    {items keys : List Json} (hplace : limit ≤ limit' - place.level)
    (h : List.Forall₂ (fun x k => evaluate (.plain functions limit) e x = .ok k) items keys) :
    KeysAt (.plain functions limit') e place items keys :=
  keysAt_plain.2 (h.imp fun _ _ hk => valueAt_of_evaluate hfunctions hplace hk)

end Expr
end JsonQuery
