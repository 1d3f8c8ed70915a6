import JsonQuery.Proofs.Eval.Direct
import JsonQuery.Proofs.Function.Alike

/-! Finishing a projection with the rest of a chain. `Projected.finish` applies the rest to every element at
    the innermost level and drops the nulls of every level, without saying why it fails. One more step of a
    projection before that is the same as having the step in the rest; so it does not matter when nulls are
    dropped. -/

namespace JsonQuery

variable {α β γ ε : Type}

/-! ### Results without the causes of failures -/

@[simp] theorem toOption_ok (a : α) : (Except.ok a : Except ε α).toOption = some a := rfl

@[simp] theorem toOption_error (e : ε) : (Except.error e : Except ε α).toOption = none := rfl

@[simp] theorem toOption_pure (a : α) : (pure a : Except ε α).toOption = some a := rfl

@[simp] theorem toOption_bind (x : Except ε α) (f : α → Except ε β) :
    (x >>= f).toOption = x.toOption.bind fun a => (f a).toOption := by
  cases x <;> rfl

theorem toOption_mapM (f : α → Except ε β) : ∀ xs : List α,
    (xs.mapM f).toOption = xs.mapM fun x => (f x).toOption := by
  intro xs
  induction xs with
  | nil => rfl
  | cons x xs ih =>
    simp only [List.mapM_cons, toOption_bind, toOption_pure, ih]
    rfl

/-- Two runs over a list are one. -/
theorem mapM_bind_mapM (f : α → Option β) (g : β → Option γ) : ∀ xs : List α,
    ((xs.mapM f).bind fun ys => ys.mapM g) = xs.mapM fun x => (f x).bind g := by
  intro xs
  induction xs with
  | nil => rfl
  | cons x xs ih =>
    simp only [List.mapM_cons, ← ih]
    cases f x with
    | none => rfl
    | some y =>
      cases xs.mapM f with
      | none => cases h : g y <;> simp [h]
      | some ys => simp

theorem mapM_zipIdx (f : α → Option β) : ∀ (xs : List α) (n : Nat),
    ((xs.zipIdx n).mapM fun p => f p.1) = xs.mapM f := by
  intro xs
  induction xs with
  | nil => exact fun _ => rfl
  | cons x xs ih =>
    intro n
    simp only [List.zipIdx_cons, List.mapM_cons, ih (n + 1)]

theorem eq_ok_iff_toOption {x : Except ε α} {a : α} : x = .ok a ↔ x.toOption = some a := by
  cases x <;> simp

theorem eq_error_iff_toOption {x : Except ε α} : (∃ e, x = .error e) ↔ x.toOption = none := by
  cases x <;> simp

/-! ### The rest of a chain -/

namespace Projected

/-- What the rest of a chain makes of a value of some depth: of its innermost elements, without the nulls. -/
def finish (k : Json → Option Json) : Nat → Json → Option Json
  | 0, v => k v
  | depth + 1, .array items => (items.mapM (finish k depth)).map fun ws =>
    .array (ws.filter fun w => !w.isNull)
  | _ + 1, _ => some .null

/-- Nothing left to do is a collapse. -/
theorem finish_some : ∀ (depth : Nat) (v : Json), finish some depth v = some (collapseValue depth v) := by
  intro depth
  induction depth with
  | zero => exact fun _ => rfl
  | succ depth ih =>
    intro v
    cases v with
    | array items =>
      have hitems : items.mapM (finish some depth) = some (items.map (collapseValue depth)) := by
        rw [funext ih]
        exact List.mapM_pure
      rw [finish, hitems, collapseValue]
      rfl
    | _ => rfl

/-- A step at the innermost elements before the rest belongs to the rest, also if it adds levels of its
    own. -/
theorem finish_mapInner {f : List Nat → Json → Except ε Json} {k g : Json → Option Json} {more : Nat}
    (h : ∀ way v, (f way v).toOption.bind (finish k more) = g v) :
    ∀ (depth : Nat) (way : List Nat) (v : Json),
    (mapInner f depth way v).toOption.bind (finish k (more + depth)) = finish g depth v := by
  intro depth
  induction depth with
  | zero => exact h
  | succ depth ih =>
    intro way v
    cases v with
    | array items =>
      have hruns : ((items.zipIdx.mapM fun p => mapInner f depth (p.2 :: way) p.1).toOption.bind fun ws =>
          ws.mapM (finish k (more + depth))) = items.mapM (finish g depth) := by
        rw [toOption_mapM, mapM_bind_mapM]
        simp only [ih]
        exact mapM_zipIdx (finish g depth) items 0
      rw [mapInner, toOption_bind, Option.bind_assoc, finish, ← hruns, Option.map_bind]
      rfl
    | _ => rfl

theorem finish_apply {f : List Nat → Json → Except ε Json} {k g : Json → Option Json}
    (h : ∀ way v, (f way v).toOption.bind k = g v) (p : Projected Empty) :
    ((p.apply f).toOption.bind fun q => finish k q.depth q.value) = finish g p.depth p.value := by
  have hstep : ∀ way v, (f way v).toOption.bind (finish k 0) = g v := h
  rw [apply, toOption_bind, Option.bind_assoc, ← finish_mapInner hstep p.depth [] p.value, Nat.zero_add]
  rfl

theorem finish_expand {f : List Nat → Json → Except ε Json} {k g : Json → Option Json}
    (h : ∀ way v, (f way v).toOption.bind (finish k 1) = g v) (p : Projected Empty) :
    ((p.expand f).toOption.bind fun q => finish k q.depth q.value) = finish g p.depth p.value := by
  rw [expand, toOption_bind, Option.bind_assoc, ← finish_mapInner h p.depth [] p.value, Nat.add_comm]
  rfl

end Projected

theorem Value.toOption_each (k : Json → Except ε Json) (v : Json) :
    (v.each k).toOption = Projected.finish (fun w => (k w).toOption) 1 v := by
  cases v with
  | array items =>
    rw [each, toOption_bind, toOption_mapM, Projected.finish, Option.map_eq_bind]
    rfl
  | _ => rfl

/-! ### Tests that differ in how they fail -/

theorem Value.filtered_congr {test test' : Nat → Json → Except EvalError Json}
    (h : ∀ n v, (test n v).toOption = (test' n v).toOption) (v : Json) :
    (v.filtered test).toOption = (v.filtered test').toOption := by
  refine Alike.toOption_eq (R := fun _ _ => True) ?_
  cases v with
  | array items =>
    refine (Follows.filterM (fun p => ?_) items.zipIdx).bind fun ys => .ok _
    exact (Alike.of_toOption_eq (h p.2 p.1)).bind fun w => .ok w.isTruthy
  | _ => exact .ok _

end JsonQuery
