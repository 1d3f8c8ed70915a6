import JsonQuery.Proofs.Eval.Agreement
import JsonQuery.Proofs.Eval.Calls
import JsonQuery.Proofs.Eval.Sliced

/-! Work that is done item by item. An expression meets the items of an array in three ways: to the right of a wildcard,
    where the projection is carried along; as the predicate of a filter; and handed to `map`, which evaluates it within
    a call. It is at another place each time, but where there is room for it at all of these places it has the same
    values at the items, and the first failure among them is the failure of the whole. What differs is what becomes of
    the values: `map` keeps them all, a wildcard drops the nulls, and a filter keeps the items at which they are
    true. -/

namespace JsonQuery

/-- Filtering by a test of what a function gives is choosing among the elements by all results of the function. -/
theorem filterM_eq_mapM {α β ε : Type} (f : α → Except ε β) (test : β → Bool) (xs : List α) :
    (xs.filterM fun x => return test (← f x)) =
      (do return ((xs.zip (← xs.mapM f)).filter fun p => test p.2).map Prod.fst) := by
  have hrun : ∀ xs acc : List α, (xs.filterAuxM (fun x => return test (← f x)) acc) =
      (do return (((xs.zip (← xs.mapM f)).filter fun p => test p.2).map Prod.fst).reverse ++ acc) := by
    intro xs
    induction xs with
    | nil => exact fun _ => rfl
    | cons x xs ih =>
      intro acc
      simp only [List.filterAuxM, List.mapM_cons, bind_assoc, pure_bind, ih]
      refine bind_congr fun y => bind_congr fun ys => ?_
      cases h : test y <;> simp [h]
  simp only [List.filterM, hrun, bind_assoc, pure_bind, List.append_nil, List.reverse_reverse]

/-- A function that does not look at the numbers of the elements. -/
theorem mapM_zipIdx_fst {α β ε : Type} (f : α → Except ε β) (xs : List α) :
    (xs.zipIdx.mapM fun p => f p.1) = xs.mapM f := by
  conv_rhs => rw [← List.zipIdx_map_fst 0 xs, List.mapM_map]
  rfl

/-- What is done with the elements that are kept, by the results of a function that does not look at the numbers. -/
theorem filterM_zipIdx_fst {α β γ ε : Type} (f : α → Except ε β) (test : β → Bool) (xs : List α)
    (k : List α → Except ε γ) :
    (do k ((← xs.zipIdx.filterM fun p => return test (← f p.1)).map Prod.fst) : Except ε γ) =
      (do k (((xs.zip (← xs.mapM f)).filter fun p => test p.2).map Prod.fst)) := by
  have hzip : ∀ (xs : List α) (n : Nat) (ys : List β),
      (((xs.zipIdx n).zip ys).filter fun p => test p.2).map (Prod.fst ∘ Prod.fst) =
        ((xs.zip ys).filter fun p => test p.2).map Prod.fst := by
    intro xs
    induction xs with
    | nil => simp
    | cons x xs ih =>
      rintro n (_ | ⟨y, ys⟩)
      · simp
      · cases h : test y <;> simp [h, ih]
  rw [filterM_eq_mapM fun p : α × Nat => f p.1, mapM_zipIdx_fst, bind_assoc]
  simp [hzip]

namespace Expr

/-- The call that maps an expression over the current value. -/
def mapped (e : Expr) : Expr := call "map" [reference e, current]

theorem height_mapped (e : Expr) : (mapped e).height = e.height + 1 := by
  have hpos := e.height_pos
  simp only [mapped, height, heightList]
  omega

/-! ### At any place -/

section
variable {ρ : Type} [BEq ρ] {env : Environment ρ} {place : Place} {v : Value ρ}

/-- `map` gives all values of its expression, item by item, each at its own turn. -/
theorem valueAt_mapped (hmap : Members.get? "map" env.functions = some Builtin.map)
    (hplace : ¬ env.limit < (place.child 1).level + 1) (e : Expr) (items : List (Value ρ)) :
    valueAt env (mapped e) place (.array items) =
      (do return .array (← items.zipIdx.mapM fun (x, i) => valueAt env e ((place.child 0).turn [i]) x)) := by
  have hcurrent := visitArg_of_valueAt (valueAt_current hplace (.array items)) (Value.array_ne_reference items)
  have hargs : visitArgs env [reference e, current] 0 place (.array items) = .ok
      [.expression (env.known (place.child 0)) fun i x => valueAt env e ((place.child 0).turn [i]) x,
        .value (.array items)] := by
    rw [visitArgs_cons, visitArg, visitArgs_cons, hcurrent, visitArgs]
    rfl
  rw [mapped, valueAt_call hmap (Place.not_tooDeep_of_child hplace) hargs]
  rfl

/-- A wildcard before an expression gives its values, item by item, without the nulls. -/
theorem valueAt_afterWildcard (hplace : ¬ env.limit < (place.child 0).level + 1) (e : Expr) (items : List (Value ρ)) :
    valueAt env (subexpression (arrayWildcard none) e) place (.array items) =
      (do
        let ws ← items.zipIdx.mapM fun (x, i) => valueAt env e ((place.child 1).turn [i]) x
        return .array (ws.filter fun w => !w.isNull)) := by
  have hleft : visit env (arrayWildcard none) (place.child 0) (.array items) = pure ⟨.array items, 1⟩ := by
    rw [visit, Environment.enter_of hplace, visitBase]
    rfl
  rw [valueAt, visit, Environment.enter_of (Place.not_tooDeep_of_child hplace), hleft]
  simp only [pure_bind, Nat.one_ne_zero, if_false, Projected.apply, Projected.mapInner, bind_assoc,
    Projected.collapse_array]
  rfl

/-- A wildcard after a call sees a plain value. -/
theorem valueAt_wildcardOf (hplace : ¬ env.limit < place.level + 1) (function : String) (args : List Expr) :
    valueAt env (arrayWildcard (some (call function args))) place v =
      (do
        let w ← valueAt env (call function args) (place.child 0) v
        return Projected.collapse ⟨w.arrayOrNull, 1⟩) := by
  rw [valueAt, visit, Environment.enter_of hplace, visitBase, valueAt]
  cases hcall : visit env (call function args) (place.child 0) v with
  | error failure => rfl
  | ok p =>
    obtain ⟨w, depth⟩ := p
    obtain rfl : depth = 0 := depth_of_isField rfl hcall
    rfl

/-- A filter keeps the items at which its predicate is true, other than the nulls. -/
theorem valueAt_filter (hplace : ¬ env.limit < place.level + 1) (e : Expr) (items : List (Value ρ)) :
    valueAt env (filter none e) place (.array items) =
      (do
        let kept ← items.zipIdx.filterM fun (x, i) => return (← valueAt env e ((place.child 0).turn [i]) x).isTruthy
        return .array ((kept.map Prod.fst).filter fun x => !x.isNull)) := by
  have hsource : visitBase env none (place.child 0) (.array items) = pure ⟨.array items, 0⟩ := by
    rw [visitBase]
    rfl
  rw [valueAt, visit, Environment.enter_of hplace, hsource]
  simp only [pure_bind, Projected.expand, Projected.mapInner, Value.filtered, bind_assoc, Nat.zero_add,
    Projected.collapse_array, valueAt]
  rfl

end

/-! ### Where nothing is handed on -/

section
variable {functions : FunctionTable Empty} {limit : Int} {place : Place} {e : Expr}

/-- Where there is room for it, an expression has at any place the value that it has by itself. -/
theorem valueAt_of_room (h : (place.level : Int) + e.height ≤ limit) (v : Json) :
    valueAt (.plain functions limit) e place v = evaluate (.plain functions limit) e v := by
  have hlimit : (e.height : Int) ≤ limit := by omega
  rw [evaluate_eq_valueAt, valueAt, valueAt, visit_moved e v ⟨h, root_within hlimit⟩]

theorem valueAt_of_turn (h : (place.level : Int) + e.height ≤ limit) (numbers : List Nat) (v : Json) :
    valueAt (.plain functions limit) e (place.turn numbers) v = evaluate (.plain functions limit) e v := by
  have hroom : ((place.turn numbers).level : Int) + e.height ≤ limit := h
  exact valueAt_of_room hroom v

/-- The values of an expression at some items, each at its own turn, are those that it has by itself. -/
theorem mapM_valueAt (h : (place.level : Int) + e.height ≤ limit) (xs : List Json) :
    (xs.zipIdx.mapM fun (x, i) => valueAt (.plain functions limit) e (place.turn [i]) x) =
      xs.mapM (evaluate (.plain functions limit) e) := by
  have hturn (p : Json × Nat) : valueAt (.plain functions limit) e (place.turn [p.2]) p.1 =
      evaluate (.plain functions limit) e p.1 := valueAt_of_turn h [p.2] p.1
  rw [← mapM_zipIdx_fst (evaluate (.plain functions limit) e) xs]
  exact congrArg (List.mapM · xs.zipIdx) (funext hturn)

variable (h : e.height + 1 ≤ limit) (xs : List Json)
include h

/-- There is room for an expression as the child of a node that is at the root. -/
theorem room_child (i : Nat) : ((Place.root.child i).level : Int) + e.height ≤ limit := by
  have hlevel : (Place.root.child i).level = 1 := rfl
  omega

theorem not_tooDeep_child (i : Nat) :
    ¬ (Environment.plain functions limit).limit < ((Place.root.child i).level : Int) + 1 := by
  have hpos := e.height_pos
  have hroom := room_child h i
  show ¬ limit < _
  omega

theorem evaluate_mapped (hmap : functions.HasBuiltins ["map"]) :
    evaluate (.plain functions limit) (mapped e) (.array xs) =
    (do return .array (← xs.mapM (evaluate (.plain functions limit) e))) := by
  have hget : Members.get? "map" (Environment.plain functions limit).functions = some Builtin.map :=
    hmap.get?_of_mem_all (List.mem_singleton.2 rfl) (by simp [Builtin.all]) rfl
  rw [evaluate_eq_valueAt, valueAt_mapped hget (not_tooDeep_child h 1), mapM_valueAt (room_child h 0)]

theorem evaluate_afterWildcard :
    evaluate (.plain functions limit) (subexpression (arrayWildcard none) e) (.array xs) =
      (do return .array ((← xs.mapM (evaluate (.plain functions limit) e)).filter fun w => !w.isNull)) := by
  rw [evaluate_eq_valueAt, valueAt_afterWildcard (not_tooDeep_child h 0), mapM_valueAt (room_child h 1)]

theorem evaluate_filter : evaluate (.plain functions limit) (filter none e) (.array xs) =
    (do
      let ws ← xs.mapM (evaluate (.plain functions limit) e)
      return .array (((xs.zip ws).filter fun (x, w) => !x.isNull && w.isTruthy).map Prod.fst)) := by
  have hturn (p : Json × Nat) : valueAt (.plain functions limit) e ((Place.root.child 0).turn [p.2]) p.1 =
      evaluate (.plain functions limit) e p.1 := valueAt_of_turn (room_child h 0) [p.2] p.1
  have hroot : ¬ (Environment.plain functions limit).limit < (Place.root.level : Int) + 1 :=
    Place.not_tooDeep_of_child (not_tooDeep_child h 0)
  have hkept := filterM_zipIdx_fst (evaluate (.plain functions limit) e) Value.isTruthy xs
    fun kept => .ok (Value.array (kept.filter fun x => !x.isNull))
  rw [evaluate_eq_valueAt, valueAt_filter hroot]
  simp only [hturn]
  refine hkept.trans ?_
  simp only [List.filter_map, List.filter_filter, Function.comp_def]
  rfl

end

/-! ### The three ways together -/

/-- What an expression gives at the items of an array, as `map` gives it, as a wildcard before it does, and as a filter
    by it does. -/
structure ItemByItem (functions : FunctionTable Empty) (limit : Int) (e : Expr) (xs : List Json) : Prop where
  /-- `map` gives one value for each item, the one that the expression has there, nulls included. -/
  values : ∀ w, evaluate (.plain functions limit) (mapped e) (.array xs) = .ok w ↔
    ∃ ws, w = .array ws ∧ List.Forall₂ (fun x r => evaluate (.plain functions limit) e x = .ok r) xs ws
  /-- The expression to the right of a wildcard has the same outcome as a wildcard over the result of `map`. -/
  wildcard : e.height + 2 ≤ limit →
    evaluate (.plain functions limit) (subexpression (arrayWildcard none) e) (.array xs) =
      evaluate (.plain functions limit) (arrayWildcard (some (mapped e))) (.array xs)
  /-- A filter gives the items other than nulls for which the result of `map` at the same place is true. -/
  kept : ∀ ws, evaluate (.plain functions limit) (mapped e) (.array xs) = .ok (.array ws) →
    evaluate (.plain functions limit) (filter none e) (.array xs) =
      .ok (.array (((xs.zip ws).filter fun (x, r) => !x.isNull && r.isTruthy).map Prod.fst))
  /-- A filter fails as `map` does. -/
  fails : ∀ failure, evaluate (.plain functions limit) (mapped e) (.array xs) = .error failure ↔
    evaluate (.plain functions limit) (filter none e) (.array xs) = .error failure

/-- `map`, wildcards and filters agree on what an expression gives at the items of an array, whether it fails at some
    of them or not, if there is room for it in each of them. -/
theorem itemByItem {functions : FunctionTable Empty} (hmap : functions.HasBuiltins ["map"]) {limit : Int} {e : Expr}
    (h : e.height + 1 ≤ limit) (xs : List Json) : ItemByItem functions limit e xs where
  values w := by
    rw [evaluate_mapped h xs hmap]
    constructor
    · intro hw
      obtain ⟨ws, hws, hw⟩ := exists_of_bind_eq_ok hw
      cases hw
      exact ⟨ws, rfl, mapM_eq_ok_iff.1 hws⟩
    · rintro ⟨ws, rfl, hws⟩
      rw [mapM_of_forall₂ hws]
      rfl
  wildcard hwildcard := by
    have hroot : ¬ (Environment.plain functions limit).limit < (Place.root.level : Int) + 1 :=
      Place.not_tooDeep_of_child (not_tooDeep_child h 0)
    have hroom : ((Place.root.child 0).level : Int) + (mapped e).height ≤ limit := by
      have hlevel : (Place.root.child 0).level = 1 := rfl
      rw [height_mapped]
      omega
    rw [evaluate_afterWildcard h, evaluate_eq_valueAt, mapped, valueAt_wildcardOf hroot, ← mapped,
      valueAt_of_room hroom, evaluate_mapped h xs hmap]
    simp only [bind_assoc, pure_bind, Value.arrayOrNull, Projected.collapse_array]
  kept ws hws := by
    rw [evaluate_mapped h xs hmap] at hws
    obtain ⟨rs, hrs, hws⟩ := exists_of_bind_eq_ok hws
    cases hws
    rw [evaluate_filter h, hrs]
    rfl
  fails failure := by
    rw [evaluate_mapped h xs hmap, evaluate_filter h]
    cases xs.mapM (evaluate (.plain functions limit) e) with
    | error failure' => exact Iff.rfl
    | ok ws => exact ⟨nofun, nofun⟩

/-- A field that one item lacks: `map` has null there, the wildcard nothing, and the filter drops the item. -/
theorem itemByItem_field :
    let xs : List Json := [.object [("a", .int 0)], .object [], .object [("a", .string "")]]
    evaluate (.plain Builtin.table 3) (mapped (identifier "a")) (.array xs) =
      .ok (.array [.int 0, .null, .string ""]) ∧
    evaluate (.plain Builtin.table 3) (subexpression (arrayWildcard none) (identifier "a")) (.array xs) =
      .ok (.array [.int 0, .string ""]) ∧
    evaluate (.plain Builtin.table 3) (filter none (identifier "a")) (.array xs) =
      .ok (.array [.object [("a", .int 0)]]) := by
  intro xs
  have laws : ItemByItem Builtin.table 3 (identifier "a") xs :=
    itemByItem (FunctionTable.hasBuiltins_plain 3 _) (by decide) xs
  have hmap : evaluate (.plain Builtin.table 3) (mapped (identifier "a")) (.array xs) =
      .ok (.array [.int 0, .null, .string ""]) := rfl
  exact ⟨hmap, (laws.wildcard (by decide)).trans rfl, laws.kept _ hmap⟩

end Expr
end JsonQuery
