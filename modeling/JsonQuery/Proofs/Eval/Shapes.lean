import JsonQuery.Proofs.Eval.Calls
import JsonQuery.Proofs.Function.Outcome

/-! The shape of projections. The expression alone decides how many levels its projection has: whatever it is
    evaluated at, a step that spreads adds one level, a flattening and whatever takes plain values start anew, and a
    point or a pipe goes by its sides. And the value of a projection has these levels: down to the innermost it is
    an array, or null where there was nothing to spread. So whoever goes through a projection level by level finds
    arrays, and what is no array is null; and once it is collapsed no level has a null among its items. -/

namespace JsonQuery

variable {ρ : Type}

/-- What a function gives for the elements of a list has what all its results have. -/
theorem forall_of_mapM_eq_ok {α β ε : Type} {f : α → Except ε β} {Q : β → Prop} (hf : ∀ x y, f x = .ok y → Q y)
    {xs : List α} {ys : List β} (h : xs.mapM f = .ok ys) : ∀ y ∈ ys, Q y := by
  have hall := mapM_eq_ok_iff.1 h
  clear h
  induction hall with
  | nil => exact nofun
  | cons hxy _ ih => exact List.forall_mem_cons.2 ⟨hf _ _ hxy, ih⟩

namespace Projected

/-- A value that has so many levels: null, or an array of values that have one level less; the elements at the
    innermost may be any values. -/
def Nested : Nat → Value ρ → Prop
  | 0, _ => True
  | depth + 1, v => v = .null ∨ ∃ items, v = .array items ∧ ∀ x ∈ items, Nested depth x

/-- A value without nulls for so many levels: it may be null itself, but none of its items is, and so on. -/
def Dense : Nat → Value ρ → Prop
  | 0, _ => True
  | depth + 1, v => v = .null ∨ ∃ items, v = .array items ∧ ∀ x ∈ items, x ≠ .null ∧ Dense depth x

/-- Going through a value of so many levels item by item, as projecting and collapsing do, one comes to a value with
    so many levels left. -/
inductive ComesTo : Nat → Value ρ → Nat → Value ρ → Prop
  | here (depth : Nat) (v : Value ρ) : ComesTo depth v depth v
  | item {depth left : Nat} {items : List (Value ρ)} {x w : Value ρ} : x ∈ items → ComesTo depth x left w →
    ComesTo (depth + 1) (.array items) left w

variable {v w : Value ρ} {depth left : Nat}

theorem nested_array (items : List (Value ρ)) : Nested 1 (.array items) :=
  .inr ⟨items, rfl, fun _ _ => trivial⟩

/-- All that one comes to has its levels. -/
theorem Nested.of_comesTo (h : Nested depth v) (hw : ComesTo depth v left w) : Nested left w := by
  induction hw with
  | here => exact h
  | item hx _ ih =>
    obtain ⟨_, heq, hitems⟩ := h.resolve_left nofun
    cases heq
    exact ih (hitems _ hx)

/-- What is no array where levels are left is null. -/
theorem Nested.null_or_array (h : Nested (depth + 1) v) : v = .null ∨ ∃ items, v = .array items :=
  h.imp_right fun ⟨items, heq, _⟩ => ⟨items, heq⟩

/-- A function at the innermost elements leaves the levels above as they are, whatever the value was. -/
theorem mapInner_nested {ε : Type} {f : List Nat → Value ρ → Except ε (Value ρ)} {more : Nat}
    (hf : ∀ way v w, f way v = .ok w → Nested more w) : ∀ (depth : Nat) (way : List Nat) (v w : Value ρ),
    mapInner f depth way v = .ok w → Nested (more + depth) w := by
  intro depth
  induction depth with
  | zero => exact hf
  | succ depth ih =>
    intro way v w h
    cases v with
    | array items =>
      rw [mapInner] at h
      obtain ⟨ws, hws, h⟩ := exists_of_bind_eq_ok h
      cases h
      exact .inr ⟨ws, rfl, forall_of_mapM_eq_ok (fun _ _ => ih _ _ _) hws⟩
    | _ =>
      cases h
      exact .inl rfl

/-- Collapsing leaves no nulls behind. -/
theorem collapseValue_dense : ∀ (depth : Nat) (v : Value ρ), Dense depth (collapseValue depth v) := by
  intro depth
  induction depth with
  | zero => exact fun _ => trivial
  | succ depth ih =>
    intro v
    cases v with
    | array items =>
      refine .inr ⟨_, rfl, fun x hx => ?_⟩
      obtain ⟨hx, hnull⟩ := List.mem_filter.1 hx
      obtain ⟨y, -, rfl⟩ := List.mem_map.1 hx
      refine ⟨fun h => ?_, ih y⟩
      rw [h] at hnull
      cases hnull
    | _ => exact .inl rfl

end Projected

namespace Value

open Projected (Nested)

variable (v : Value ρ)

theorem nested_sliced (start stop step : Option Int) : Nested 1 (v.sliced start stop step) := by
  cases v with
  | array items => exact Projected.nested_array _
  | _ => exact .inl rfl

theorem nested_objectValues : Nested 1 v.objectValues := by
  cases v with
  | object members => exact Projected.nested_array _
  | _ => exact .inl rfl

theorem nested_arrayOrNull : Nested 1 v.arrayOrNull := by
  cases v with
  | array items => exact Projected.nested_array _
  | _ => exact .inl rfl

theorem nested_flattened : Nested 1 v.flattened := by
  cases v with
  | array items => exact Projected.nested_array _
  | _ => exact .inl rfl

theorem nested_filtered {ε : Type} {test : Nat → Value ρ → Except ε (Value ρ)} {w : Value ρ}
    (h : v.filtered test = .ok w) : Nested 1 w := by
  cases v with
  | array items =>
    obtain ⟨kept, -, h⟩ := exists_of_bind_eq_ok h
    cases h
    exact Projected.nested_array _
  | _ =>
    cases h
    exact .inl rfl

end Value

namespace Expr

open Projected (Nested ComesTo Dense)

mutual

/-- How many levels the projection of an expression has. -/
def levels : Expr → Nat
  | index base _ => levelsBase base
  | slice base _ _ _ | objectWildcard base | arrayWildcard base => levelsBase base + 1
  | filter source _ => levelsBase source + 1
  | flatten _ => 1
  | subexpression left right => if levels left = 0 then levels right else levels left
  | pipe _ right => levels right
  | identifier _ | current | literal _ | rawString _ => 0
  | or .. | and .. | not _ | comparison .. => 0
  | multiselectList _ | multiselectHash _ | call .. | reference _ | extension _ => 0

/-- How many levels the projection of a child that may be absent has. -/
def levelsBase : Option Expr → Nat
  | none => 0
  | some e => levels e

end

example : (index (some (filter (some (arrayWildcard none)) current)) 0).levels = 2 := by decide

/-- A projection with the levels that are expected. -/
def HasLevels (n : Nat) (p : Projected ρ) : Prop := p.depth = n ∧ Nested n p.value

namespace HasLevels

variable {n : Nat} {p q : Projected ρ} {f : List Nat → Value ρ → Except EvalError (Value ρ)}

theorem plain (v : Value ρ) : HasLevels 0 (.plain v) := ⟨rfl, trivial⟩

theorem apply (hp : HasLevels n p) (h : p.apply f = .ok q) : HasLevels n q := by
  obtain ⟨rfl, -⟩ := hp
  obtain ⟨w, hw, h⟩ := exists_of_bind_eq_ok h
  cases h
  refine ⟨rfl, ?_⟩
  have hplain : ∀ way v w, f way v = .ok w → Nested 0 w := fun _ _ _ _ => trivial
  have hnested := Projected.mapInner_nested hplain p.depth [] p.value w hw
  rwa [Nat.zero_add] at hnested

/-- What makes an array or null of every element makes one level more. -/
theorem expand (hp : HasLevels n p) (hf : ∀ way v w, f way v = .ok w → Nested 1 w) (h : p.expand f = .ok q) :
    HasLevels (n + 1) q := by
  obtain ⟨rfl, -⟩ := hp
  obtain ⟨w, hw, h⟩ := exists_of_bind_eq_ok h
  cases h
  refine ⟨rfl, ?_⟩
  have hnested := Projected.mapInner_nested hf p.depth [] p.value w hw
  rwa [Nat.add_comm] at hnested

end HasLevels

mutual

/-- The levels of a projection are those of its expression. -/
theorem visit_hasLevels [BEq ρ] (m : Machine ρ) : ∀ (e : Expr) (place : Place) (v : Value ρ)
    (p : Projected ρ), visit m e place v = .ok p → HasLevels e.levels p
  | e, place, v, p, h => by
    rw [visit.eq_def] at h
    replace h := of_enter_eq_ok h
    -- the rest of a chain goes on from the levels of its base; whatever takes plain values gives a plain one
    cases e with
    | identifier name => cases h; exact .plain _
    | current => cases h; exact .plain _
    | literal w => cases h; exact .plain _
    | rawString text => cases h; exact .plain _
    | index base i =>
      obtain ⟨b, hb, h⟩ := exists_of_bind_eq_ok h
      exact (visitBase_hasLevels m base _ v b hb).apply h
    | slice base start stop step =>
      dsimp only at h
      split at h
      next => cases h
      obtain ⟨b, hb, h⟩ := exists_of_bind_eq_ok h
      refine (visitBase_hasLevels m base _ v b hb).expand (fun _ u _ hu => ?_) h
      cases hu
      exact u.nested_sliced start stop step
    | flatten base =>
      obtain ⟨b, -, h⟩ := exists_of_bind_eq_ok h
      cases h
      exact ⟨rfl, Value.nested_flattened _⟩
    | subexpression left right =>
      obtain ⟨b, hb, h⟩ := exists_of_bind_eq_ok h
      have hleft := visit_hasLevels m left _ v b hb
      rw [levels, ← hleft.1]
      split at h
      next hplain =>
        rw [if_pos hplain]
        exact visit_hasLevels m right _ b.value p h
      next hspread =>
        rw [if_neg hspread, hleft.1]
        exact hleft.apply h
    | objectWildcard base =>
      obtain ⟨b, hb, h⟩ := exists_of_bind_eq_ok h
      refine (visitBase_hasLevels m base _ v b hb).expand (fun _ u _ hu => ?_) h
      cases hu
      exact u.nested_objectValues
    | arrayWildcard base =>
      obtain ⟨b, hb, h⟩ := exists_of_bind_eq_ok h
      refine (visitBase_hasLevels m base _ v b hb).expand (fun _ u _ hu => ?_) h
      cases hu
      exact u.nested_arrayOrNull
    | filter source predicate =>
      obtain ⟨b, hb, h⟩ := exists_of_bind_eq_ok h
      exact (visitBase_hasLevels m source _ v b hb).expand (fun _ u _ hu => u.nested_filtered hu) h
    | pipe left right =>
      obtain ⟨b, -, h⟩ := exists_of_bind_eq_ok h
      exact visit_hasLevels m right _ _ p h
    | or left right =>
      obtain ⟨b, -, h⟩ := exists_of_bind_eq_ok h
      dsimp only at h
      split at h
      next =>
        cases h
        exact .plain _
      next =>
        obtain ⟨c, -, h⟩ := exists_of_bind_eq_ok h
        cases h
        exact .plain _
    | and left right =>
      obtain ⟨b, -, h⟩ := exists_of_bind_eq_ok h
      dsimp only at h
      split at h
      next =>
        obtain ⟨c, -, h⟩ := exists_of_bind_eq_ok h
        cases h
        exact .plain _
      next =>
        cases h
        exact .plain _
    | not operand =>
      obtain ⟨b, -, h⟩ := exists_of_bind_eq_ok h
      cases h
      exact .plain _
    | comparison op left right =>
      obtain ⟨a, -, h⟩ := exists_of_bind_eq_ok h
      obtain ⟨b, -, h⟩ := exists_of_bind_eq_ok h
      cases h
      exact .plain _
    | multiselectList items =>
      dsimp only at h
      split at h
      next =>
        cases h
        exact .plain _
      next =>
        obtain ⟨ws, -, h⟩ := exists_of_bind_eq_ok h
        cases h
        exact .plain _
    | multiselectHash pairs =>
      dsimp only at h
      split at h
      next =>
        cases h
        exact .plain _
      next =>
        obtain ⟨ws, -, h⟩ := exists_of_bind_eq_ok h
        cases h
        exact .plain _
    | call function args =>
      dsimp only at h
      split at h
      next => cases h
      next =>
        obtain ⟨xs, -, h⟩ := exists_of_bind_eq_ok h
        obtain ⟨w, -, h⟩ := exists_of_bind_eq_ok h
        cases h
        exact .plain _
    | reference e => cases h
    | extension kind => cases h

theorem visitBase_hasLevels [BEq ρ] (m : Machine ρ) : ∀ (base : Option Expr) (place : Place) (v : Value ρ)
    (p : Projected ρ), visitBase m base place v = .ok p → HasLevels (levelsBase base) p
  | none, _, v, p, h => by
    cases h
    exact .plain v
  | some e, place, v, p, h => visit_hasLevels m e place v p h

end

/-- A visit that succeeds gives a projection of as many levels as the expression has, whatever it is at. Its value has
    these levels, so that whoever goes through it, to project or to collapse, comes to arrays or null as long as levels
    are left; and the plain value has no null among its items down to the last level. -/
theorem visit_levels [BEq ρ] {m : Machine ρ} {e : Expr} {place : Place} {v : Value ρ} {p : Projected ρ}
    (h : visit m e place v = .ok p) :
    p.depth = e.levels ∧ Nested p.depth p.value ∧
      (∀ left w, ComesTo p.depth p.value (left + 1) w → w = .null ∨ ∃ items, w = .array items) ∧
      Dense p.depth p.collapse := by
  obtain ⟨hdepth, hnested⟩ := visit_hasLevels m e place v p h
  rw [← hdepth] at hnested
  refine ⟨hdepth, hnested, fun left w hw => (hnested.of_comesTo hw).null_or_array, ?_⟩
  exact Projected.collapseValue_dense p.depth p.value

/-- Two wildcards with a slice between them give three levels, of which an item that is no array lacks the last. -/
theorem visit_levels_wildcards :
    let e := arrayWildcard (some (slice (some (arrayWildcard none)) (some 0) none none))
    let p : Projected Empty := ⟨.array [.array [.array [.int 1, .null], .null], .null, .array []], 3⟩
    visit (.plain Builtin.table 3) e .root (.array [.array [.array [.int 1, .null], .int 2], .null, .array []]) =
      .ok p ∧
    (p.depth = e.levels ∧ Nested p.depth p.value ∧
      (∀ left w, ComesTo p.depth p.value (left + 1) w → w = .null ∨ ∃ items, w = .array items) ∧
      Dense p.depth p.collapse) ∧
    p.collapse = .array [.array [.array [.int 1]], .array []] := by
  intro e p
  have h : visit (.plain Builtin.table 3) e .root
      (.array [.array [.array [.int 1, .null], .int 2], .null, .array []]) = .ok p := rfl
  exact ⟨h, visit_levels h, rfl⟩

end JsonQuery.Expr
