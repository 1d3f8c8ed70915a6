import JsonQuery.Proofs.Eval.Calls
import JsonQuery.Proofs.Function.Sorting

/-! Sorting and extrema in queries. Where the keys of the items can be evaluated, an array is sorted by them if they are
    all numbers or all strings, and otherwise refused; ordering the items themselves is ordering them by the current
    value. The first item with the least key is the first of the sorted items, and the first with the greatest key is
    the last of the items sorted backwards; so the functions that look for them refuse the same arrays. All this holds
    wherever the functions are called, under tables that have other functions besides. -/

namespace JsonQuery

variable {ρ : Type}

/-- An outcome that is a failure of type. -/
def TypeMismatch (x : Except EvalError (Value ρ)) : Prop :=
  ∃ failure, x = .error failure ∧ failure.kind? = some .typeMismatch

theorem not_typeMismatch_ok (v : Value ρ) : ¬ TypeMismatch (.ok v) := by
  rintro ⟨failure, h, -⟩
  cases h

namespace Keyed

variable {xs : Keyed ρ} {items : List (Value ρ)}

/-- Extrema against sorting: the least is the first of the sorted elements, the greatest is the last of the elements
    sorted backwards, both null if there are no elements, and both are the first of the elements with such a key. -/
def ExtremesOf (xs : Keyed ρ) (sorted backwards least greatest : Except EvalError (Value ρ)) : Prop :=
  ∃ ys zs : List (Value ρ), sorted = .ok (.array ys) ∧ backwards = .ok (.array zs) ∧
    least = .ok (ys.head?.getD .null) ∧ greatest = .ok (zs.getLast?.getD .null) ∧
    (ys = [] ↔ xs = []) ∧ (zs = [] ↔ xs = []) ∧
    (∀ x, ys.head? = some x → IsFirst Value.Below xs x) ∧
    (∀ x, zs.getLast? = some x → IsFirst (fun k k' => k'.Below k) xs x)

theorem extremesOf (h : Value.Ordered (xs.map Prod.fst)) :
    ExtremesOf xs (.ok (.array xs.sorted)) (.ok (.array (sorted xs.reverse))) (.ok (xs.least?.getD .null))
      (.ok (xs.greatest?.getD .null)) := by
  have hback : Value.Ordered (xs.reverse.map Prod.fst) := by
    rw [List.map_reverse]
    exact h.reverse
  have hys := sorted_stable h
  have hzs := sorted_stable hback
  refine ⟨xs.sorted, sorted xs.reverse, rfl, rfl, ?_, ?_, hys.eq_nil, ?_, fun x hx => hys.head_isFirst hx,
    fun x hx => hzs.last_isFirst hx⟩
  · rw [least?_eq_head? h hys]
  · rw [greatest?_eq_getLast? h hzs]
  · rw [hzs.eq_nil, List.reverse_eq_nil_iff]

theorem typeMismatch_checkKeys (name : String) (keys : List (Value ρ)) (r : Value ρ) :
    TypeMismatch ((checkKeys name keys).map fun _ => r) ↔ ¬ OneKind keys := by
  constructor
  · intro hfail h
    rw [checkKeys_of_oneKind name h] at hfail
    exact not_typeMismatch_ok r hfail
  · intro h
    obtain ⟨wanted, received, hcheck⟩ := checkKeys_of_not_oneKind name h
    exact ⟨_, by rw [hcheck]; rfl, rfl⟩

theorem ordered_accepts :
    (Builtin.ordered.any fun p => p.accepts (.value (.array items))) = true ↔ OneKind items := by
  simp [Builtin.ordered, ParamType.accepts, Value.isArrayOf, OneKind]

theorem zip_self (items : List (Value ρ)) : items.zip items = ofItems items := by
  rw [ofItems, List.zip_eq_zipWith, List.zipWith_self]

end Keyed

namespace Expr

open Keyed

variable [BEq ρ] {env : Environment ρ} {place : Place} {name : String} {source e : Expr} {v : Value ρ}
  {items keys : List (Value ρ)}

/-! ### Functions of arrays -/

section
variable {compute : List (Value ρ) → Value ρ}
  (hf : Members.get? name env.functions = some (Builtin.ofOrdered name compute))
  (hsource : valueAt env source (place.child 0) v = .ok (.array items))
include hf hsource

theorem valueAt_ordered : valueAt env (call name [source]) place v =
    if Builtin.ordered.any fun p => p.accepts (.value (.array items)) then .ok (compute items)
    else .error (.wrongArgument name 1 Builtin.ordered .array) := by
  rw [valueAt_call_value hf hsource (Value.array_ne_reference items), Builtin.ofOrdered, Builtin.invoke_unary]
  rfl

/-- A function of an array of numbers or of strings computes from items of one kind. -/
theorem valueAt_ordered_of_oneKind (h : OneKind items) :
    valueAt env (call name [source]) place v = .ok (compute items) := by
  rw [valueAt_ordered hf hsource, if_pos (ordered_accepts.2 h)]

/-- It refuses all others. -/
theorem typeMismatch_ordered : TypeMismatch (valueAt env (call name [source]) place v) ↔ ¬ OneKind items := by
  constructor
  · intro hfail h
    rw [valueAt_ordered_of_oneKind hf hsource h] at hfail
    exact not_typeMismatch_ok _ hfail
  · intro h
    rw [valueAt_ordered hf hsource, if_neg (mt ordered_accepts.1 h)]
    exact ⟨_, rfl, rfl⟩

end

/-- A function of an array and of keys that can be evaluated refuses those that are not of one kind. -/
theorem typeMismatch_keyed {compute : Keyed ρ → Value ρ}
    (hf : Members.get? name env.functions = some (Builtin.keyed name compute))
    (hsource : valueAt env source (place.child 0) v = .ok (.array items))
    (hkeys : KeysAt env e (place.child 1) items keys) :
    TypeMismatch (valueAt env (call name [source, reference e]) place v) ↔ ¬ OneKind keys := by
  rw [valueAt_keyed hf hsource hkeys]
  exact typeMismatch_checkKeys _ _ _

theorem valueAt_keyed_of_oneKind {compute : Keyed ρ → Value ρ}
    (hf : Members.get? name env.functions = some (Builtin.keyed name compute))
    (hsource : valueAt env source (place.child 0) v = .ok (.array items))
    (hkeys : KeysAt env e (place.child 1) items keys) (h : OneKind keys) :
    valueAt env (call name [source, reference e]) place v = .ok (compute (keys.zip items)) := by
  rw [valueAt_keyed hf hsource hkeys, checkKeys_of_oneKind _ h]
  rfl

theorem valueAt_reverse (hfunctions : env.functions.HasBuiltins ["reverse"])
    (hsource : valueAt env source (place.child 0) v = .ok (.array items)) :
    valueAt env (call "reverse" [source]) place v = .ok (.array items.reverse) := by
  have hreverse : Members.get? "reverse" env.functions = some (Builtin.unary "reverse"
      [.ofKind .array, .ofKind .string] fun v => .ok (Builtin.reverse v)) :=
    hfunctions.get?_of_mem_all (by decide) (by simp only [Builtin.all, List.mem_cons, true_or, or_true]) rfl
  exact valueAt_call_value hreverse hsource (Value.array_ne_reference items)

/-! ### The order of the result -/

/-- Ordering by keys that can be evaluated: if they are numbers, none of them a NaN, or strings the items come in the
    order of their keys, and items with equal keys in the order in which they came; unless the keys are all numbers or
    all strings the outcome is a failure of type. Ordering the items themselves, if they can be ordered, is ordering
    them by the current value. -/
theorem valueAt_sort_by (hfunctions : env.functions.HasBuiltins ["sort", "sort_by"])
    (hsource : valueAt env source (place.child 0) v = .ok (.array items))
    (hkeys : KeysAt env e (place.child 1) items keys) :
    (Value.Ordered keys → ∃ ys, valueAt env (call "sort_by" [source, reference e]) place v = .ok (.array ys) ∧
      ys.Perm items ∧ StablySorted (keys.zip items) ys) ∧
    (TypeMismatch (valueAt env (call "sort_by" [source, reference e]) place v) ↔ ¬ OneKind keys) ∧
    ((∃ r, valueAt env (call "sort" [source]) place v = .ok r) ↔ OneKind items) ∧
    (OneKind items → valueAt env (call "sort" [source]) place v =
      valueAt env (call "sort_by" [source, reference current]) place v) := by
  have hsort : Members.get? "sort" env.functions =
      some (Builtin.ofOrdered "sort" fun items => .array (sorted (ofItems items))) :=
    hfunctions.get?_of_mem_all (by decide) (by simp only [Builtin.all, List.mem_cons, true_or, or_true]) rfl
  have hsortBy : Members.get? "sort_by" env.functions =
      some (Builtin.keyed "sort_by" fun xs => .array xs.sorted) :=
    hfunctions.get?_of_mem_all (by decide) (by simp only [Builtin.all, List.mem_cons, true_or, or_true]) rfl
  refine ⟨fun h => ?_, typeMismatch_keyed hsortBy hsource hkeys, ⟨?_, fun h => ?_⟩, fun h => ?_⟩
  · have hfst : (keys.zip items).map Prod.fst = keys := List.map_fst_zip hkeys.length_eq.le
    have hsnd : (keys.zip items).map Prod.snd = items := List.map_snd_zip hkeys.length_eq.ge
    have hsorted : StablySorted (keys.zip items) (sorted (keys.zip items)) := sorted_stable (hfst.symm ▸ h)
    refine ⟨_, valueAt_keyed_of_oneKind hsortBy hsource hkeys h.oneKind, ?_, hsorted⟩
    exact hsorted.perm.trans (.of_eq hsnd)
  · rintro ⟨r, hr⟩
    by_contra h
    exact not_typeMismatch_ok r (hr ▸ (typeMismatch_ordered hsort hsource).2 h)
  · exact ⟨_, valueAt_ordered_of_oneKind hsort hsource h⟩
  · have hplace : ¬ env.limit < (place.child 0).level + 1 := not_tooDeep_of_valueAt hsource
    have hself : KeysAt env current (place.child 1) items items := keysAt_current hplace items
    rw [valueAt_ordered_of_oneKind hsort hsource h, valueAt_keyed_of_oneKind hsortBy hsource hself h, zip_self]

/-- Three items with their keys in front, two of them a double and an integer of the same value. -/
def mixedItems : List Json :=
  [.array [.int 1, .string "a"], .array [.number (.double (Double.zero false)), .string "b"],
    .array [.int 0, .string "c"]]

/-- The keys of these items. -/
def mixedKeys : List Json := [.int 1, .number (.double (Double.zero false)), .int 0]

theorem mixedKeys_ordered : Value.Ordered mixedKeys := by
  refine .inl ?_
  simp only [mixedKeys, List.forall_mem_cons, List.not_mem_nil, false_implies, implies_true, and_true]
  exact ⟨⟨_, rfl, nofun⟩, ⟨_, rfl, nofun⟩, ⟨_, rfl, nofun⟩⟩

theorem evaluate_mixedKeys :
    List.Forall₂ (fun x k => evaluate (.plain Builtin.table 2) (index none 0) x = .ok k) mixedItems mixedKeys :=
  .cons rfl (.cons rfl (.cons rfl .nil))

theorem keysAt_mixed : KeysAt (.plain Builtin.table 3) (index none 0) (Place.root.child 1) mixedItems mixedKeys :=
  keysAt_of_evaluate ofBuiltins_table (by decide) evaluate_mixedKeys

theorem valueAt_mixedItems (place : Place) (h : ¬ (3 : Int) < place.level + 1) :
    valueAt (.plain Builtin.table 3) current place (.array mixedItems) = .ok (.array mixedItems) := valueAt_current h _

/-- The double and the integer of the same value stay in the order in which they came. -/
theorem valueAt_sort_by_mixed : ∃ ys,
    evaluate (.plain Builtin.table 3) (call "sort_by" [current, reference (index none 0)]) (.array mixedItems) =
      .ok (.array ys) ∧ ys.Perm mixedItems ∧ StablySorted (mixedKeys.zip mixedItems) ys := by
  have hsource := valueAt_mixedItems (Place.root.child 0) (by decide)
  rw [evaluate_eq_valueAt]
  exact (valueAt_sort_by (FunctionTable.hasBuiltins_plain 3 _) hsource keysAt_mixed).1 mixedKeys_ordered

/-! ### Extrema -/

/-- Extrema by keys against sorting by them, if the items have the same keys when they come backwards. -/
theorem extremesOf_keyed (hfunctions : env.functions.HasBuiltins ["sort_by", "min_by", "max_by", "reverse"])
    (hsource : valueAt env source (place.child 0) v = .ok (.array items))
    (hinner : valueAt env source ((place.child 0).child 0) v = .ok (.array items))
    (hkeys : KeysAt env e (place.child 1) items keys)
    (hback : KeysAt env e (place.child 1) items.reverse keys.reverse) (h : Value.Ordered keys) :
    ExtremesOf (keys.zip items)
      (valueAt env (call "sort_by" [source, reference e]) place v)
      (valueAt env (call "sort_by" [call "reverse" [source], reference e]) place v)
      (valueAt env (call "min_by" [source, reference e]) place v)
      (valueAt env (call "max_by" [source, reference e]) place v) := by
  have hsortBy : Members.get? "sort_by" env.functions =
      some (Builtin.keyed "sort_by" fun xs => .array xs.sorted) :=
    hfunctions.get?_of_mem_all (by decide) (by simp only [Builtin.all, List.mem_cons, true_or, or_true]) rfl
  have hminBy : Members.get? "min_by" env.functions =
      some (Builtin.keyed "min_by" fun xs => xs.least?.getD .null) :=
    hfunctions.get?_of_mem_all (by decide) (by simp only [Builtin.all, List.mem_cons, true_or, or_true]) rfl
  have hmaxBy : Members.get? "max_by" env.functions =
      some (Builtin.keyed "max_by" fun xs => xs.greatest?.getD .null) :=
    hfunctions.get?_of_mem_all (by decide) (by simp only [Builtin.all, List.mem_cons, true_or, or_true]) rfl
  have hreverse := valueAt_reverse (hfunctions.mono (by simp)) hinner
  have hfst : (keys.zip items).map Prod.fst = keys := List.map_fst_zip hkeys.length_eq.le
  have hzip : keys.reverse.zip items.reverse = (keys.zip items).reverse := (List.reverse_zipWith hkeys.length_eq).symm
  rw [valueAt_keyed_of_oneKind hsortBy hsource hkeys h.oneKind, valueAt_keyed_of_oneKind hminBy hsource hkeys h.oneKind,
    valueAt_keyed_of_oneKind hmaxBy hsource hkeys h.oneKind,
    valueAt_keyed_of_oneKind hsortBy hreverse hback h.reverse.oneKind, hzip]
  exact extremesOf (hfst.symm ▸ h)

/-- Where functions hand nothing on, the items have the same keys when they come backwards. -/
theorem extremesOf_keyed_plain {functions : FunctionTable Empty} {limit : Int} {items keys : List Json} {v : Json}
    (hfunctions : functions.HasBuiltins ["sort_by", "min_by", "max_by", "reverse"])
    (hsource : valueAt (.plain functions limit) source (place.child 0) v = .ok (.array items))
    (hinner : valueAt (.plain functions limit) source ((place.child 0).child 0) v = .ok (.array items))
    (hkeys : KeysAt (.plain functions limit) e (place.child 1) items keys)
    (hnan : ∀ k ∈ keys, k ≠ .number (.double .nan)) (h : OneKind keys) :
    ExtremesOf (keys.zip items)
      (valueAt (.plain functions limit) (call "sort_by" [source, reference e]) place v)
      (valueAt (.plain functions limit) (call "sort_by" [call "reverse" [source], reference e]) place v)
      (valueAt (.plain functions limit) (call "min_by" [source, reference e]) place v)
      (valueAt (.plain functions limit) (call "max_by" [source, reference e]) place v) :=
  extremesOf_keyed hfunctions hsource hinner hkeys hkeys.reverse (h.ordered hnan)

/-- Extrema of numbers or of strings against sorting them. -/
theorem extremesOf_ordered (hfunctions : env.functions.HasBuiltins ["sort", "min", "max", "reverse"])
    (hsource : valueAt env source (place.child 0) v = .ok (.array items))
    (hinner : valueAt env source ((place.child 0).child 0) v = .ok (.array items)) (h : Value.Ordered items) :
    ExtremesOf (ofItems items)
      (valueAt env (call "sort" [source]) place v)
      (valueAt env (call "sort" [call "reverse" [source]]) place v)
      (valueAt env (call "min" [source]) place v)
      (valueAt env (call "max" [source]) place v) := by
  have hsort : Members.get? "sort" env.functions =
      some (Builtin.ofOrdered "sort" fun items => .array (sorted (ofItems items))) :=
    hfunctions.get?_of_mem_all (by decide) (by simp only [Builtin.all, List.mem_cons, true_or, or_true]) rfl
  have hmin : Members.get? "min" env.functions =
      some (Builtin.ofOrdered "min" fun items => (least? (ofItems items)).getD .null) :=
    hfunctions.get?_of_mem_all (by decide) (by simp only [Builtin.all, List.mem_cons, true_or, or_true]) rfl
  have hmax : Members.get? "max" env.functions =
      some (Builtin.ofOrdered "max" fun items => (greatest? (ofItems items)).getD .null) :=
    hfunctions.get?_of_mem_all (by decide) (by simp only [Builtin.all, List.mem_cons, true_or, or_true]) rfl
  have hreverse := valueAt_reverse (hfunctions.mono (by simp)) hinner
  have hfst : (ofItems items).map Prod.fst = items := by rw [ofItems, List.map_map]; exact List.map_id _
  have hreversed : ofItems items.reverse = (ofItems items).reverse := List.map_reverse
  rw [valueAt_ordered_of_oneKind hsort hsource h.oneKind, valueAt_ordered_of_oneKind hmin hsource h.oneKind,
    valueAt_ordered_of_oneKind hmax hsource h.oneKind, valueAt_ordered_of_oneKind hsort hreverse h.reverse.oneKind,
    hreversed]
  exact extremesOf (hfst.symm ▸ h)

theorem exists_keyed_mem_all : ∀ f ∈ ["sort_by", "min_by", "max_by"],
    ∃ compute, Builtin.keyed f compute ∈ (Builtin.all : List (Function ρ)) := by
  simp only [List.forall_mem_cons, List.not_mem_nil, false_implies, implies_true, and_true]
  refine ⟨⟨fun xs => .array xs.sorted, ?_⟩, ⟨fun xs => xs.least?.getD .null, ?_⟩,
    ⟨fun xs => xs.greatest?.getD .null, ?_⟩⟩ <;> simp only [Builtin.all, List.mem_cons, true_or, or_true]

theorem exists_ordered_mem_all : ∀ f ∈ ["sort", "min", "max"],
    ∃ compute, Builtin.ofOrdered f compute ∈ (Builtin.all : List (Function ρ)) := by
  simp only [List.forall_mem_cons, List.not_mem_nil, false_implies, implies_true, and_true]
  refine ⟨⟨fun items => .array (sorted (ofItems items)), ?_⟩, ⟨fun items => (least? (ofItems items)).getD .null, ?_⟩,
    ⟨fun items => (greatest? (ofItems items)).getD .null, ?_⟩⟩ <;>
      simp only [Builtin.all, List.mem_cons, true_or, or_true]

/-- Extrema by keys that can be evaluated, none of them a NaN, against sorting by them: the first of the sorted items
    and the last of the items sorted backwards, or null, if the items have the same keys when they come backwards, as
    they do where functions hand nothing on; and the same arrays are refused. Extrema of numbers or of strings are
    these against sorting in the same way. -/
theorem valueAt_extrema
    (hfunctions : env.functions.HasBuiltins ["sort", "sort_by", "min", "min_by", "max", "max_by", "reverse"])
    (hsource : valueAt env source (place.child 0) v = .ok (.array items))
    (hkeys : KeysAt env e (place.child 1) items keys) (hnan : ∀ k ∈ keys, k ≠ .number (.double .nan)) :
    (valueAt env source ((place.child 0).child 0) v = .ok (.array items) →
      (OneKind keys → KeysAt env e (place.child 1) items.reverse keys.reverse → ExtremesOf (keys.zip items)
        (valueAt env (call "sort_by" [source, reference e]) place v)
        (valueAt env (call "sort_by" [call "reverse" [source], reference e]) place v)
        (valueAt env (call "min_by" [source, reference e]) place v)
        (valueAt env (call "max_by" [source, reference e]) place v)) ∧
      (Value.Ordered items → ExtremesOf (ofItems items)
        (valueAt env (call "sort" [source]) place v)
        (valueAt env (call "sort" [call "reverse" [source]]) place v)
        (valueAt env (call "min" [source]) place v)
        (valueAt env (call "max" [source]) place v))) ∧
    (∀ f ∈ ["sort_by", "min_by", "max_by"],
      (TypeMismatch (valueAt env (call f [source, reference e]) place v) ↔ ¬ OneKind keys)) ∧
    (∀ f ∈ ["sort", "min", "max"], (TypeMismatch (valueAt env (call f [source]) place v) ↔ ¬ OneKind items)) := by
  refine ⟨fun hinner => ⟨fun h hback => ?_, fun h => ?_⟩, fun f hf => ?_, fun f hf => ?_⟩
  · exact extremesOf_keyed (hfunctions.mono (by simp)) hsource hinner hkeys hback (h.ordered hnan)
  · exact extremesOf_ordered (hfunctions.mono (by simp)) hsource hinner h
  · have hnames : ["sort_by", "min_by", "max_by"] ⊆
        ["sort", "sort_by", "min", "min_by", "max", "max_by", "reverse"] := by simp
    obtain ⟨compute, hmem⟩ := exists_keyed_mem_all (ρ := ρ) f hf
    exact typeMismatch_keyed (hfunctions.get?_of_mem_all (hnames hf) hmem rfl) hsource hkeys
  · have hnames : ["sort", "min", "max"] ⊆ ["sort", "sort_by", "min", "min_by", "max", "max_by", "reverse"] := by simp
    obtain ⟨compute, hmem⟩ := exists_ordered_mem_all (ρ := ρ) f hf
    exact typeMismatch_ordered (hfunctions.get?_of_mem_all (hnames hf) hmem rfl) hsource

/-- Of the two items with the least key the first is found, also where one key is a double and the other an integer. -/
theorem valueAt_extrema_mixed : ExtremesOf (mixedKeys.zip mixedItems)
    (evaluate (.plain Builtin.table 3) (call "sort_by" [current, reference (index none 0)]) (.array mixedItems))
    (evaluate (.plain Builtin.table 3) (call "sort_by" [call "reverse" [current], reference (index none 0)])
      (.array mixedItems))
    (evaluate (.plain Builtin.table 3) (call "min_by" [current, reference (index none 0)]) (.array mixedItems))
    (evaluate (.plain Builtin.table 3) (call "max_by" [current, reference (index none 0)]) (.array mixedItems)) := by
  have hnan : ∀ k ∈ mixedKeys, k ≠ .number (.double .nan) := by
    simp only [mixedKeys, List.forall_mem_cons, List.not_mem_nil, false_implies, implies_true, and_true]
    exact ⟨nofun, nofun, nofun⟩
  have hsource := valueAt_mixedItems (Place.root.child 0) (by decide)
  have hinner := valueAt_mixedItems ((Place.root.child 0).child 0) (by decide)
  simp only [evaluate_eq_valueAt]
  exact ((valueAt_extrema (FunctionTable.hasBuiltins_plain 3 _) hsource keysAt_mixed hnan).1 hinner).1
    mixedKeys_ordered.oneKind keysAt_mixed.reverse

end Expr
end JsonQuery
