import JsonQuery.Proofs.Function.Alike
import JsonQuery.Proofs.Json.Members

/-! The failures of the builtin functions. Besides wrong arguments a builtin fails of its own accord in three ways
    only: the four that add or round numbers with an overflow, the one that writes values for an integer that is too
    long, and those that order by keys for a key of the wrong kind. Otherwise it fails as the expressions among its
    arguments do. So every relation between failures to which its own failures belong is respected, whatever else may
    cut an evaluation off. -/

namespace JsonQuery.Builtin

variable {ρ : Type} {cut : EvalError → Prop} {R : EvalError → EvalError → Prop}

/-- The functions that meet integers too large for a double. -/
def overflowing : List String := ["avg", "ceil", "floor", "sum"]

/-- The failures that a function of some name has of its own. -/
def Raises (name : String) : EvalError → Prop
  | .wrongCount f .. | .wrongArgument f .. | .wrongKey f .. => f = name
  | .overflow _ => name ∈ overflowing
  | .overlong => name = "to_string"
  | _ => False

/-- The failures of a call by some name that are not those of its arguments. -/
def Blames (name : String) : EvalError → Prop
  | .unknownFunction f | .wrongCount f .. | .wrongArgument f .. | .wrongKey f .. => f = name
  | .overflow _ => name ∈ overflowing
  | .overlong => name = "to_string"
  | _ => False

theorem Raises.blames {name : String} {e : EvalError} (h : Raises name e) : Blames name e := by
  cases e <;> first | exact h | exact h.elim

/-! ### Failures of the computations -/

section
variable {name : String} (h : name ∈ overflowing)
include h

theorem sum_raises (xs : List Number) : FailsOnly (Raises name) (sum xs) := by
  unfold sum
  split
  next => exact trivial
  next => exact h

theorem avg_raises (xs : List Number) : FailsOnly (Raises name) (avg xs : Except EvalError (Value ρ)) := by
  -- the quotient stays a variable, since a check that unfolds it computes with the units of a double
  obtain ⟨quotient, hquotient⟩ : ∃ quotient, quotient = Double.ofQuotient? := ⟨_, rfl⟩
  unfold avg
  rw [← hquotient]
  split
  next => exact trivial
  next =>
    refine (sum_raises h xs).bind fun n _ => ?_
    split
    next =>
      split
      next => exact trivial
      next => exact h
    next => exact trivial

theorem whole_raises (toInt? : Double → Option Int) (n : Number) :
    FailsOnly (Raises name) (whole toInt? n) := by
  unfold whole
  split
  next =>
    split
    next => exact trivial
    next => exact h
  next =>
    split
    next => exact trivial
    next => exact trivial

end

theorem toString_raises (v : Value ρ) : FailsOnly (Raises "to_string") (toString v) := by
  unfold toString
  split
  next => exact trivial
  next =>
    split
    next => exact trivial
    next => exact rfl

theorem checkKeys_raises (function : String) (keys : List (Value ρ)) :
    FailsOnly (Raises function) (Keyed.checkKeys function keys) := by
  unfold Keyed.checkKeys
  split
  next => exact trivial
  next =>
    split
    next => exact trivial
    next => exact rfl

/-! ### Functions of values -/

theorem onValues_eq (compute : List (Value ρ) → Except EvalError (Value ρ)) {args args' : List (Argument ρ)}
    (h : List.Forall₂ (Argument.Follows cut R) args args') : onValues compute args = onValues compute args' := by
  refine congrArg compute ?_
  induction h with
  | nil => rfl
  | cons ha _ ih =>
    cases ha with
    | value v => exact congrArg (v :: ·) ih
    | expression _ => exact ih

section
variable {name : String} (hR : ∀ e, Raises name e → R e e)
include hR

theorem self_of_raises {α : Type} {x : Except EvalError α} (h : FailsOnly (Raises name) x) : Follows cut R x x :=
  .self (h.mono (fun _ _ => trivial) hR)

theorem onValues_respects {params : List (List ParamType)} {variadic : Bool}
    {compute : List (Value ρ) → Except EvalError (Value ρ)} (h : ∀ vs, FailsOnly (Raises name) (compute vs)) :
    (⟨name, params, variadic, onValues compute⟩ : Function ρ).Respects cut R := by
  intro args args' hargs
  show Follows cut R (onValues compute args) (onValues compute args')
  rw [onValues_eq compute hargs]
  exact self_of_raises hR (h _)

theorem unary_respects {param : List ParamType} {compute : Value ρ → Except EvalError (Value ρ)}
    (h : ∀ v, FailsOnly (Raises name) (compute v)) : (unary name param compute).Respects cut R := by
  refine onValues_respects hR fun vs => ?_
  split
  next v => exact h v
  next => exact trivial

theorem binary_respects {first second : List ParamType}
    {compute : Value ρ → Value ρ → Except EvalError (Value ρ)}
    (h : ∀ v w, FailsOnly (Raises name) (compute v w)) :
    (binary name first second compute).Respects cut R := by
  refine onValues_respects hR fun vs => ?_
  split
  next v w => exact h v w
  next => exact trivial

theorem variadic_respects {param : List ParamType} {compute : List (Value ρ) → Value ρ} :
    (variadic name param compute).Respects cut R := onValues_respects hR fun _ => trivial

theorem numeric_respects {compute : Number → Except EvalError Number}
    (h : ∀ n, FailsOnly (Raises name) (compute n)) : (numeric name compute : Function ρ).Respects cut R := by
  refine unary_respects hR fun v => ?_
  split
  next n => exact (h n).map fun _ _ => trivial
  next => exact trivial

theorem aggregate_respects {compute : List Number → Except EvalError (Value ρ)}
    (h : ∀ xs, FailsOnly (Raises name) (compute xs)) : (aggregate name compute).Respects cut R := by
  refine unary_respects hR fun v => ?_
  split
  next items => exact h _
  next => exact trivial

theorem ofOrdered_respects {compute : List (Value ρ) → Value ρ} :
    (ofOrdered name compute).Respects cut R := by
  refine unary_respects hR fun v => ?_
  split <;> exact trivial

theorem ofObject_respects {compute : Members (Value ρ) → List (Value ρ)} :
    (ofObject name compute).Respects cut R := by
  refine unary_respects hR fun v => ?_
  split <;> exact trivial

theorem ofStrings_respects {compute : List Char → List Char → Bool} :
    (ofStrings name compute : Function ρ).Respects cut R := by
  refine binary_respects hR fun v w => ?_
  split <;> exact trivial

omit hR in
theorem join_respects (hR : ∀ e, Raises "join" e → R e e) : (join : Function ρ).Respects cut R := by
  refine binary_respects hR fun v w => ?_
  split <;> exact trivial

/-! ### Functions of expressions -/

omit hR in
theorem zipIdx_mapM_follows {f g : Nat → Value ρ → Except EvalError (Value ρ)}
    (h : ∀ n v, Follows cut R (f n v) (g n v)) (items : List (Value ρ)) :
    Follows cut R (items.zipIdx.mapM fun (x, i) => f i x) (items.zipIdx.mapM fun (x, i) => g i x) :=
  .mapM (fun (x, i) => h i x) items.zipIdx

theorem ofKeys_follows {f g : Nat → Value ρ → Except EvalError (Value ρ)}
    (h : ∀ n v, Follows cut R (f n v) (g n v)) (items : List (Value ρ)) :
    Follows cut R (Keyed.ofKeys name f items) (Keyed.ofKeys name g items) :=
  (zipIdx_mapM_follows h items).bind fun keys =>
    (self_of_raises hR (checkKeys_raises name keys)).bind fun _ => .ok _

theorem keyed_respects {compute : Keyed ρ → Value ρ} : (keyed name compute).Respects cut R := by
  intro args args' hargs
  match hargs with
  | .nil => exact .ok _
  | .cons (.value v) .nil => cases v <;> exact .ok _
  | .cons (.expression _) .nil => exact .ok _
  | .cons (.value v) (.cons (.value _) _) => cases v <;> exact .ok _
  | .cons (.value v) (.cons (.expression h) .nil) =>
    cases v with
    | array items => exact (ofKeys_follows hR h items).bind fun _ => .ok _
    | _ => exact .ok _
  | .cons (.value v) (.cons (.expression _) (.cons _ _)) => cases v <;> exact .ok _
  | .cons (.expression _) (.cons _ _) => exact .ok _

omit hR in
theorem map_respects : (map : Function ρ).Respects cut R := by
  intro args args' hargs
  match hargs with
  | .nil => exact .ok _
  | .cons (.value _) .nil => exact .ok _
  | .cons (.expression _) .nil => exact .ok _
  | .cons (.expression h) (.cons (.value v) .nil) =>
    cases v with
    | array items => exact (zipIdx_mapM_follows h items).bind fun _ => .ok _
    | _ => exact .ok _
  | .cons (.expression _) (.cons (.value v) (.cons _ _)) => cases v <;> exact .ok _
  | .cons (.expression _) (.cons (.expression _) _) => exact .ok _
  | .cons (.value _) (.cons _ _) => exact .ok _

omit hR in
/-- Every builtin function respects a relation to which its own failures belong. -/
theorem respects_of_mem_all [BEq ρ] {f : Function ρ} (hf : f ∈ all) (hR : ∀ e, Raises f.name e → R e e) :
    f.Respects cut R := by
  simp only [all, List.mem_cons, List.not_mem_nil, or_false] at hf
  rcases hf with rfl | rfl | rfl | rfl | rfl | rfl | rfl | rfl | rfl | rfl | rfl | rfl | rfl | rfl |
    rfl | rfl | rfl
    | rfl | rfl | rfl | rfl | rfl | rfl | rfl | rfl | rfl
  · exact numeric_respects hR fun _ => trivial
  · exact aggregate_respects hR (avg_raises (show "avg" ∈ overflowing by decide))
  · exact numeric_respects hR (whole_raises (show "ceil" ∈ overflowing by decide) _)
  · exact numeric_respects hR (whole_raises (show "floor" ∈ overflowing by decide) _)
  · exact binary_respects hR fun _ _ => trivial
  · exact ofStrings_respects hR
  · exact ofStrings_respects hR
  · exact join_respects hR
  · exact ofObject_respects hR
  · exact ofObject_respects hR
  · exact unary_respects hR fun _ => trivial
  · exact map_respects
  · exact ofOrdered_respects hR
  · exact ofOrdered_respects hR
  · exact keyed_respects hR
  · exact keyed_respects hR
  · exact ofOrdered_respects hR
  · exact keyed_respects hR
  · exact variadic_respects hR
  · exact variadic_respects hR
  · exact unary_respects hR fun _ => trivial
  · exact aggregate_respects hR fun xs =>
      (sum_raises (show "sum" ∈ overflowing by decide) xs).map fun _ _ => trivial
  · exact unary_respects hR fun _ => trivial
  · exact unary_respects hR toString_raises
  · exact unary_respects hR fun _ => trivial
  · exact unary_respects hR fun _ => trivial

end

theorem params_ne_nil [BEq ρ] : ∀ f ∈ (all : List (Function ρ)), f.params ≠ [] := by
  simp [all, numeric, aggregate, binary, ofStrings, join, ofObject, unary, ofValues, map, ofOrdered, keyed,
    variadic]

/-! ### The table -/

/-- The functions of the table are listed under their own names. -/
theorem of_get? [BEq ρ] {name : String} {f : Function ρ} (h : Members.get? name table = some f) :
    f ∈ all ∧ f.name = name := by
  have hmem := Members.mem_of_get? h
  rcases Members.mem_of_mem_union hmem with h | h
  · cases h
  · obtain ⟨g, hg, hgf⟩ := List.mem_map.1 h
    cases hgf
    exact ⟨hg, rfl⟩

/-- Every builtin function is found under its name. -/
theorem get?_of_mem_all [BEq ρ] {f : Function ρ} (h : f ∈ all) : Members.get? f.name table = some f := by
  have hnames : Members.Distinct ((all : List (Function ρ)).map fun f => (f.name, f)) := by
    rw [Members.Distinct, Members.keys, List.map_map]
    show List.Nodup ["abs", "avg", "ceil", "floor", "contains", "ends_with", "starts_with", "join", "keys", "values",
      "length", "map", "max", "min", "max_by", "min_by", "sort", "sort_by", "merge", "not_null", "reverse", "sum",
      "to_array", "to_string", "to_number", "type"]
    decide +kernel
  have htable : (table : FunctionTable ρ) = all.map fun f => (f.name, f) := Members.union_of_distinct hnames
  rw [htable]
  exact Members.get?_of_mem hnames (List.mem_map_of_mem h)

/-- The outcomes of calls of a builtin function follow each other where the arguments do. -/
theorem invoke_follows [BEq ρ] {f : Function ρ} (hf : f ∈ all) (hR : ∀ e, Raises f.name e → R e e)
    {args args' : List (Argument ρ)} (hargs : List.Forall₂ (Argument.Follows cut R) args args') :
    Follows cut R (f.invoke args) (f.invoke args') :=
  (respects_of_mem_all hf hR).invoke (params_ne_nil f hf) (fun _ _ _ => hR _ rfl) (fun _ _ _ => hR _ rfl) hargs

/-- Calling a builtin function has alike outcomes for alike arguments. -/
theorem invoke_alike [BEq ρ] {name : String} (hR : ∀ e, Blames name e → R e e) {f : Function ρ}
    (h : Members.get? name table = some f) {args args' : List (Argument ρ)}
    (hargs : List.Forall₂ (Argument.Alike R) args args') : Alike R (f.invoke args) (f.invoke args') := by
  obtain ⟨hf, rfl⟩ := of_get? h
  exact invoke_follows hf (fun e he => hR e he.blames) hargs

end JsonQuery.Builtin
