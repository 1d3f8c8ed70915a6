import JsonQuery.Proofs.Eval.ItemByItem
import JsonQuery.Proofs.Function.Signatures
import JsonQuery.Proofs.Json.Unions

/-! Merging. Objects that are merged and the pairs of a multiselect hash are united by one rule: each key stands where
    it came first and has the value that came last. So what counts of the objects is the row of all their members,
    and that is the same however calls of `merge` within each other group them, whether empty objects are among
    them, and whether the members come from one hash or from two. -/

namespace JsonQuery

section
variable {α β : Type} {R : α → β → Prop} {xs xs' : List α} {zs : List β}

theorem exists_append_of_forall₂ (h : List.Forall₂ R (xs ++ xs') zs) :
    ∃ ys ys', zs = ys ++ ys' ∧ List.Forall₂ R xs ys ∧ List.Forall₂ R xs' ys' := by
  have hflip : List.Forall₂ (flip R) zs (xs ++ xs') := List.Forall₂.flip h
  refine ⟨zs.take xs.length, zs.drop xs.length, (List.take_append_drop _ _).symm, ?_, ?_⟩
  · exact (List.forall₂_take_append _ _ _ hflip).flip
  · exact (List.forall₂_drop_append _ _ _ hflip).flip

theorem exists_forall₂_iff : (∃ ys, List.Forall₂ R xs ys) ↔ ∀ x ∈ xs, ∃ y, R x y := by
  induction xs with
  | nil => exact ⟨fun _ => nofun, fun _ => ⟨[], .nil⟩⟩
  | cons x xs ih =>
    rw [List.forall_mem_cons, ← ih]
    constructor
    · rintro ⟨_, h⟩
      cases h with
      | cons hxy h => exact ⟨⟨_, hxy⟩, _, h⟩
    · rintro ⟨⟨y, hy⟩, ys, hys⟩
      exact ⟨y :: ys, .cons hy hys⟩

end

/-! ### Objects -/

namespace Builtin

open Members

variable {ρ : Type} {key : String} {ms : Members (Value ρ)} {row objects : List (Members (Value ρ))}

theorem merge_eq_ofPairs (objects : List (Members (Value ρ))) : merge objects = ofPairs objects.flatten :=
  List.foldl_flatten.symm

theorem distinct_merge (objects : List (Members (Value ρ))) : (merge objects).Distinct := by
  rw [merge_eq_ofPairs]
  exact distinct_ofPairs objects.flatten

theorem merge_singleton (h : ms.Distinct) : merge [ms] = ms := ofPairs_of_distinct h

/-- The empty object adds nothing, wherever it stands. -/
theorem merge_empty (before after : List (Members (Value ρ))) :
    merge (before ++ [] :: after) = merge (before ++ after) := by
  simp [merge_eq_ofPairs]

/-- Each key stands where it comes first among the members of all objects. -/
theorem keys_merge (objects : List (Members (Value ρ))) : (merge objects).keys = (objects.flatMap keys).eraseDups := by
  rw [merge_eq_ofPairs, keys_ofPairs, List.map_flatten]
  rfl

/-- Each key has the value that it has in the last object that has it. -/
theorem get?_merge (h : ∀ ms ∈ objects, Distinct ms) :
    get? key (merge objects) = (objects.filterMap (get? key)).getLast? := by
  induction objects using List.reverseRecOn with
  | nil => rfl
  | append_singleton objects ms ih =>
    have hobjects : ∀ ms' ∈ objects, Distinct ms' := fun ms' hmem => h ms' (List.mem_append_left _ hmem)
    have hms : ms.Distinct := h ms (by simp)
    have hunion : merge (objects ++ [ms]) = union (merge objects) ms := List.foldl_append
    rw [hunion, get?_union, ofPairs_of_distinct hms, ih hobjects, List.filterMap_append, List.getLast?_append]
    cases hget : get? key ms <;> simp [hget]

/-- Putting some members in is putting in some objects one after the other. -/
def Puts (ms : Members (Value ρ)) (objects : List (Members (Value ρ))) : Prop :=
  ∀ acc : Members (Value ρ), union acc ms = objects.foldl union acc

theorem puts_singleton (ms : Members (Value ρ)) : Puts ms [ms] := fun _ => rfl

theorem puts_merge (objects : List (Members (Value ρ))) : Puts (merge objects) objects := by
  intro acc
  rw [merge_eq_ofPairs, union_ofPairs]
  exact List.foldl_flatten

/-- Members that put in some objects are these merged, if no key stands twice among them. -/
theorem Puts.eq_merge (h : Puts ms objects) (hms : ms.Distinct) : ms = merge objects :=
  (ofPairs_of_distinct hms).symm.trans (h [])

theorem foldl_union_of_puts {groups : List (List (Members (Value ρ)))} (h : List.Forall₂ Puts row groups) :
    ∀ acc : Members (Value ρ), row.foldl union acc = groups.flatten.foldl union acc := by
  induction h with
  | nil => exact fun _ => rfl
  | cons hms _ ih =>
    intro acc
    rw [List.foldl_cons, ih, List.flatten_cons, List.foldl_append, hms]

theorem merge_of_puts {groups : List (List (Members (Value ρ)))} (h : List.Forall₂ Puts row groups) :
    merge row = merge groups.flatten := foldl_union_of_puts h []

/-- The members of two rows of pairs, merged. -/
theorem ofPairs_append_eq_merge (pairs more : List (String × Value ρ)) :
    ofPairs (pairs ++ more) = merge [ofPairs pairs, ofPairs more] := by
  have hpairs : union [] (ofPairs pairs) = ofPairs pairs := union_ofPairs [] pairs
  show _ = union (union [] (ofPairs pairs)) (ofPairs more)
  rw [hpairs, union_ofPairs, ofPairs, union, List.foldl_append]
  rfl

theorem onValues_map (compute : List (Value ρ) → Except EvalError (Value ρ)) (vs : List (Value ρ)) :
    onValues compute (vs.map .value) = compute vs := by
  rw [onValues, List.filterMap_map]
  exact congrArg compute List.filterMap_some

/-- A function of any number of values computes from values that it accepts, if there are any. -/
theorem invoke_variadic (name : String) {param : List ParamType} (compute : List (Value ρ) → Value ρ)
    {vs : List (Value ρ)} (hvs : vs ≠ []) (h : ∀ v ∈ vs, ∃ t ∈ param, t.Admits (.value v)) :
    (variadic name param compute).invoke (vs.map .value) = .ok (compute vs) := by
  have hcount : (variadic name param compute).Counts (vs.map Argument.value).length := by
    rw [List.length_map]
    rcases Nat.eq_or_lt_of_le (List.length_pos_iff.2 hvs) with hone | hmore
    · exact .inl hone.symm
    · exact .inr ⟨rfl, hmore⟩
  have hsuits : ∀ p ∈ (vs.map Argument.value).zipIdx, (variadic name param compute).Suits p.2 p.1 := by
    intro p hp
    obtain ⟨v, hv, hvalue⟩ := List.mem_map.1 (List.fst_mem_of_mem_zipIdx hp)
    have hslot : (variadic name param compute).slot? p.2 = some param := by simp [Function.slot?, variadic]
    exact ⟨param, Function.slot_iff.2 hslot, hvalue ▸ h v hv⟩
  rw [(Function.Finds.nothing hcount hsuits).invoke_eq]
  exact onValues_map (fun vs => .ok (compute vs)) vs

/-- The function `merge`. -/
def mergeFunction : Function ρ :=
  variadic "merge" (one .object) fun vs => .object (merge (vs.filterMap Value.members?))

/-- Called on objects, at least one of them, `merge` gives all their members merged. -/
theorem invoke_merge (h : row ≠ []) :
    (mergeFunction : Function ρ).invoke (row.map fun ms => .value (.object ms)) = .ok (.object (merge row)) := by
  have hadmits : ∀ v ∈ row.map (Value.object : Members (Value ρ) → Value ρ),
      ∃ t ∈ one .object, t.Admits (.value v) := by
    intro v hv
    obtain ⟨ms, -, rfl⟩ := List.mem_map.1 hv
    exact ⟨_, List.mem_cons_self, .ofKind rfl⟩
  have hmembers : (row.map Value.object).filterMap Value.members? = row := by
    rw [List.filterMap_map]
    exact List.filterMap_some
  have hinvoke := invoke_variadic "merge" (fun vs => .object (merge (vs.filterMap Value.members?)))
    (mt List.map_eq_nil_iff.1 h) hadmits
  rw [List.map_map, hmembers] at hinvoke
  exact hinvoke

end Builtin

/-- An expression evaluates to an object that has some members. -/
def Expr.Gives (functions : FunctionTable Empty) (limit : Int) (v : Json) (e : Expr) (ms : Members Json) : Prop :=
  e.evaluate (.plain functions limit) v = .ok (.object ms)

/-! ### Groups -/

/-- A way of merging the values of some expressions: the value of one expression alone, or groups of them, merged. -/
inductive Grouping where
  | one (e : Expr)
  | group (first : Grouping) (others : List Grouping)

namespace Grouping

mutual

/-- The expression that merges in these groups. -/
def expr : Grouping → Expr
  | one e => e
  | group first others => .call "merge" (first.expr :: exprs others)

/-- The expressions of groups that stand side by side. -/
def exprs : List Grouping → List Expr
  | [] => []
  | g :: gs => g.expr :: exprs gs

end

mutual

/-- The expressions whose values are merged, from left to right. -/
def parts : Grouping → List Expr
  | one e => [e]
  | group first others => first.parts ++ partsOf others

/-- The expressions whose values are merged in groups that stand side by side. -/
def partsOf : List Grouping → List Expr
  | [] => []
  | g :: gs => g.parts ++ partsOf gs

end

/-- Three expressions have the same parts in either grouping by two, and without any. -/
example (a b c : Expr) :
    (group (one a) [group (one b) [one c]]).parts = [a, b, c] ∧
    (group (group (one a) [one b]) [one c]).parts = [a, b, c] ∧ (group (one a) [one b, one c]).parts = [a, b, c] :=
  ⟨rfl, rfl, rfl⟩

variable {functions : FunctionTable Empty} {limit : Int} {v : Json}

/-- A call of `merge` on arguments that are objects, at least one of them. -/
theorem valueAt_call_merge (hmerge : functions.HasBuiltins ["merge"]) {place : Place} {args : List Expr}
    {row : List (Members Json)} (hplace : ¬ limit < place.level + 1)
    (hargs : Expr.visitArgs (.plain functions limit) args 0 place v = .ok (row.map fun ms => .value (.object ms)))
    (hrow : row ≠ []) :
    (Expr.call "merge" args).valueAt (.plain functions limit) place v = .ok (.object (Builtin.merge row)) := by
  have hget : Members.get? "merge" (Environment.plain functions limit).functions = some Builtin.mergeFunction :=
    hmerge.get?_of_mem_all (List.mem_singleton.2 rfl) (by simp [Builtin.all, Builtin.mergeFunction]) rfl
  rw [Expr.valueAt_call hget hplace hargs, Builtin.invoke_merge hrow]

theorem visitArgs_cons_object {place : Place} {i : Nat} {e : Expr} {es : List Expr} {ms : Members Json}
    {row : List (Members Json)} (hms : e.valueAt (.plain functions limit) (place.child i) v = .ok (.object ms))
    (hargs : Expr.visitArgs (.plain functions limit) es (i + 1) place v = .ok (row.map fun ms => .value (.object ms))) :
    Expr.visitArgs (.plain functions limit) (e :: es) i place v =
      .ok ((ms :: row).map fun ms => .value (.object ms)) := by
  rw [Expr.visitArgs_cons, Expr.visitArg_of_valueAt hms fun _ => nofun, hargs]
  rfl

mutual

/-- A grouping has at any place where there is room for it an object that puts in what its parts give, and the object
    is one of `merge` if the grouping is more than a part alone. -/
theorem valueAt_expr (hmerge : functions.HasBuiltins ["merge"]) : ∀ (g : Grouping) (place : Place)
    (objects : List (Members Json)), (place.level : Int) + g.expr.height ≤ limit →
    List.Forall₂ (Expr.Gives functions limit v) g.parts objects →
    ∃ ms, g.expr.valueAt (.plain functions limit) place v = .ok (.object ms) ∧ Builtin.Puts ms objects ∧
      ((∀ e, g ≠ one e) → Members.Distinct ms)
  | one e, place, objects, h, hobjects => by
    obtain ⟨ms, _, hms, hnil, rfl⟩ := List.forall₂_cons_left_iff.1 hobjects
    cases hnil
    exact ⟨ms, (Expr.valueAt_of_room h v).trans hms, Builtin.puts_singleton ms, fun hne => absurd rfl (hne e)⟩
  | group first others, place, objects, h, hobjects => by
    obtain ⟨here, there, rfl, hhere, hthere⟩ := exists_append_of_forall₂ hobjects
    obtain ⟨ms, hms, hputs, -⟩ := valueAt_expr hmerge first (place.child 0) here
      (Expr.child_within 0 h (Nat.le_max_left _ _)) hhere
    obtain ⟨row, groups, rfl, hrow, hargs⟩ := visitArgs_exprs hmerge others 1 place there
      (Expr.within_mono h (Nat.le_max_right _ _)) hthere
    have hcall := valueAt_call_merge hmerge (Expr.not_too_deep h) (visitArgs_cons_object hms hargs)
      (List.cons_ne_nil _ _)
    rw [Builtin.merge_of_puts (.cons hputs hrow)] at hcall
    exact ⟨_, hcall, Builtin.puts_merge _, fun _ => Builtin.distinct_merge _⟩

theorem visitArgs_exprs (hmerge : functions.HasBuiltins ["merge"]) : ∀ (gs : List Grouping) (i : Nat) (place : Place)
    (objects : List (Members Json)), (place.level : Int) + (Expr.heightList (exprs gs) + 1 : Nat) ≤ limit →
    List.Forall₂ (Expr.Gives functions limit v) (partsOf gs) objects →
    ∃ row groups, objects = groups.flatten ∧ List.Forall₂ Builtin.Puts row groups ∧
      Expr.visitArgs (.plain functions limit) (exprs gs) i place v = .ok (row.map fun ms => .value (.object ms))
  | [], _, _, objects, _, hobjects => by
    cases hobjects
    exact ⟨[], [], rfl, .nil, rfl⟩
  | g :: gs, i, place, objects, h, hobjects => by
    obtain ⟨here, there, rfl, hhere, hthere⟩ := exists_append_of_forall₂ hobjects
    obtain ⟨ms, hms, hputs, -⟩ := valueAt_expr hmerge g (place.child i) here
      (Expr.child_within i h (Nat.le_max_left _ _)) hhere
    obtain ⟨row, groups, rfl, hrow, hargs⟩ := visitArgs_exprs hmerge gs (i + 1) place there
      (Expr.within_mono h (Nat.le_max_right _ _)) hthere
    exact ⟨ms :: row, here :: groups, rfl, .cons hputs hrow, visitArgs_cons_object hms hargs⟩

end

/-- However calls of `merge` group the expressions, the value is the objects that these give, merged. -/
theorem evaluate_group (hmerge : functions.HasBuiltins ["merge"]) {first : Grouping} {others : List Grouping}
    {objects : List (Members Json)} (h : (group first others).expr.height ≤ limit)
    (hobjects : List.Forall₂ (Expr.Gives functions limit v) (group first others).parts objects) :
    (group first others).expr.evaluate (.plain functions limit) v = .ok (.object (Builtin.merge objects)) := by
  -- what an object does to others says what it is only if no key stands twice in it, as in the results of `merge`
  have hgroup : ∀ e, group first others ≠ one e := by
    intro e he
    cases he
  obtain ⟨ms, hms, hputs, hdistinct⟩ :=
    valueAt_expr hmerge (group first others) .root objects (Expr.root_within h) hobjects
  rw [Expr.evaluate_eq_valueAt, hms, hputs.eq_merge (hdistinct hgroup)]

end Grouping

/-! ### Hashes -/

namespace Expr

variable {functions : FunctionTable Empty} {limit : Int} {v : Json} {pairs more : List (String × Expr)}

/-- The value of an item of a multiselect hash that stands at the root, with its key. -/
def itemAt (functions : FunctionTable Empty) (limit : Int) (v : Json) (item : String × Expr) :
    Except EvalError (String × Json) := do
  return (item.1, ← valueAt (.plain functions limit) item.2 (Place.root.child 0) v)

theorem itemAt_eq_ok_iff {item : String × Expr} {r : String × Json} : itemAt functions limit v item = .ok r ↔
    item.1 = r.1 ∧ valueAt (.plain functions limit) item.2 (Place.root.child 0) v = .ok r.2 := by
  rw [itemAt]
  constructor
  · intro h
    obtain ⟨w, hw, h⟩ := exists_of_bind_eq_ok h
    cases h
    exact ⟨rfl, hw⟩
  · rintro ⟨hkey, hw⟩
    rw [hkey, hw]
    rfl

/-- Where functions hand nothing on the number of an item does not count. -/
theorem visitPairs_eq_mapM (pairs : List (String × Expr)) (i : Nat) :
    visitPairs (.plain functions limit) pairs i .root v = pairs.mapM (itemAt functions limit v) := by
  induction pairs generalizing i with
  | nil => rfl
  | cons item pairs ih =>
    have hlevel : (Place.root.child i).level = (Place.root.child 0).level := rfl
    rw [visitPairs, visit_of_level functions limit item.2 hlevel, ih, List.mapM_cons]
    simp only [itemAt, valueAt, bind_assoc, pure_bind]

section
variable (hv : v.isNull = false) (hlimit : 1 ≤ limit)
include hv hlimit

/-- A multiselect hash evaluates to the members that its items stand for, if all of them have values. -/
theorem evaluate_hash_iff {w : Json} : evaluate (.plain functions limit) (multiselectHash pairs) v = .ok w ↔
    ∃ rs, List.Forall₂ (fun item r => itemAt functions limit v item = .ok r) pairs rs ∧
      w = .object (Members.ofPairs rs) := by
  have hroot : ¬ (Environment.plain functions limit).limit < (Place.root.level : Int) + 1 := by
    show ¬ limit < 1
    omega
  have hhash : evaluate (.plain functions limit) (multiselectHash pairs) v =
      (do return .object (Members.ofPairs (← pairs.mapM (itemAt functions limit v)))) := by
    rw [evaluate, visit, Environment.enter_of hroot]
    simp only [hv, visitPairs_eq_mapM, Bool.false_eq_true, if_false, bind_assoc, pure_bind]
    rfl
  rw [hhash]
  constructor
  · intro h
    obtain ⟨rs, hrs, h⟩ := exists_of_bind_eq_ok h
    cases h
    exact ⟨rs, mapM_eq_ok_iff.1 hrs, rfl⟩
  · rintro ⟨rs, hrs, rfl⟩
    rw [mapM_of_forall₂ hrs]
    rfl

theorem gives_hash_iff {ms : Members Json} : Gives functions limit v (multiselectHash pairs) ms ↔
    ∃ rs, List.Forall₂ (fun item r => itemAt functions limit v item = .ok r) pairs rs ∧ ms = Members.ofPairs rs := by
  rw [Gives, evaluate_hash_iff hv hlimit]
  simp only [Value.object.injEq]

/-- A hash has a value just if all its items have. -/
theorem exists_gives_hash_iff : (∃ ms, Gives functions limit v (multiselectHash pairs) ms) ↔
    ∀ item ∈ pairs, ∃ w, valueAt (.plain functions limit) item.2 (Place.root.child 0) v = .ok w := by
  have hitem (item : String × Expr) : (∃ r, itemAt functions limit v item = .ok r) ↔
      ∃ w, valueAt (.plain functions limit) item.2 (Place.root.child 0) v = .ok w := by
    simp [itemAt_eq_ok_iff]
  simp only [gives_hash_iff hv hlimit, ← hitem, ← exists_forall₂_iff]
  simp

/-- The hash of two rows of items has the value of the first row and that of the second, merged. -/
theorem evaluate_hash_append {w : Json} :
    evaluate (.plain functions limit) (multiselectHash (pairs ++ more)) v = .ok w ↔
      ∃ a b, Gives functions limit v (multiselectHash pairs) a ∧ Gives functions limit v (multiselectHash more) b ∧
        w = .object (Builtin.merge [a, b]) := by
  simp only [evaluate_hash_iff hv hlimit, gives_hash_iff hv hlimit]
  constructor
  · rintro ⟨rs, hrs, rfl⟩
    obtain ⟨here, there, rfl, hhere, hthere⟩ := exists_append_of_forall₂ hrs
    exact ⟨_, _, ⟨here, hhere, rfl⟩, ⟨there, hthere, rfl⟩, by rw [Builtin.ofPairs_append_eq_merge]⟩
  · rintro ⟨_, _, ⟨here, hhere, rfl⟩, ⟨there, hthere, rfl⟩, rfl⟩
    exact ⟨here ++ there, List.rel_append hhere hthere, by rw [Builtin.ofPairs_append_eq_merge]⟩

end

end Expr

/-! ### The laws together -/

/-- What `merge` makes of objects, and multiselect hashes of their items, at a value. -/
structure MergeLaws (functions : FunctionTable Empty) (limit : Int) (v : Json) : Prop where
  /-- In whatever groups some expressions are merged, calls of `merge` within each other have one value: the objects
      that the expressions give, merged. -/
  grouped : ∀ (first : Grouping) (others : List Grouping) (objects : List (Members Json)),
    (Grouping.group first others).expr.height ≤ limit →
    List.Forall₂ (Expr.Gives functions limit v) (Grouping.group first others).parts objects →
    Expr.Gives functions limit v (Grouping.group first others).expr (Builtin.merge objects)
  /-- An object merged alone is itself. -/
  single : ∀ ms : Members Json, ms.Distinct → Builtin.merge [ms] = ms
  /-- The empty object counts for nothing. -/
  empty : ∀ before after : List (Members Json), Builtin.merge (before ++ [] :: after) = Builtin.merge (before ++ after)
  /-- Each key stands where it comes first. -/
  keys : ∀ objects : List (Members Json), (Builtin.merge objects).keys = (objects.flatMap Members.keys).eraseDups
  /-- Each key has the value of the last object that has it. -/
  values : ∀ objects : List (Members Json), (∀ ms ∈ objects, ms.Distinct) → ∀ key,
    Members.get? key (Builtin.merge objects) = (objects.filterMap (Members.get? key)).getLast?
  /-- A hash has a value at a value other than null just if all its items have. -/
  items : v.isNull = false → 1 ≤ limit → ∀ pairs,
    (∃ ms, Expr.Gives functions limit v (.multiselectHash pairs) ms) ↔
      ∀ item ∈ pairs, ∃ w, item.2.valueAt (.plain functions limit) (Place.root.child 0) v = .ok w
  /-- Then the hash of two rows of items is the hash of the first row and that of the second, merged. -/
  hashes : v.isNull = false → 1 ≤ limit → ∀ pairs more w,
    (Expr.multiselectHash (pairs ++ more)).evaluate (.plain functions limit) v = .ok w ↔
      ∃ a b, Expr.Gives functions limit v (.multiselectHash pairs) a ∧
        Expr.Gives functions limit v (.multiselectHash more) b ∧ w = .object (Builtin.merge [a, b])

/-- Merging and multiselect hashes are one ordered union, whatever else the table has. -/
theorem mergeLaws {functions : FunctionTable Empty} (hmerge : functions.HasBuiltins ["merge"]) (limit : Int)
    (v : Json) : MergeLaws functions limit v where
  grouped _ _ _ h hobjects := Grouping.evaluate_group hmerge h hobjects
  single _ hms := Builtin.merge_singleton hms
  empty := Builtin.merge_empty
  keys := Builtin.keys_merge
  values _ h _ := Builtin.get?_merge h
  items hv hlimit _ := Expr.exists_gives_hash_iff hv hlimit
  hashes hv hlimit _ _ _ := Expr.evaluate_hash_append hv hlimit

/-- Three objects that share keys have one union in either grouping by two, and so have two hashes that share a key. -/
theorem mergeLaws_three :
    let v : Json := .object [("a", .object [("x", .int 1), ("y", .int 2)]),
      ("b", .object [("y", .int 3), ("z", .int 4)]), ("c", .object [("x", .int 5)])]
    let part (name : String) := Grouping.one (.identifier name)
    let union : Members Json := [("x", .int 5), ("y", .int 3), ("z", .int 4)]
    Expr.Gives Builtin.table 3 v (Grouping.group (part "a") [.group (part "b") [part "c"]]).expr union ∧
    Expr.Gives Builtin.table 3 v (Grouping.group (.group (part "a") [part "b"]) [part "c"]).expr union ∧
    Expr.evaluate (.plain Builtin.table 3)
      (.multiselectHash ([("k", .identifier "a")] ++ [("l", .identifier "b"), ("k", .literal (.int 0))])) v =
        .ok (.object [("k", .int 0), ("l", .object [("y", .int 3), ("z", .int 4)])]) := by
  intro v part union
  have laws : MergeLaws Builtin.table 3 v := mergeLaws (FunctionTable.hasBuiltins_plain 3 ["merge"]) 3 v
  have hobjects : List.Forall₂ (Expr.Gives Builtin.table 3 v) [.identifier "a", .identifier "b", .identifier "c"]
      [[("x", .int 1), ("y", .int 2)], [("y", .int 3), ("z", .int 4)], [("x", .int 5)]] :=
    .cons rfl (.cons rfl (.cons rfl .nil))
  refine ⟨?_, ?_, (laws.hashes rfl (by decide) _ _ _).2 ⟨_, _, rfl, rfl, rfl⟩⟩
  · exact laws.grouped (part "a") [.group (part "b") [part "c"]] _ (by decide) hobjects
  · exact laws.grouped (.group (part "a") [part "b"]) [part "c"] _ (by decide) hobjects

end JsonQuery
