import JsonQuery.Proofs.Eval.Moved

/-! Absent children. A child that is absent stands for the current value, so a tree means the same when every such
    child is written out, also within the expressions that are handed to functions: what these evaluate to is the
    same at every value, and so they are the same arguments. Writing a child out makes the tree higher, and moves
    the predicate of a filter to another place, but where there is room for the filled tree this does not count.
    There is one case for each kind of node. -/

namespace JsonQuery.Expr

mutual

/-- The tree in which every child that is absent is the current value. -/
def filled : Expr → Expr
  | e@(identifier _) | e@current | e@(literal _) | e@(rawString _) | e@(extension _) => e
  | index base i => index (some (filledBase base)) i
  | slice base start stop step => slice (some (filledBase base)) start stop step
  | flatten base => flatten (some (filledBase base))
  | subexpression left right => subexpression (filled left) (filled right)
  | objectWildcard base => objectWildcard (some (filledBase base))
  | arrayWildcard base => arrayWildcard (some (filledBase base))
  | pipe left right => pipe (filled left) (filled right)
  | or left right => or (filled left) (filled right)
  | and left right => and (filled left) (filled right)
  | not operand => not (filled operand)
  | comparison op left right => comparison op (filled left) (filled right)
  | filter source predicate => filter (some (filledBase source)) (filled predicate)
  | multiselectList items => multiselectList (filledList items)
  | multiselectHash pairs => multiselectHash (filledPairs pairs)
  | call function args => call function (filledList args)
  | reference expression => reference (filled expression)

/-- What a child that may be absent is in the filled tree. -/
def filledBase : Option Expr → Expr
  | none => current
  | some e => filled e

/-- Trees, each of them filled. -/
def filledList : List Expr → List Expr
  | [] => []
  | e :: es => filled e :: filledList es

/-- Keyed trees, each of them filled. -/
def filledPairs : List (String × Expr) → List (String × Expr)
  | [] => []
  | (k, e) :: es => (k, filled e) :: filledPairs es

end

example : (call "map" [reference (index none 0), filter none (flatten none)]).filled =
    call "map" [reference (index (some current) 0), filter (some current) (flatten (some current))] := rfl

/-- Whether a node lacks a child that it might have. -/
def lacksChild : Expr → Bool
  | index none _ | slice none .. | flatten none | objectWildcard none | arrayWildcard none | filter none _ => true
  | _ => false

/-- Among some nodes none lacks a child. -/
def Complete (nodes : List Expr) : Prop := ∀ n ∈ nodes, n.lacksChild = false

theorem Complete.cons {e : Expr} {nodes : List Expr} (he : e.lacksChild = false) (h : Complete nodes) :
    Complete (e :: nodes) := List.forall_mem_cons.2 ⟨he, h⟩

theorem Complete.append {nodes more : List Expr} (h : Complete nodes) (hmore : Complete more) :
    Complete (nodes ++ more) := List.forall_mem_append.2 ⟨h, hmore⟩

theorem complete_nil : Complete [] := nofun

mutual

/-- No node of a filled tree lacks a child. -/
theorem complete_filled : ∀ e : Expr, Complete e.filled.walk
  | identifier _ | current | literal _ | rawString _ | extension _ => .cons rfl complete_nil
  | index base _ | slice base _ _ _ | flatten base | objectWildcard base | arrayWildcard base =>
    .cons rfl (complete_filledBase base)
  | subexpression l r | pipe l r | or l r | and l r | comparison _ l r =>
    .cons rfl ((complete_filled l).append (complete_filled r))
  | not e | reference e => .cons rfl (complete_filled e)
  | filter source predicate => .cons rfl ((complete_filledBase source).append (complete_filled predicate))
  | multiselectList es | call _ es => .cons rfl (complete_filledList es)
  | multiselectHash ps => .cons rfl (complete_filledPairs ps)

theorem complete_filledBase : ∀ base : Option Expr, Complete (filledBase base).walk
  | none => .cons rfl complete_nil
  | some e => complete_filled e

theorem complete_filledList : ∀ es : List Expr, Complete (walkList (filledList es))
  | [] => complete_nil
  | e :: es => (complete_filled e).append (complete_filledList es)

theorem complete_filledPairs : ∀ ps : List (String × Expr), Complete (walkPairs (filledPairs ps))
  | [] => complete_nil
  | (_, e) :: ps => (complete_filled e).append (complete_filledPairs ps)

end

/-! ### Evaluation -/

theorem filled_ne_reference {e : Expr} (he : ∀ e', e ≠ reference e') : ∀ e', e.filled ≠ reference e' := by
  cases e with
  | reference e => exact absurd rfl (he e)
  | _ => exact fun _ => nofun

variable {functions : FunctionTable Empty} {limit : Int}

mutual

/-- A filled tree denotes at any place, if there is room for it, what the tree does. -/
theorem visit_filled : ∀ (e : Expr) (place : Place) (v : Json), (place.level : Int) + e.filled.height ≤ limit →
    visit (.plain functions limit) e.filled place v = visit (.plain functions limit) e place v
  | identifier _, _, _, _ | current, _, _, _ | literal _, _, _, _ | rawString _, _, _, _ | extension _, _, _, _ => rfl
  | index base i, place, v, h => by
    have hbase := visitBase_filled base (place.child 0) v (child_within 0 h (Nat.le_refl _))
    simp only [filled, visit, hbase]
  | slice base start stop step, place, v, h => by
    have hbase := visitBase_filled base (place.child 0) v (child_within 0 h (Nat.le_refl _))
    simp only [filled, visit, hbase]
  | flatten base, place, v, h => by
    have hbase := visitBase_filled base (place.child 0) v (child_within 0 h (Nat.le_refl _))
    simp only [filled, visit, hbase]
  | objectWildcard base, place, v, h => by
    have hbase := visitBase_filled base (place.child 0) v (child_within 0 h (Nat.le_refl _))
    simp only [filled, visit, hbase]
  | arrayWildcard base, place, v, h => by
    have hbase := visitBase_filled base (place.child 0) v (child_within 0 h (Nat.le_refl _))
    simp only [filled, visit, hbase]
  | subexpression l r, place, v, h => by
    have hl := visit_filled l (place.child 0) v (child_within 0 h (Nat.le_max_left _ _))
    have hr := fun w => visit_filled r (place.child 1) w (child_within 1 h (Nat.le_max_right _ _))
    have hturn := fun way w => visit_filled r ((place.child 1).turn way) w (child_within 1 h (Nat.le_max_right _ _))
    simp only [filled, visit, hl, hr, hturn]
  | pipe l r, place, v, h | or l r, place, v, h | and l r, place, v, h | comparison _ l r, place, v, h => by
    have hl := visit_filled l (place.child 0) v (child_within 0 h (Nat.le_max_left _ _))
    have hr := fun w => visit_filled r (place.child 1) w (child_within 1 h (Nat.le_max_right _ _))
    simp only [filled, visit, hl, hr]
  | not e, place, v, h => by
    have he := visit_filled e (place.child 0) v (child_within 0 h (Nat.le_refl _))
    simp only [filled, visit, he]
  | filter source predicate, place, v, h => by
    have hsource := visitBase_filled source (place.child 0) v (child_within 0 h (Nat.le_max_left _ _))
    -- the predicate comes after its source, so it has another number if the source was absent
    have hpredicate (n : Nat) (way : List Nat) (x : Json) :
        visit (.plain functions limit) predicate.filled ((place.child 1).turn (n :: way)) x =
          visit (.plain functions limit) predicate ((place.child source.toList.length).turn (n :: way)) x := by
      have hlevel : ((place.child 1).turn (n :: way)).level =
          ((place.child source.toList.length).turn (n :: way)).level := rfl
      rw [visit_filled predicate ((place.child 1).turn (n :: way)) x (child_within 1 h (Nat.le_max_right _ _))]
      exact visit_of_level functions limit predicate hlevel x
    simp only [filled, visit, hsource, Option.toList_some, List.length_singleton, hpredicate]
  | multiselectList es, place, v, h => by
    simp only [filled, visit, visitItems_filled es 0 place v h]
  | multiselectHash ps, place, v, h => by
    simp only [filled, visit, visitPairs_filled ps 0 place v h]
  | call function args, place, v, h => by
    simp only [filled, visit, visitArgs_filled args 0 place v h]
  | reference _, _, _, _ => by
    simp only [filled, visit]

theorem visitBase_filled : ∀ (base : Option Expr) (place : Place) (v : Json),
    (place.level : Int) + (filledBase base).height ≤ limit →
    visitBase (.plain functions limit) (some (filledBase base)) place v =
      visitBase (.plain functions limit) base place v
  | none, place, v, h => by
    have hlevel : ¬ (Environment.plain functions limit).limit < place.level + 1 := not_too_deep h
    rw [visitBase, visitBase, filledBase, visit, Environment.enter_of hlevel]
  | some e, place, v, h => by
    rw [visitBase, visitBase, filledBase, visit_filled e place v h]

theorem visitItems_filled : ∀ (es : List Expr) (i : Nat) (place : Place) (v : Json),
    (place.level : Int) + (heightList (filledList es) + 1 : Nat) ≤ limit →
    visitItems (.plain functions limit) (filledList es) i place v = visitItems (.plain functions limit) es i place v
  | [], _, _, _, _ => rfl
  | e :: es, i, place, v, h => by
    have he := visit_filled e (place.child i) v (child_within i h (Nat.le_max_left _ _))
    have hes := visitItems_filled es (i + 1) place v (within_mono h (Nat.le_max_right _ _))
    simp only [filledList, visitItems, he, hes]

theorem visitPairs_filled : ∀ (ps : List (String × Expr)) (i : Nat) (place : Place) (v : Json),
    (place.level : Int) + (heightPairs (filledPairs ps) + 1 : Nat) ≤ limit →
    visitPairs (.plain functions limit) (filledPairs ps) i place v = visitPairs (.plain functions limit) ps i place v
  | [], _, _, _, _ => rfl
  | (_, e) :: ps, i, place, v, h => by
    have he := visit_filled e (place.child i) v (child_within i h (Nat.le_max_left _ _))
    have hps := visitPairs_filled ps (i + 1) place v (within_mono h (Nat.le_max_right _ _))
    simp only [filledPairs, visitPairs, he, hps]

theorem visitArgs_filled : ∀ (es : List Expr) (i : Nat) (place : Place) (v : Json),
    (place.level : Int) + (heightList (filledList es) + 1 : Nat) ≤ limit →
    visitArgs (.plain functions limit) (filledList es) i place v = visitArgs (.plain functions limit) es i place v
  | [], _, _, _, _ => rfl
  | e :: es, i, place, v, h => by
    have hchild := child_within i h (Nat.le_max_left _ _)
    have hes := visitArgs_filled es (i + 1) place v (within_mono h (Nat.le_max_right _ _))
    rw [filledList, visitArgs_cons, visitArgs_cons, hes]
    cases e with
    | reference e =>
      have he := fun n w => visit_filled e ((place.child i).turn [n]) w hchild
      simp only [filled, visitArg, he]
    | _ =>
      rw [visitArg_of_ne (filled_ne_reference (by simp)), visitArg_of_ne (by simp),
        visit_filled _ (place.child i) v hchild]

end

/-- No child is absent in a filled tree, and under every limit that leaves room for it evaluating it has the outcome
    of evaluating the tree itself. -/
theorem evaluate_filled (functions : FunctionTable Empty) (e : Expr) :
    (∀ n ∈ e.filled.walk, n.lacksChild = false) ∧
    ∀ (limit : Int), e.filled.height ≤ limit → ∀ document,
      evaluate (.plain functions limit) e document = evaluate (.plain functions limit) e.filled document := by
  refine ⟨complete_filled e, fun limit h document => ?_⟩
  rw [evaluate, evaluate, visit_filled e .root document (root_within h)]

/-- Within the expression that is handed to a function a filter has neither a source nor its flattening a base. -/
theorem evaluate_filled_map :
    evaluate (.plain Builtin.table 4) (call "map" [reference (filter none (flatten none)), current])
        (.array [.array [.array [.int 1], .array []]]) =
      evaluate (.plain Builtin.table 4)
        (call "map" [reference (filter (some current) (flatten (some current))), current])
        (.array [.array [.array [.int 1], .array []]]) ∧
    evaluate (.plain Builtin.table 4) (call "map" [reference (filter none (flatten none)), current])
        (.array [.array [.array [.int 1], .array []]]) = .ok (.array [.array [.array [.int 1]]]) :=
  ⟨(evaluate_filled Builtin.table (call "map" [reference (filter none (flatten none)), current])).2 4 (by decide) _,
    rfl⟩

end JsonQuery.Expr
