import JsonQuery.Proofs.Eval.Cutoff
import JsonQuery.Proofs.Expr.Tower
import JsonQuery.Query

/-! One limit for the parser and the evaluator. The parser counts recursion and extensions, and takes back
    what it counted inside brackets when they close; the evaluator counts the nodes above a node. So a text
    may be accepted whose tree cannot be evaluated under the same limit. -/

namespace JsonQuery.Expr

variable {ρ : Type} [BEq ρ] {env : Environment ρ} {v : Value ρ}

/-- Evaluating a tree goes down its longest way before anything else, and finds it too deep if it is longer
    than the limit. -/
def Sinks (env : Environment ρ) (v : Value ρ) (e : Expr) : Prop :=
  ∀ place : Place, env.limit < place.level + e.height → visit env e place v = .error (.tooDeep env.limit)

theorem sinks_current : Sinks env v current := by
  intro place h
  rw [visit, enter_eq, if_pos (by simpa [height] using h)]

theorem Sinks.flatten {e : Expr} (h : Sinks env v e) : Sinks env v (flatten (some e)) := by
  intro place hdeep
  rw [visit, enter_eq]
  split
  next => rfl
  next =>
    have hchild : visitBase env (some e) (place.child 0) v = .error (.tooDeep env.limit) := by
      rw [visitBase]
      refine h _ ?_
      simp only [height, heightOption, level_child] at hdeep ⊢
      omega
    rw [hchild]
    rfl

theorem Sinks.list {e : Expr} (hv : v.isNull = false) (h : Sinks env v e) :
    Sinks env v (multiselectList [e]) := by
  intro place hdeep
  rw [visit, enter_eq]
  split
  next => rfl
  next =>
    have hitem : visitItems env [e] 0 place v = .error (.tooDeep env.limit) := by
      rw [visitItems, h (place.child 0)]
      · rfl
      simp only [height, heightList, level_child] at hdeep ⊢
      omega
    rw [if_neg (by simp [hv]), hitem]
    rfl

theorem Sinks.flattened {e : Expr} (h : Sinks env v e) : ∀ n, Sinks env v (flattened n e) := by
  intro n
  induction n with
  | zero => exact h
  | succ n ih =>
    rw [flattened_succ]
    exact ih.flatten

theorem sinks_tower (hv : v.isNull = false) : ∀ n, Sinks env v (tower n) := by
  intro n
  induction n with
  | zero => exact sinks_current
  | succ n ih => exact (ih.list hv).flattened (n + 1)

theorem evaluate_tower {n : Nat} (hv : v.isNull = false) (h : env.limit < highest (n + 1)) :
    evaluate env (tower n) v = .error (.tooDeep env.limit) := by
  rw [evaluate, sinks_tower hv n .root (by simpa [height_tower, Place.root] using h)]
  rfl

theorem lt_highest : ∀ n, n + 2 < highest (n + 2) := by
  intro n
  induction n with
  | zero => decide
  | succ n ih =>
    rw [highest]
    omega

theorem two_mul_highest_toNat {limit : Int} (h : 1 ≤ limit) :
    2 * (highest limit.toNat : Int) = limit * (limit + 1) := by
  obtain ⟨n, rfl⟩ : ∃ n : Nat, limit = n := ⟨limit.toNat, by omega⟩
  have := two_mul_highest n
  exact_mod_cast this

/-- A tower has one stage too many for the limit that its text is accepted under, unless that is 1. -/
theorem tower_too_deep {limit : Int} (h : 1 < limit) : ∃ text e, parse text limit = .ok e ∧ limit < e.height ∧
    evaluate (.plain Builtin.table limit) e (.int 1) = .error (.tooDeep limit) := by
  obtain ⟨n, rfl⟩ : ∃ n : Nat, limit = (n + 2 : Nat) := ⟨(limit - 2).toNat, by omega⟩
  have hdeep : ((n + 2 : Nat) : Int) < highest (n + 2) := by exact_mod_cast lt_highest n
  refine ⟨towerText (n + 1), tower (n + 1), parse_tower (n + 1), ?_, evaluate_tower rfl hdeep⟩
  rw [height_tower]
  exact hdeep

/-- That every tree that is accepted under a limit is no higher than the limit is so just for 1, and so is
    that its evaluation is never too deep, with stack enough. It may be as high as a triangular number of the limit but
    no higher, and on any machine it can be evaluated under every limit of at least its own height, unless the stack
    gives out. -/
theorem parse_then_evaluate {limit : Int} (hlimit : 1 ≤ limit) :
    ((∀ text e, parse text limit = .ok e → e.height ≤ limit) ↔ limit = 1) ∧
    ((∀ text e, parse text limit = .ok e → ∀ document,
        Shallow (evaluate (.plain Builtin.table limit) e document)) ↔
      limit = 1) ∧
    (∀ text e, parse text limit = .ok e → 2 * (e.height : Int) ≤ limit * (limit + 1) ∧
      ∀ (stack : EvaluatorStack) (other : Int), e.height ≤ other → ∀ document,
        Shallow (evaluate (.plainOn stack Builtin.table other) e document) ∨
          ∃ err, evaluate (.plainOn stack Builtin.table other) e document = .error err ∧ stack.Fails other err) ∧
    ∃ text e, parse text limit = .ok e ∧ 2 * (e.height : Int) = limit * (limit + 1) := by
  have hbound := two_mul_highest_toNat hlimit
  have height_le_one {text : String} {e : Expr} (he : parse text 1 = .ok e) : (e.height : Int) ≤ 1 := by
    exact_mod_cast parse_height he
  refine ⟨⟨fun h => ?_, ?_⟩, ⟨fun h => ?_, ?_⟩, fun text e he =>
    ⟨?_, fun stack other ho => evaluate_shallow_or ofBuiltins_table stack ho⟩, ?_⟩
  · by_contra hne
    obtain ⟨text, e, he, hdeep, -⟩ := tower_too_deep (show 1 < limit by omega)
    exact absurd (h text e he) (by omega)
  · rintro rfl text e he
    exact height_le_one he
  · by_contra hne
    obtain ⟨text, e, he, -, hfail⟩ := tower_too_deep (show 1 < limit by omega)
    exact h text e he (.int 1) _ hfail rfl
  · rintro rfl text e he
    exact evaluate_shallow_of_height ofBuiltins_table (height_le_one he)
  · have hheight := parse_height he
    omega
  · obtain ⟨n, rfl⟩ : ∃ n : Nat, limit = (n + 1 : Nat) := ⟨(limit - 1).toNat, by omega⟩
    refine ⟨towerText n, tower n, parse_tower n, ?_⟩
    rw [height_tower]
    exact hbound

/-- Under a limit of 2 some text is accepted whose tree has three levels. -/
theorem parse_then_evaluate_two : ∃ text e, parse text 2 = .ok e ∧ e.height = 3 := by
  obtain ⟨text, e, he, hheight⟩ := (parse_then_evaluate (show (1 : Int) ≤ 2 by decide)).2.2.2
  exact ⟨text, e, he, by omega⟩

/-- A list of the current value, flattened: it passes the check under a limit of 2 and is too deep for it. -/
theorem search_flattened_list : check "[@][]" 2 = .ok none ∧ (∃ e, parse "[@][]" 2 = .ok e ∧ e.height = 3) ∧
    search "[@][]" (.int 1) 2 = .error (.evaluation (.tooDeep 2)) := by
  have htext : towerText 1 = "[@][]" := by decide
  have hparse : parse "[@][]" 2 = .ok (tower 1) := htext ▸ parse_tower 1
  have hdeep : evaluate (.plain Builtin.table 2) (tower 1) (.int 1) = .error (.tooDeep 2) :=
    evaluate_tower rfl (by decide)
  refine ⟨by rw [check, hparse], ⟨tower 1, hparse, rfl⟩, ?_⟩
  rw [search_eq, hparse]
  dsimp only
  rw [hdeep]
  rfl

end JsonQuery.Expr
