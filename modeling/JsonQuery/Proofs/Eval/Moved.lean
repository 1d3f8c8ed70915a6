import JsonQuery.Proofs.Eval.SideBySide

/-! Evaluation at different places. Where functions hand nothing on, a place counts only by its level, and the
    level only against the limit. So a tree has one meaning at all places at which there is room for it, under
    whatever limits: evaluated side by side at two such places it has equal outcomes. -/

namespace JsonQuery

/-- There is room for a tree of some height at either of two places, each under a limit of its own. -/
def Room (limit limit' : Int) (place place' : Place) (n : Nat) : Prop :=
  (place.level : Int) + n ≤ limit ∧ (place'.level : Int) + n ≤ limit'

namespace Room

variable {limit limit' : Int} {place place' : Place} {n m : Nat}

theorem mono (h : Room limit limit' place place' n) (hm : m ≤ n) : Room limit limit' place place' m := by
  obtain ⟨h, h'⟩ := h
  constructor <;> omega

theorem child (i : Nat) (h : Room limit limit' place place' (n + 1)) (hm : m ≤ n) :
    Room limit limit' (place.child i) (place'.child i) m :=
  ⟨Expr.child_within i h.1 hm, Expr.child_within i h.2 hm⟩

/-- Where there is room neither node is too deep, and its own failures are those that are not of depth. -/
theorem sideBySide (functions : FunctionTable Empty) {cut : EvalError → Prop}
    {R : EvalError → EvalError → Prop} (hR : ∀ e, e.kind? ≠ some .tooDeep → R e e) :
    SideBySide cut R (.plain functions limit) (.plain functions limit') fun n p q => Room limit limit' p q n where
  mono h hm := h.mono hm
  child i h hm := h.child i hm
  turn _ h := h
  node {_ p q _ _} h hx := by
    have hp : ¬ (Machine.plain functions limit).limit < p.level + 1 := Expr.not_too_deep h.1
    have hq : ¬ (Machine.plain functions limit').limit < q.level + 1 := Expr.not_too_deep h.2
    rw [Environment.enter_of hp, Environment.enter_of hq]
    exact hx
  known _ := rfl
  follow r := nomatch r
  zeroStep := hR _ nofun
  looseReference := hR _ nofun
  unknownNode _ := hR _ nofun

end Room

/-- Places of one level go together, whether or not there is room. -/
theorem sideBySide_of_level (functions : FunctionTable Empty) (limit : Int) :
    SideBySide (fun _ => False) Eq (.plain functions limit) (.plain functions limit)
      fun _ p q => p.level = q.level where
  mono hp _ := hp
  child {_ _ p q} i hp _ := congrArg (· + 1) hp
  turn _ hp := hp
  node {_ p q _ _} hp hx := by
    rw [Expr.enter_eq, Expr.enter_eq, hp]
    split
    next => exact .error rfl
    next => exact hx
  known _ := rfl
  follow r := r.elim
  zeroStep := rfl
  looseReference := rfl
  unknownNode _ := rfl

/-- Where functions hand nothing on, places of one level are the same. -/
theorem Expr.visit_of_level (functions : FunctionTable Empty) (limit : Int) (e : Expr) {p q : Place}
    (h : p.level = q.level) (v : Json) :
    visit (.plain functions limit) e p v = visit (.plain functions limit) e q v :=
  Alike.eq_of (visit_follows (sideBySide_of_level functions limit) e v (fun _ _ _ => .of_same rfl) h)
    fun _ _ => id

/-- Where functions hand nothing on, all turns of an evaluation are the same. -/
theorem Expr.visit_turn (functions : FunctionTable Empty) (limit : Int) (e : Expr) (place : Place)
    (numbers : List Nat) (v : Json) :
    visit (.plain functions limit) e (place.turn numbers) v = visit (.plain functions limit) e place v :=
  visit_of_level functions limit e (show (place.turn numbers).level = place.level from rfl) v

/-- A tree has the same meaning at all places at which there is room for it. -/
theorem Expr.visit_moved {functions : FunctionTable Empty} {limit limit' : Int} (e : Expr) {p q : Place}
    (v : Json) (h : Room limit limit' p q e.height) :
    visit (.plain functions limit) e p v = visit (.plain functions limit') e q v :=
  Alike.eq_of (visit_follows (Room.sideBySide functions fun _ _ => rfl) e v (fun _ _ _ => .of_same rfl) h)
    fun _ _ => id

end JsonQuery
