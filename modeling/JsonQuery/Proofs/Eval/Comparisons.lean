import JsonQuery.Proofs.Eval.Calls
import JsonQuery.Proofs.Json.Equality

/-! Comparisons in queries. A comparison says of the values of its operands what its operator says of them, wherever it
    stands. Equality is an equivalence that whatever holds values respects, so that an array has an item just if it has
    an equal one. Numbers without NaNs are compared as their exact values are, whether they are integers or doubles, so
    equality and the four orders, which are computed apart, are those of one linear order. -/

namespace JsonQuery

variable {ρ : Type}

namespace Comparator

/-- What an operator says of two elements of a linear order. -/
def Relates {α : Type} [LinearOrder α] : Comparator → α → α → Prop
  | .eq, a, b => a = b
  | .ne, a, b => a ≠ b
  | .lt, a, b => a < b
  | .le, a, b => a ≤ b
  | .gt, a, b => b < a
  | .ge, a, b => b ≤ a

/-- One of two elements is below the other, equal to it or above it, and only one of these. -/
theorem existsUnique_relates {α : Type} [LinearOrder α] (a b : α) : ∃! op, op ∈ [lt, eq, gt] ∧ op.Relates a b := by
  have hcases : ∀ op, (op ∈ [lt, eq, gt] ∧ op.Relates a b) ↔
      (op = lt ∧ a < b) ∨ (op = eq ∧ a = b) ∨ op = gt ∧ b < a := by
    intro op
    cases op <;> simp [Relates]
  simp only [hcases]
  rcases lt_trichotomy a b with h | h | h
  · exact ⟨lt, by grind⟩
  · exact ⟨eq, by grind⟩
  · exact ⟨gt, by grind⟩

variable [BEq ρ]

/-- What an operator says of two values is true. -/
def Holds (op : Comparator) (v w : Value ρ) : Prop := op.compare v w = .bool true

/-- An operator says either true or false of two numbers. -/
theorem compare_numbers (op : Comparator) (x y : Number) :
    ∃ b, op.compare (.number x) (.number y : Value ρ) = .bool b := by
  cases op <;> exact ⟨_, rfl⟩

/-- Numbers that are no NaNs are compared as their exact values are. -/
theorem holds_numbers (op : Comparator) {x y : Number} {a b : WithBot (WithTop ℚ)} (hx : x.exactValue? = some a)
    (hy : y.exactValue? = some b) : op.Holds (.number x) (.number y : Value ρ) ↔ op.Relates a b := by
  cases op <;> rw [Holds, compare, Value.bool.injEq]
  case eq => exact Number.equals_iff_eq hx hy
  case ne => rw [Value.equals, Bool.not_eq_true', ← Bool.not_eq_true, Number.equals_iff_eq hx hy, Relates]
  case lt => exact Number.less_iff_lt hx hy
  case le => exact Number.lessEq_iff_le hx hy
  case gt => exact Number.less_iff_lt hy hx
  case ge => exact Number.lessEq_iff_le hy hx

/-- Order is between numbers only. -/
theorem compare_of_not_numbers {v w : Value ρ} (h : v.kind ≠ .number ∨ w.kind ≠ .number) :
    ∀ op ∈ [lt, le, gt, ge], op.compare v w = .null := by
  simp only [List.forall_mem_cons, List.not_mem_nil, false_implies, implies_true, and_true]
  cases v with
  | number a =>
    cases w with
    | number b => exact absurd rfl (h.resolve_left fun h => h rfl)
    | _ => exact ⟨rfl, rfl, rfl, rfl⟩
  | _ => exact ⟨rfl, rfl, rfl, rfl⟩

end Comparator

namespace Expr

variable [BEq ρ] {env : Environment ρ} {place : Place} {l r : Expr} {v : Value ρ}

/-- A comparison evaluates its operands, the left one first. -/
theorem valueAt_comparison (h : ¬ env.limit < place.level + 1) (op : Comparator) (l r : Expr) (v : Value ρ) :
    valueAt env (comparison op l r) place v = (do
      let a ← valueAt env l (place.child 0) v
      let b ← valueAt env r (place.child 1) v
      return op.compare a b) := by
  rw [valueAt, visit, Environment.enter_of h]
  simp only [valueAt, bind_assoc, pure_bind]
  rfl

theorem valueAt_comparison_of_values (op : Comparator) {a b : Value ρ}
    (hl : valueAt env l (place.child 0) v = .ok a) (hr : valueAt env r (place.child 1) v = .ok b) :
    valueAt env (comparison op l r) place v = .ok (op.compare a b) := by
  rw [valueAt_comparison (Place.not_tooDeep_of_child (not_tooDeep_of_valueAt hl)), hl, hr]
  rfl

/-! ### Equality -/

/-- Looking for a value in an array finds any equal item. -/
theorem valueAt_contains (hfunctions : env.functions.HasBuiltins ["contains"]) {xs : List (Value ρ)} {x : Value ρ}
    (hl : valueAt env l (place.child 0) v = .ok (.array xs)) (hr : valueAt env r (place.child 1) v = .ok x)
    (hx : x.kind ≠ .expression) :
    valueAt env (call "contains" [l, r]) place v = .ok (.bool (xs.any fun y => y.equals x)) := by
  have hcontains : Members.get? "contains" env.functions = some (Builtin.binary "contains"
      [.ofKind .array, .ofKind .string] [.any] fun v w => .ok (.bool (Builtin.contains v w))) :=
    hfunctions.get?_of_mem_all (by decide) (by simp only [Builtin.all, List.mem_cons, true_or, or_true]) rfl
  have hvalue : ∀ r, x ≠ .reference r := fun r h => hx (h ▸ rfl)
  rw [valueAt_call_values hcontains hl (Value.array_ne_reference xs) hr hvalue,
    Builtin.invoke_binary _ _ _ _ rfl (Builtin.accepts_any hx)]
  rfl

/-- Equal values have the same equal items among equal items. -/
theorem any_equals_iff [LawfulBEq ρ] {xs ys : List (Value ρ)} {x y : Value ρ} (hxs : (Value.array xs).Proper)
    (hys : (Value.array ys).Proper) (hx : x.Proper) (hy : y.Proper) (hxy : x.Equal y)
    (hitems : (Value.array xs).Equal (.array ys)) (h : (xs.any fun z => z.equals x) = true) :
    (ys.any fun z => z.equals y) = true := by
  obtain ⟨z, hz, hzx⟩ := List.any_eq_true.1 h
  obtain ⟨i, hi⟩ := List.getElem?_of_mem hz
  have hi' := Value.equal_array.1 hitems i
  rw [hi] at hi'
  obtain ⟨w, hw, hzw⟩ := Value.exists_of_rel_some hi'
  have hzp := hxs.item hi
  have hwp := hys.item hw
  exact List.any_eq_true.2 ⟨w, List.mem_of_getElem? hw,
    (hzw.symm hzp hwp).trans hwp hzp hy (.trans hzp hx hy hzx hxy)⟩

/-- Two outcomes that are both the same failure, or true and false. -/
def Opposite (x y : Except EvalError (Value ρ)) : Prop :=
  (∃ failure, x = .error failure ∧ y = .error failure) ∨ ∃ b, x = .ok (.bool b) ∧ y = .ok (.bool !b)

theorem opposite_comparison (env : Environment ρ) (l r : Expr) (place : Place) (v : Value ρ) :
    Opposite (valueAt env (comparison .eq l r) place v) (valueAt env (comparison .ne l r) place v) := by
  by_cases hdeep : env.limit < place.level + 1
  · refine .inl ⟨.tooDeep env.limit, ?_, ?_⟩ <;> rw [valueAt, visit_of_tooDeep hdeep] <;> rfl
  · rw [valueAt_comparison hdeep, valueAt_comparison hdeep]
    cases valueAt env l (place.child 0) v with
    | error failure => exact .inl ⟨failure, rfl, rfl⟩
    | ok a =>
      cases valueAt env r (place.child 1) v with
      | error failure => exact .inl ⟨failure, rfl, rfl⟩
      | ok b => exact .inr ⟨a.equals b, rfl, rfl⟩

/-- The laws of equality in queries. -/
structure EqualityLaws (ρ : Type) [BEq ρ] : Prop where
  /-- Among values without NaNs and repeated keys equality is an equivalence. -/
  equivalence : Equivalence fun v w : {v : Value ρ // v.Proper} => v.1.Equal w.1
  /-- Equal values are of one kind, and both true or both false. -/
  kind_and_truth : ∀ v w : Value ρ, v.Equal w → v.kind = w.kind ∧ v.isTruthy = w.isTruthy
  /-- Objects are equal whatever the order of their keys. -/
  order_of_keys : ∀ ms ns : Members (Value ρ), (Value.object ms).Proper → ms.Perm ns →
    (Value.object ms).Equal (.object ns)
  /-- Arrays are equal just if they have equal items in the same places. -/
  order_of_items : ∀ xs ys : List (Value ρ), (Value.array xs).Equal (.array ys) ↔
    ∀ i : Nat, Option.Rel Value.Equal xs[i]? ys[i]?
  /-- An array is equal to what it is with an item replaced by an equal value. -/
  replaced_item : ∀ (xs : List (Value ρ)) (i : Nat) (v w : Value ρ), (Value.array xs).Proper → xs[i]? = some v →
    v.Equal w → (Value.array xs).Equal (.array (xs.set i w))
  /-- An object is equal to what it is with the value of a key replaced by an equal value. -/
  replaced_value : ∀ (ms : Members (Value ρ)) (key : String) (v w : Value ρ), (Value.object ms).Proper →
    ms.get? key = some v → v.Equal w → (Value.object ms).Equal (.object (ms.put key w))
  /-- What `==` says of two values is whether they are equal. -/
  eq_equals : ∀ (env : Environment ρ) (l r : Expr) (place : Place) (v a b : Value ρ),
    valueAt env l (place.child 0) v = .ok a → valueAt env r (place.child 1) v = .ok b →
    valueAt env (comparison .eq l r) place v = .ok (.bool (a.equals b))
  /-- What `!=` says is the opposite of what `==` says, whatever the operands are. -/
  eq_opposite_ne : ∀ (env : Environment ρ) (l r : Expr) (place : Place) (v : Value ρ),
    Opposite (valueAt env (comparison .eq l r) place v) (valueAt env (comparison .ne l r) place v)
  /-- Looking for equal values among equal items gives the same. -/
  contains_respects : ∀ (env : Environment ρ) (l r l' r' : Expr) (place : Place) (v : Value ρ)
    (xs ys : List (Value ρ)) (x y : Value ρ), env.functions.HasBuiltins ["contains"] →
    valueAt env l (place.child 0) v = .ok (.array xs) → valueAt env r (place.child 1) v = .ok x →
    valueAt env l' (place.child 0) v = .ok (.array ys) → valueAt env r' (place.child 1) v = .ok y →
    (Value.array xs).Proper → (Value.array ys).Proper → x.Proper → y.Proper → x.kind ≠ .expression →
    (Value.array xs).Equal (.array ys) → x.Equal y →
    ∃ b, valueAt env (call "contains" [l, r]) place v = .ok (.bool b) ∧
      valueAt env (call "contains" [l', r']) place v = .ok (.bool b) ∧ (b = true ↔ ∃ z ∈ xs, z.Equal x)

/-- Equality in queries obeys its laws. -/
theorem equalityLaws [LawfulBEq ρ] : EqualityLaws ρ where
  equivalence := ⟨fun v => v.2.equal_self, fun {v w} h => h.symm v.2 w.2, fun {u v w} h h' => h.trans u.2 v.2 w.2 h'⟩
  kind_and_truth _ _ h := ⟨h.kind_eq, h.isTruthy_eq⟩
  order_of_keys _ _ h hperm := Value.equal_of_perm h hperm
  order_of_items _ _ := Value.equal_array
  replaced_item _ _ _ _ h hi hvw := Value.equal_set h hi hvw
  replaced_value _ _ _ _ h hv hvw := Value.equal_put h hv hvw
  eq_equals _ _ _ _ _ _ _ hl hr := valueAt_comparison_of_values .eq hl hr
  eq_opposite_ne := opposite_comparison
  contains_respects env l r l' r' place v xs ys x y hfunctions hl hr hl' hr' hxs hys hx hy hkind hitems hxy := by
    have hkind' : y.kind ≠ .expression := hxy.kind_eq ▸ hkind
    have hsame : (ys.any fun z => z.equals y) = xs.any fun z => z.equals x :=
      Bool.eq_iff_iff.2 ⟨any_equals_iff hys hxs hy hx (hxy.symm hx hy) (hitems.symm hxs hys),
        any_equals_iff hxs hys hx hy hxy hitems⟩
    refine ⟨xs.any fun z => z.equals x, valueAt_contains hfunctions hl hr hkind, ?_, List.any_eq_true⟩
    rw [valueAt_contains hfunctions hl' hr' hkind', hsame]

/-- The double one. -/
def doubleOne : Number := .double (.ofPair false (1 <<< 52) 1022)

/-- The same value under the keys, which come in one order and in the other; equal numbers of both kinds take each
    other's place. -/
theorem equalityLaws_one :
    (Value.object [("a", .array [.int 1]), ("b", .null)] : Json).Equal
      (.object [("b", .null), ("a", .array [.number doubleOne])]) := by
  have hone : (Value.int 1 : Json).Proper := .number nofun
  have hdouble : (Value.number doubleOne : Json).Proper := .number (by decide +kernel)
  have hproper : ∀ {x : Json}, x.Proper → ∀ {ms : Members Json}, ms.Distinct →
      ms.Perm [("b", .null), ("a", .array [x])] → (Value.object ms).Proper := by
    intro x hx ms hms hperm
    refine .object hms fun p hp => ?_
    rcases List.mem_pair.1 (hperm.mem_iff.1 hp) with rfl | rfl
    · exact .null
    · exact .array (List.forall_mem_singleton.2 hx)
  have hwhole : (Value.object [("a", .array [.int 1]), ("b", .null)] : Json).Proper :=
    hproper hone (by decide) (List.Perm.swap ..)
  have hturned : (Value.object [("b", .null), ("a", .array [.int 1])] : Json).Proper :=
    hproper hone (by decide) (.refl _)
  have hdoubled : (Value.object [("b", .null), ("a", .array [.number doubleOne])] : Json).Proper :=
    hproper hdouble (by decide) (.refl _)
  have laws : EqualityLaws Empty := equalityLaws
  have hitem := laws.replaced_item [.int 1] 0 _ (.number doubleOne) (.array (List.forall_mem_singleton.2 hone)) rfl
    (show Number.equals (.int 1) doubleOne = true by decide +kernel)
  have horder := laws.order_of_keys _ [("b", .null), ("a", .array [.int 1])] hwhole (List.Perm.swap ..)
  have hvalue := laws.replaced_value _ "a" _ _ hturned rfl hitem
  exact laws.equivalence.trans (x := ⟨_, hwhole⟩) (y := ⟨_, hturned⟩) (z := ⟨_, hdoubled⟩) horder hvalue

/-! ### Order -/

/-- The laws of comparisons of numbers in queries. -/
structure OrderLaws (ρ : Type) [BEq ρ] : Prop where
  /-- A comparison has what its operator says of the values of its operands. -/
  evaluated : ∀ (env : Environment ρ) (op : Comparator) (l r : Expr) (place : Place) (v a b : Value ρ),
    valueAt env l (place.child 0) v = .ok a → valueAt env r (place.child 1) v = .ok b →
    valueAt env (comparison op l r) place v = .ok (op.compare a b)
  /-- What is said of two numbers is true or false. -/
  decided : ∀ (op : Comparator) (x y : Number), ∃ b, op.compare (.number x) (.number y : Value ρ) = .bool b
  /-- Numbers are compared as their exact values are. -/
  exact_values : ∀ (op : Comparator) (x y : Number) (a b : WithBot (WithTop ℚ)), x.exactValue? = some a →
    y.exactValue? = some b → (op.Holds (.number x) (.number y : Value ρ) ↔ op.Relates a b)
  /-- Of two numbers the one is below the other, equal to it or above it, and only one of these. -/
  exactly_one : ∀ x y : Number, x ≠ .double .nan → y ≠ .double .nan →
    ∃! op, op ∈ [Comparator.lt, .eq, .gt] ∧ op.Holds (.number x) (.number y : Value ρ)
  le_iff : ∀ x y : Number, x ≠ .double .nan → y ≠ .double .nan →
    (Comparator.le.Holds (.number x) (.number y : Value ρ) ↔
      Comparator.lt.Holds (.number x) (.number y : Value ρ) ∨ Comparator.eq.Holds (.number x) (.number y : Value ρ))
  ge_iff : ∀ x y : Number, x ≠ .double .nan → y ≠ .double .nan →
    (Comparator.ge.Holds (.number x) (.number y : Value ρ) ↔ Comparator.le.Holds (.number y) (.number x : Value ρ))
  transitive : ∀ op ∈ [Comparator.lt, .eq], ∀ x y z : Number, x ≠ .double .nan → y ≠ .double .nan →
    z ≠ .double .nan → op.Holds (.number x) (.number y : Value ρ) → op.Holds (.number y) (.number z : Value ρ) →
    op.Holds (.number x) (.number z : Value ρ)
  /-- There is no order where one of the values is not a number. -/
  numbers_only : ∀ v w : Value ρ, v.kind ≠ .number ∨ w.kind ≠ .number →
    ∀ op ∈ [Comparator.lt, .le, .gt, .ge], op.compare v w = .null

/-- Comparisons of numbers in queries obey their laws. -/
theorem orderLaws : OrderLaws ρ where
  evaluated _ op _ _ _ _ _ _ hl hr := valueAt_comparison_of_values op hl hr
  decided := Comparator.compare_numbers
  exact_values op _ _ _ _ hx hy := Comparator.holds_numbers op hx hy
  exactly_one x y hx hy := by
    obtain ⟨a, ha⟩ := Number.exactValue?_ne_none hx
    obtain ⟨b, hb⟩ := Number.exactValue?_ne_none hy
    simp only [Comparator.holds_numbers _ ha hb]
    exact Comparator.existsUnique_relates a b
  le_iff x y hx hy := by
    obtain ⟨a, ha⟩ := Number.exactValue?_ne_none hx
    obtain ⟨b, hb⟩ := Number.exactValue?_ne_none hy
    simp only [Comparator.holds_numbers _ ha hb]
    exact le_iff_lt_or_eq
  ge_iff x y hx hy := by
    obtain ⟨a, ha⟩ := Number.exactValue?_ne_none hx
    obtain ⟨b, hb⟩ := Number.exactValue?_ne_none hy
    rw [Comparator.holds_numbers _ ha hb, Comparator.holds_numbers _ hb ha]
    exact Iff.rfl
  transitive op hop x y z hx hy hz hxy hyz := by
    obtain ⟨a, ha⟩ := Number.exactValue?_ne_none hx
    obtain ⟨b, hb⟩ := Number.exactValue?_ne_none hy
    obtain ⟨c, hc⟩ := Number.exactValue?_ne_none hz
    rw [Comparator.holds_numbers _ ha hb] at hxy
    rw [Comparator.holds_numbers _ hb hc] at hyz
    rw [Comparator.holds_numbers _ ha hc]
    simp only [List.mem_cons, List.not_mem_nil, or_false] at hop
    rcases hop with rfl | rfl
    · exact lt_trans hxy hyz
    · exact Eq.trans hxy hyz
  numbers_only _ _ := Comparator.compare_of_not_numbers

/-- From where on not every integer is a double: a double is below the next integer, which is below infinity. -/
theorem orderLaws_past_doubles :
    Comparator.lt.Holds (.number (.double (.finite false (1 <<< 52) 1075 (by decide))) : Json) (.int (2 ^ 53 + 1)) ∧
    Comparator.lt.Holds (.number (.double (.finite false (1 <<< 52) 1075 (by decide))) : Json)
      (.number (.double (.infinite false))) := by
  have hbelow : Comparator.lt.Holds (.number (.double (.finite false (1 <<< 52) 1075 (by decide))) : Json)
      (.int (2 ^ 53 + 1)) := congrArg Value.bool (by decide +kernel)
  have habove : Comparator.lt.Holds (.int (2 ^ 53 + 1) : Json) (.number (.double (.infinite false))) :=
    congrArg Value.bool (by decide +kernel)
  have laws : OrderLaws Empty := orderLaws
  exact ⟨hbelow, laws.transitive .lt (by decide) _ (.int (2 ^ 53 + 1)) _ nofun nofun nofun hbelow habove⟩

end Expr
end JsonQuery
