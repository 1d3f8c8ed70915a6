import JsonQuery.Json.Basic
import JsonQuery.Proofs.Json.Members
import JsonQuery.Proofs.Number.Exact

/-! Equality of values, as queries see it. Two arrays are equal if they have equal items at every place, and two objects
    if they have equal values under every key, wherever the keys stand; numbers are equal if they have one exact value.
    So arrays and objects are both taken for what they hold and where, and one argument about what is held serves both.
    Among values without NaNs equality is an equivalence, it tells kinds and truth apart, and whatever holds equal
    values in the same places is equal. -/

namespace JsonQuery.Value

variable {ρ : Type}

/-- A value that equality is meant for: no number in it is a NaN, and no object has a key twice. -/
inductive Proper : Value ρ → Prop
  | null : Proper null
  | bool (b : Bool) : Proper (bool b)
  | number {n : Number} : n ≠ .double .nan → Proper (number n)
  | string (s : String) : Proper (string s)
  | array {items : List (Value ρ)} : (∀ x ∈ items, Proper x) → Proper (array items)
  | object {members : Members (Value ρ)} : members.Distinct → (∀ p ∈ members, Proper p.2) → Proper (object members)
  | reference (r : ρ) : Proper (reference r)

variable {u v w : Value ρ} {xs ys : List (Value ρ)} {ms ns : Members (Value ρ)}

theorem Proper.item (h : (Value.array xs).Proper) {i : Nat} (hx : xs[i]? = some v) : v.Proper := by
  cases h with
  | array h => exact h v (List.mem_of_getElem? hx)

theorem Proper.distinct (h : (Value.object ms).Proper) : ms.Distinct := by
  cases h with
  | object h _ => exact h

theorem Proper.member (h : (Value.object ms).Proper) {key : String} (hv : ms.get? key = some v) : v.Proper := by
  cases h with
  | object _ h => exact h (key, v) (Members.mem_of_get? hv)

variable [BEq ρ]

/-- Queries take two values for equal. -/
def Equal (v w : Value ρ) : Prop := v.equals w = true

/-! ### Values that are held -/

theorem rel_none_iff {α β : Type} {r : α → β → Prop} {a : Option α} {b : Option β} (h : Option.Rel r a b) :
    a = none ↔ b = none := by
  cases h with
  | some _ => exact ⟨nofun, nofun⟩
  | none => exact ⟨fun _ => rfl, fun _ => rfl⟩

theorem exists_of_rel_some {α β : Type} {r : α → β → Prop} {a : α} {b : Option β} (h : Option.Rel r (some a) b) :
    ∃ c, b = some c ∧ r a c := by
  cases h with
  | some h => exact ⟨_, rfl, h⟩

/-! ### Arrays and objects -/

/-- Arrays are equal if they have equal items at every place. -/
theorem equal_array : (array xs).Equal (array ys) ↔ ∀ i : Nat, Option.Rel Equal xs[i]? ys[i]? := by
  rw [Equal, equals]
  induction xs generalizing ys with
  | nil =>
    cases ys with
    | nil => exact ⟨fun _ _ => .none, fun _ => by rw [equalItems]⟩
    | cons y ys => exact ⟨fun h => by simp [equalItems] at h, fun h => nomatch h 0⟩
  | cons x xs ih =>
    cases ys with
    | nil => exact ⟨fun h => by simp [equalItems] at h, fun h => nomatch h 0⟩
    | cons y ys =>
      rw [equalItems, Bool.and_eq_true, ih]
      constructor
      · rintro ⟨hxy, hrest⟩ (_ | i)
        · exact .some hxy
        · exact hrest i
      · intro h
        have hxy : Option.Rel Equal (some x) (some y) := h 0
        cases hxy with
        | some hxy => exact ⟨hxy, fun i => h (i + 1)⟩

theorem equalMembers_iff :
    equalMembers ms ns = true ↔ ∀ p ∈ ms, ∃ w, ns.get? p.1 = some w ∧ p.2.Equal w := by
  induction ms with
  | nil => exact ⟨fun _ => nofun, fun _ => by rw [equalMembers]⟩
  | cons p ms ih =>
    rw [equalMembers, Bool.and_eq_true, ih, List.forall_mem_cons]
    refine and_congr_left fun _ => ?_
    cases ns.get? p.1 with
    | none => exact ⟨nofun, nofun⟩
    | some w => exact ⟨fun h => ⟨w, rfl, h⟩, fun ⟨_, hw, h⟩ => Option.some.inj hw ▸ h⟩

/-- Objects are equal if they have equal values under every key, wherever the keys stand. -/
theorem equal_object (hms : ms.Distinct) (hns : ns.Distinct) :
    (object ms).Equal (object ns) ↔ ∀ key, Option.Rel Equal (ms.get? key) (ns.get? key) := by
  rw [Equal, equals, Bool.and_eq_true, beq_iff_eq, equalMembers_iff]
  constructor
  · rintro ⟨hlength, hvalues⟩ key
    have hsub : ms.keys ⊆ ns.keys := fun k hk => by
      obtain ⟨p, hp, rfl⟩ := List.mem_map.1 hk
      obtain ⟨w, hw, -⟩ := hvalues p hp
      exact Members.mem_keys_of_get? hw
    -- all keys of the one are keys of the other, which has no more of them
    have hkeys := Members.keys_perm_of_subset hms hsub hlength.ge
    cases hv : ms.get? key with
    | none =>
      rw [Members.get?_eq_none.2 (mt hkeys.mem_iff.2 (Members.get?_eq_none.1 hv))]
      exact .none
    | some v =>
      obtain ⟨w, hw, hvw⟩ := hvalues (key, v) (Members.mem_of_get? hv)
      rw [show ns.get? key = some w from hw]
      exact .some hvw
  · intro h
    have hkeys : ms.keys.Perm ns.keys := by
      refine (List.perm_ext_iff_of_nodup hms hns).2 fun key => ?_
      rw [← not_iff_not]
      exact Members.get?_eq_none.symm.trans ((rel_none_iff (h key)).trans Members.get?_eq_none)
    refine ⟨by simpa [Members.keys] using hkeys.length_eq, fun p hp => ?_⟩
    have hkey := h p.1
    rw [Members.get?_of_mem hms hp] at hkey
    exact exists_of_rel_some hkey

/-! ### Kind and truth -/

theorem Equal.kind_eq (h : v.Equal w) : v.kind = w.kind := by
  cases v <;> cases w <;> first | rfl | simp [Equal, equals] at h

theorem Equal.isTruthy_eq (h : v.Equal w) : v.isTruthy = w.isTruthy := by
  cases v <;> cases w
  case bool.bool a b => exact beq_iff_eq.1 h
  case string.string s t => rw [isTruthy, isTruthy, beq_iff_eq.1 h]
  case array.array xs ys =>
    have hempty : xs = [] ↔ ys = [] := by
      rw [← List.head?_eq_none_iff, ← List.head?_eq_none_iff, List.head?_eq_getElem?, List.head?_eq_getElem?]
      exact rel_none_iff (equal_array.1 h 0)
    rw [isTruthy, isTruthy, Bool.not_inj_iff, Bool.eq_iff_iff, List.isEmpty_iff, List.isEmpty_iff, hempty]
  case object.object ms ns =>
    rw [Equal, equals, Bool.and_eq_true, beq_iff_eq] at h
    have hempty : ms = [] ↔ ns = [] := by
      rw [← List.length_eq_zero_iff, h.1, List.length_eq_zero_iff]
    rw [isTruthy, isTruthy, Bool.not_inj_iff, Bool.eq_iff_iff, List.isEmpty_iff, List.isEmpty_iff, hempty]
  all_goals first | rfl | cases h.kind_eq

/-! ### An equivalence -/

theorem Proper.equal_self [ReflBEq ρ] (h : v.Proper) : v.Equal v := by
  induction h with
  | null => rfl
  | bool b => exact beq_self_eq_true b
  | string s => exact beq_self_eq_true s
  | reference r => exact beq_self_eq_true r
  | number hn =>
    obtain ⟨v, hv⟩ := Number.exactValue?_ne_none hn
    exact (Number.equals_iff _ _).2 ⟨v, hv, hv⟩
  | @array xs _ ih =>
    refine equal_array.2 fun i => ?_
    cases hx : xs[i]? with
    | none => exact .none
    | some x => exact .some (ih x (List.mem_of_getElem? hx))
  | @object ms hms _ ih =>
    refine (equal_object hms hms).2 fun key => ?_
    cases hv : ms.get? key with
    | none => exact .none
    | some v => exact .some (ih (key, v) (Members.mem_of_get? hv))

/-- What it takes for two values to be equal. -/
inductive EqualCase : Value ρ → Value ρ → Prop
  | null : EqualCase null null
  | bool (b : Bool) : EqualCase (bool b) (bool b)
  | number {a b : Number} {x : WithBot (WithTop ℚ)} : a.exactValue? = some x → b.exactValue? = some x →
    EqualCase (number a) (number b)
  | string (s : String) : EqualCase (string s) (string s)
  | array {xs ys : List (Value ρ)} : (∀ i : Nat, Option.Rel Equal xs[i]? ys[i]?) → EqualCase (array xs) (array ys)
  | object {ms ns : Members (Value ρ)} : (∀ key, Option.Rel Equal (ms.get? key) (ns.get? key)) →
    EqualCase (object ms) (object ns)
  | reference (r : ρ) : EqualCase (reference r) (reference r)

theorem equal_iff [LawfulBEq ρ] (hv : v.Proper) (hw : w.Proper) : v.Equal w ↔ EqualCase v w := by
  cases v <;> cases w
  case null.null => exact ⟨fun _ => .null, fun _ => rfl⟩
  case bool.bool a b => exact ⟨fun h => beq_iff_eq.1 h ▸ .bool a, fun | .bool b => beq_self_eq_true b⟩
  case number.number a b =>
    refine (Number.equals_iff a b).trans ⟨fun ⟨x, ha, hb⟩ => .number ha hb, fun h => ?_⟩
    cases h with
    | number ha hb => exact ⟨_, ha, hb⟩
  case string.string s t => exact ⟨fun h => beq_iff_eq.1 h ▸ .string s, fun | .string s => beq_self_eq_true s⟩
  case array.array xs ys => exact equal_array.trans ⟨.array, fun | .array h => h⟩
  case object.object ms ns => exact (equal_object hv.distinct hw.distinct).trans ⟨.object, fun | .object h => h⟩
  case reference.reference r s =>
    exact ⟨fun h => beq_iff_eq.1 h ▸ .reference r, fun | .reference r => beq_self_eq_true r⟩
  all_goals exact ⟨fun h => (nomatch h.kind_eq), fun h => (nomatch h)⟩

theorem rel_euclidean {a b c : Option (Value ρ)} (hab : Option.Rel Equal a b) (hcb : Option.Rel Equal c b)
    (h : ∀ x y z, a = some x → b = some y → c = some z → x.Equal y → z.Equal y → x.Equal z) :
    Option.Rel Equal a c := by
  cases hab with
  | none =>
    cases hcb
    exact .none
  | some hxy =>
    cases hcb with
    | some hzy => exact .some (h _ _ _ rfl rfl rfl hxy hzy)

/-- Values that are equal to a third are equal to each other. -/
theorem Equal.euclidean [LawfulBEq ρ] (hu : u.Proper) (hv : v.Proper) (hw : w.Proper) (huv : u.Equal v)
    (hwv : w.Equal v) : u.Equal w := by
  -- equality follows the value on its left, so the induction is on that of the two outer values which ends up there
  induction hu generalizing v w with
  | null =>
    cases (equal_iff .null hv).1 huv
    cases (equal_iff hw hv).1 hwv
    exact huv
  | bool b =>
    cases (equal_iff (.bool b) hv).1 huv
    cases (equal_iff hw hv).1 hwv
    exact huv
  | string s =>
    cases (equal_iff (.string s) hv).1 huv
    cases (equal_iff hw hv).1 hwv
    exact huv
  | reference r =>
    cases (equal_iff (.reference r) hv).1 huv
    cases (equal_iff hw hv).1 hwv
    exact huv
  | number hn =>
    cases (equal_iff (.number hn) hv).1 huv with
    | number ha hb =>
      cases (equal_iff hw hv).1 hwv with
      | number hc hb' => exact (equal_iff (.number hn) hw).2 (.number ha (hc.trans (hb'.symm.trans hb)))
  | @array xs hxs ih =>
    cases (equal_iff (.array hxs) hv).1 huv with
    | array hxy =>
      cases (equal_iff hw hv).1 hwv with
      | array hzy =>
        refine equal_array.2 fun i => rel_euclidean (hxy i) (hzy i) fun x y z hx hy hz => ?_
        exact ih x (List.mem_of_getElem? hx) (hv.item hy) (hw.item hz)
  | @object ms hms hvalues ih =>
    cases (equal_iff (.object hms hvalues) hv).1 huv with
    | object hmn =>
      cases (equal_iff hw hv).1 hwv with
      | object hkn =>
        refine (equal_object hms hw.distinct).2 fun key => rel_euclidean (hmn key) (hkn key) fun x y z hx hy hz => ?_
        exact ih (key, x) (Members.mem_of_get? hx) (hv.member hy) (hw.member hz)

theorem Equal.symm [LawfulBEq ρ] (hv : v.Proper) (hw : w.Proper) (h : v.Equal w) : w.Equal v :=
  .euclidean hw hw hv hw.equal_self h

theorem Equal.trans [LawfulBEq ρ] (hu : u.Proper) (hv : v.Proper) (hw : w.Proper) (huv : u.Equal v)
    (hvw : v.Equal w) : u.Equal w := .euclidean hu hv hw huv (hvw.symm hv hw)

/-! ### Replacing what is held -/

/-- An array with an item replaced by an equal value is equal. -/
theorem equal_set [LawfulBEq ρ] (h : (array xs).Proper) {i : Nat} (hi : xs[i]? = some v) (hvw : v.Equal w) :
    (array xs).Equal (array (xs.set i w)) := by
  refine equal_array.2 fun j => ?_
  by_cases hj : i = j
  · subst hj
    rw [List.getElem?_set_self (List.getElem?_eq_some_iff.1 hi).1, hi]
    exact .some hvw
  · rw [List.getElem?_set_ne hj]
    exact equal_array.1 h.equal_self j

/-- An object with the value of a key replaced by an equal value is equal. -/
theorem equal_put [LawfulBEq ρ] (h : (object ms).Proper) {key : String} (hv : ms.get? key = some v)
    (hvw : v.Equal w) : (object ms).Equal (object (ms.put key w)) := by
  refine (equal_object h.distinct (Members.distinct_put w h.distinct)).2 fun key' => ?_
  rw [Members.get?_put]
  by_cases hkey : key = key'
  · rw [if_pos hkey, ← hkey, hv]
    exact .some hvw
  · rw [if_neg hkey]
    exact (equal_object h.distinct h.distinct).1 h.equal_self key'

/-- The order of the keys does not matter. -/
theorem equal_of_perm [LawfulBEq ρ] (h : (object ms).Proper) (hperm : ms.Perm ns) :
    (object ms).Equal (object ns) := by
  refine (equal_object h.distinct (Members.distinct_of_perm h.distinct hperm)).2 fun key => ?_
  rw [← Members.get?_of_perm h.distinct hperm]
  exact (equal_object h.distinct h.distinct).1 h.equal_self key

end JsonQuery.Value
