import JsonQuery.Number.Basic
import Mathlib.Algebra.Order.Field.Rat
import Mathlib.Algebra.Order.Field.Basic
import Mathlib.Order.WithBot

/-! Exact values. A number that is not a NaN is a rational or an infinity, whether it is an integer or a double, and
    numbers are compared as these values are: a rank counts in units what the value counts in ones. -/

namespace JsonQuery

theorem Double.unitsPerOne_pos : (0 : ℚ) < Double.unitsPerOne := by
  rw [Double.unitsPerOne, Nat.one_shiftLeft]
  exact Nat.cast_pos.2 (Nat.two_pow_pos 1074)

namespace Number

/-- The exact value of a number: a rational, or an infinity below or above all of them. A NaN has none. -/
def exactValue? : Number → Option (WithBot (WithTop ℚ))
  | .int n => some ((n : ℚ) : WithTop ℚ)
  | .double .nan => none
  | .double (.infinite true) => some ⊥
  | .double (.infinite false) => some (⊤ : WithTop ℚ)
  | .double (.finite negative m e _) =>
    some (((if negative then -1 else 1) * (m * 2 ^ e) / Double.unitsPerOne : ℚ) : WithTop ℚ)

/-- The exact value that a rank stands for. -/
def valueOfRank (r : Int × Int) : WithBot (WithTop ℚ) :=
  if r.1 < 0 then ⊥ else if 0 < r.1 then (⊤ : WithTop ℚ) else ((r.2 / Double.unitsPerOne : ℚ) : WithTop ℚ)

/-- A rank is that of an infinity or counts the units of a finite number. -/
theorem rank?_cases {x : Number} {r : Int × Int} (h : x.rank? = some r) :
    r = (-1, 0) ∨ r = (1, 0) ∨ ∃ u, r = (0, u) := by
  match x with
  | .int n => cases h; exact .inr (.inr ⟨_, rfl⟩)
  | .double (.infinite true) => cases h; exact .inl rfl
  | .double (.infinite false) => cases h; exact .inr (.inl rfl)
  | .double (.finite negative m e _) => cases h; exact .inr (.inr ⟨_, rfl⟩)

theorem exactValue?_eq_rank (x : Number) : x.exactValue? = x.rank?.map valueOfRank := by
  match x with
  | .int n =>
    have hvalue : ((n * Double.unitsPerOne : Int) : ℚ) / Double.unitsPerOne = n := by
      rw [Int.cast_mul, Int.cast_natCast]
      exact mul_div_cancel_right₀ _ Double.unitsPerOne_pos.ne'
    simp only [exactValue?, rank?, Option.map_some, valueOfRank, lt_irrefl, if_false, hvalue]
  | .double .nan => rfl
  | .double (.infinite true) => rfl
  | .double (.infinite false) => rfl
  | .double (.finite negative m e _) =>
    have hvalue : ((m <<< e : Nat) : ℚ) = m * 2 ^ e := by
      rw [Nat.shiftLeft_eq, Nat.cast_mul, Nat.cast_pow, Nat.cast_ofNat]
    simp only [exactValue?, rank?, Double.units?, Option.map_some, valueOfRank, lt_irrefl, if_false]
    cases negative
    · rw [if_neg (by decide), if_neg (by decide), Int.cast_natCast, hvalue, one_mul]
    · rw [if_pos rfl, if_pos rfl, Int.cast_neg, Int.cast_natCast, hvalue, neg_one_mul]

/-- Ranks are in the order of the values that they stand for. -/
theorem compare_rank {x y : Number} {a b : Int × Int} (ha : x.rank? = some a) (hb : y.rank? = some b) :
    (compare a.1 b.1).then (compare a.2 b.2) = .lt ↔ valueOfRank a < valueOfRank b := by
  have hunits : ∀ u w : Int, (u : ℚ) / Double.unitsPerOne < w / Double.unitsPerOne ↔ u < w := fun u w => by
    rw [div_lt_div_iff_of_pos_right Double.unitsPerOne_pos, Int.cast_lt]
  have hbelow : compare (-1 : Int) 0 = .lt ∧ compare (0 : Int) 1 = .lt ∧ compare (-1 : Int) 1 = .lt := by decide
  have habove : compare (0 : Int) (-1) = .gt ∧ compare (1 : Int) 0 = .gt ∧ compare (1 : Int) (-1) = .gt := by decide
  have hfinite : ∀ q : ℚ, ((q : WithTop ℚ) : WithBot (WithTop ℚ)) < ⊤ := fun q =>
    WithBot.coe_lt_coe.2 (WithTop.coe_lt_top q)
  rcases rank?_cases ha with rfl | rfl | ⟨u, rfl⟩ <;> rcases rank?_cases hb with rfl | rfl | ⟨w, rfl⟩ <;>
    simp [valueOfRank, hunits, hbelow, habove, hfinite, compare_lt_iff_lt]

/-- Two numbers have one rank just if they have one value. -/
theorem compare_rank_eq {x y : Number} {a b : Int × Int} (ha : x.rank? = some a) (hb : y.rank? = some b) :
    (compare a.1 b.1).then (compare a.2 b.2) = .eq ↔ valueOfRank a = valueOfRank b := by
  have hunits : ∀ u w : Int, (u : ℚ) / Double.unitsPerOne = w / Double.unitsPerOne ↔ u = w := fun u w => by
    rw [div_left_inj' Double.unitsPerOne_pos.ne', Rat.intCast_inj]
  rcases rank?_cases ha with rfl | rfl | ⟨u, rfl⟩ <;> rcases rank?_cases hb with rfl | rfl | ⟨w, rfl⟩ <;>
    simp [valueOfRank, hunits, Ordering.then_eq_eq]

/-- One number is below another just if its exact value is; a NaN is not below anything, nor anything below it. -/
theorem less_iff (x y : Number) :
    x.less y = true ↔ ∃ v w, x.exactValue? = some v ∧ y.exactValue? = some w ∧ v < w := by
  rw [exactValue?_eq_rank, exactValue?_eq_rank, less, compare?]
  cases hx : x.rank? with
  | none => simp
  | some a =>
    cases hy : y.rank? with
    | none => simp
    | some b => simp [compare_rank hx hy]

/-- Two numbers are equal just if they have one exact value; a NaN is not equal to anything. -/
theorem equals_iff (x y : Number) :
    x.equals y = true ↔ ∃ v, x.exactValue? = some v ∧ y.exactValue? = some v := by
  rw [exactValue?_eq_rank, exactValue?_eq_rank, equals, compare?]
  cases hx : x.rank? with
  | none => simp
  | some a =>
    cases hy : y.rank? with
    | none => simp
    | some b =>
      simp only [Option.map_some, Option.some.injEq, beq_iff_eq, compare_rank_eq hx hy]
      exact ⟨fun h => ⟨_, rfl, h.symm⟩, fun ⟨_, hv, hw⟩ => hv.trans hw.symm⟩

section
variable {x y : Number} {v w : WithBot (WithTop ℚ)}

theorem equals_iff_eq (hx : x.exactValue? = some v) (hy : y.exactValue? = some w) : x.equals y = true ↔ v = w := by
  rw [equals_iff, hx, hy]
  exact ⟨fun ⟨_, hv, hw⟩ => Option.some.inj (hv.trans hw.symm), fun h => ⟨v, rfl, by rw [h]⟩⟩

theorem less_iff_lt (hx : x.exactValue? = some v) (hy : y.exactValue? = some w) : x.less y = true ↔ v < w := by
  rw [less_iff, hx, hy]
  exact ⟨fun ⟨_, _, hv, hw, h⟩ => by rwa [Option.some.inj hv, Option.some.inj hw], fun h => ⟨v, w, rfl, rfl, h⟩⟩

theorem lessEq_iff_le (hx : x.exactValue? = some v) (hy : y.exactValue? = some w) : x.lessEq y = true ↔ v ≤ w := by
  rw [lessEq, Bool.or_eq_true, less_iff_lt hx hy, equals_iff_eq hx hy, le_iff_lt_or_eq]

end

theorem exactValue?_ne_none {x : Number} (h : x ≠ .double .nan) : ∃ v, x.exactValue? = some v := by
  match x with
  | .int n => exact ⟨_, rfl⟩
  | .double .nan => exact absurd rfl h
  | .double (.infinite true) | .double (.infinite false) => exact ⟨_, rfl⟩
  | .double (.finite negative m e _) => exact ⟨_, rfl⟩

end Number
end JsonQuery
