import JsonQuery.Number.Double
import Mathlib.Algebra.Group.Nat.Defs

/-! The range of the doubles. Rounding stays among the finite doubles up to half a step above the largest of them, and
    goes to an infinity from there on: the number half a step above is a tie, and of its two neighbours the largest
    double has the odd mantissa. So an integer has a double just if its magnitude is below `2^1024 - 2^970`. -/

namespace JsonQuery.Double

/-- The least magnitude that is rounded to an infinity: half a step above the largest double. -/
def leastOverflow : Nat := (1 <<< 54 - 1) <<< 970

theorem units_pos : 0 < unitsPerOne := by
  rw [unitsPerOne, Nat.one_shiftLeft]
  exact Nat.two_pow_pos 1074

/-- The bound in units. -/
theorem leastOverflow_units : leastOverflow * unitsPerOne = (2 ^ 54 - 1) * 2 ^ 2044 := by decide +kernel

example : leastOverflow = 2 ^ 1024 - 2 ^ 970 := by decide +kernel

theorem isFinite_ofPair (negative : Bool) (m e : Nat) :
    (ofPair negative m e).isFinite = true ↔ CanonicalPair m e := by
  unfold ofPair
  split
  next h => exact ⟨fun _ => h, fun _ => rfl⟩
  next h => exact ⟨nofun, fun h' => absurd h' h⟩

/-! ### Rounding -/

theorem roundHalfEven_cases (num den : Nat) :
    (roundHalfEven num den = num / den ∧ 2 * (num % den) ≤ den) ∨
      (roundHalfEven num den = num / den + 1 ∧ den ≤ 2 * (num % den)) := by
  unfold roundHalfEven
  dsimp only
  split
  next h => exact .inl ⟨rfl, by omega⟩
  next h =>
    split
    next h' => exact .inr ⟨rfl, by omega⟩
    next h' =>
      split
      next => exact .inl ⟨rfl, by omega⟩
      next => exact .inr ⟨rfl, by omega⟩

/-- Between an odd number and the next one, which is even, the half is rounded up. -/
theorem roundHalfEven_of_odd {num den : Nat} (hodd : num / den % 2 = 1) :
    roundHalfEven num den = if 2 * (num % den) < den then num / den else num / den + 1 := by
  unfold roundHalfEven
  dsimp only
  rw [if_neg (show ¬ num / den % 2 = 0 by omega), ite_self]

/-- What is rounded to less than an even number is less than that number by more than a half. -/
theorem roundHalfEven_lt_iff {num den k : Nat} (hden : 0 < den) (hk : 0 < k) (heven : k % 2 = 0) :
    roundHalfEven num den < k ↔ 2 * num < (2 * k - 1) * den := by
  have hsplit := Nat.div_add_mod num den
  have hrest := Nat.mod_lt num hden
  have hround := roundHalfEven_cases num den
  have hhalf : (2 * k - 1) * den = 2 * (den * k) - den := by
    rw [Nat.sub_mul, Nat.one_mul, Nat.mul_assoc, Nat.mul_comm k]
  rw [hhalf]
  -- only where the next number is `k` itself does the rest of the division decide
  rcases Nat.lt_trichotomy (num / den + 1) k with hlt | rfl | hgt
  · have hmul : den * (num / den + 2) ≤ den * k := Nat.mul_le_mul_left den hlt
    rw [Nat.mul_add] at hmul
    exact iff_of_true (by omega) (by omega)
  · rw [roundHalfEven_of_odd (by omega), Nat.mul_add]
    split <;> omega
  · have hmul : den * k ≤ den * (num / den) := Nat.mul_le_mul_left den (Nat.le_of_lt_succ hgt)
    exact iff_of_false (by omega) (by omega)

/-! ### Exponents -/

/-- The exponent of a magnitude leaves 53 bits of it, the top one set unless the exponent is 0. -/
theorem exponentOf_bounds (q : Nat) :
    q < 2 ^ (exponentOf q + 53) ∧ (exponentOf q = 0 ∨ 2 ^ (exponentOf q + 52) ≤ q) := by
  rw [exponentOf, Nat.one_shiftLeft]
  split
  next h => exact ⟨h, .inl rfl⟩
  next h =>
    have hq : q ≠ 0 := by omega
    have hlog : 53 ≤ q.log2 := (Nat.le_log2 hq).2 (Nat.le_of_not_lt h)
    rw [show q.log2 - 52 + 53 = q.log2 + 1 by omega, show q.log2 - 52 + 52 = q.log2 by omega]
    exact ⟨Nat.lt_log2_self, .inr (Nat.log2_self_le hq)⟩

/-- The exponent of a quotient cuts it to 53 bits. -/
theorem quotient_bounds (num den : Nat) :
    num / (den <<< exponentOf (num / den)) < 2 ^ 53 ∧
      (exponentOf (num / den) = 0 ∨ 2 ^ 52 ≤ num / (den <<< exponentOf (num / den))) := by
  obtain ⟨hupper, hlower⟩ := exponentOf_bounds (num / den)
  generalize exponentOf (num / den) = e at hupper hlower ⊢
  rw [Nat.shiftLeft_eq, ← Nat.div_div_eq_div_mul]
  constructor
  · rwa [Nat.div_lt_iff_lt_mul (Nat.two_pow_pos e), ← Nat.pow_add, Nat.add_comm]
  · rwa [Nat.le_div_iff_mul_le (Nat.two_pow_pos e), ← Nat.pow_add, Nat.add_comm]

/-! ### Overflow -/

/-- A quotient is rounded to a finite double just if its exponent is not past the greatest one, unless rounding carries
    it there. -/
theorem isFinite_ofRatio_iff_exponent (negative : Bool) (num den : Nat) :
    (ofRatio negative num den).isFinite = true ↔ exponentOf (num / den) < 2045 ∨
      exponentOf (num / den) = 2045 ∧ roundHalfEven num (den <<< exponentOf (num / den)) < 2 ^ 53 := by
  obtain ⟨hupper, hlower⟩ := quotient_bounds num den
  have hround := roundHalfEven_cases num (den <<< exponentOf (num / den))
  rw [ofRatio]
  generalize exponentOf (num / den) = e at *
  generalize roundHalfEven num (den <<< e) = m at *
  split
  next hcarry =>
    rw [isFinite_ofPair, CanonicalPair]
    omega
  next hcarry =>
    rw [isFinite_ofPair, CanonicalPair]
    omega

/-- A quotient is rounded to a finite double just if it is below the bound. -/
theorem isFinite_ofRatio (negative : Bool) (num : Nat) {den : Nat} (hden : 0 < den) :
    (ofRatio negative num den).isFinite = true ↔ num < leastOverflow * unitsPerOne * den := by
  obtain ⟨hupper, hlower⟩ := exponentOf_bounds (num / den)
  rw [isFinite_ofRatio_iff_exponent negative num den]
  generalize exponentOf (num / den) = e at *
  rw [Nat.div_lt_iff_lt_mul hden] at hupper
  rw [Nat.le_div_iff_mul_le hden] at hlower
  -- the power is kept as a variable, since its value has hundreds of digits
  obtain ⟨top, htop⟩ : ∃ top, top = 2044 := ⟨_, rfl⟩
  rw [leastOverflow_units, ← htop, Nat.mul_assoc]
  -- below the greatest exponent all is finite, past it nothing is, and at it the mantissa must not be carried
  rcases Nat.lt_trichotomy e (top + 1) with hlt | rfl | hgt
  · have hpower : 2 ^ (e + 53) ≤ 2 ^ (53 + top) := Nat.pow_le_pow_right (by decide) (by omega)
    have hbound := Nat.mul_le_mul_right den hpower
    rw [Nat.pow_add 2 53 top, Nat.mul_assoc] at hbound
    exact iff_of_true (.inl (by omega)) (by omega)
  · have hstep : den <<< (top + 1) = 2 * (2 ^ top * den) := by
      rw [Nat.shiftLeft_eq, Nat.pow_succ', Nat.mul_comm, Nat.mul_assoc]
    have hpos : 0 < den <<< (top + 1) := by
      rw [Nat.shiftLeft_eq]
      exact Nat.mul_pos hden (Nat.two_pow_pos _)
    have hround : roundHalfEven num (den <<< (top + 1)) < 2 ^ 53 ↔ 2 * num < (2 * 2 ^ 53 - 1) * (den <<< (top + 1)) :=
      roundHalfEven_lt_iff hpos (by decide) (by decide)
    rw [hround, hstep]
    omega
  · have hpower : 2 ^ (54 + top) ≤ 2 ^ (e + 52) := Nat.pow_le_pow_right (by decide) (by omega)
    have hbound := Nat.mul_le_mul_right den hpower
    rw [Nat.pow_add 2 54 top, Nat.mul_assoc] at hbound
    have hlow := hlower.resolve_left (by omega)
    exact iff_of_false (by omega) (by omega)

/-- An integer has no double just if its magnitude reaches the bound. -/
theorem ofInt?_eq_none_iff (n : Int) : ofInt? n = none ↔ leastOverflow ≤ n.natAbs := by
  have hfinite : (ofUnits false (n * unitsPerOne)).isFinite = true ↔ n.natAbs < leastOverflow := by
    rw [ofUnits, isFinite_ofRatio _ _ Nat.one_pos, Nat.mul_one, Int.natAbs_mul, Int.natAbs_natCast]
    exact Nat.mul_lt_mul_right units_pos
  rw [← Nat.not_lt, ← hfinite, ofInt?]
  split
  next h => exact iff_of_false nofun (not_not_intro h)
  next h => exact iff_of_true rfl h

end JsonQuery.Double
