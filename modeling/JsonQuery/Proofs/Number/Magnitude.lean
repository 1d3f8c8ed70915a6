import JsonQuery.Number.Numeral
import JsonQuery.Proofs.Number.Range
import Mathlib.Algebra.Order.Field.Basic
import Mathlib.Algebra.Order.Field.Rat
import Mathlib.Algebra.Order.GroupWithZero.Lex

/-! Magnitudes. A decimal that is rounded to a double becomes an infinity just if its exact magnitude reaches half a
    step above the largest double; that powers of ten are not computed for exponents out of range makes no
    difference. So a numeral stands for a finite number unless it has a fraction or an exponent and is as large as
    that. -/

namespace JsonQuery

namespace Double

variable {digits : Nat} {exponent : Int}

theorem leastOverflow_pos : 0 < leastOverflow := by decide +kernel

theorem leastOverflow_le : leastOverflow ≤ 10 ^ 311 := by decide +kernel

/-- The power is kept as a variable, since its value has hundreds of digits. -/
theorem leastOverflow_le_pow {k : Nat} (hk : 311 ≤ k) : leastOverflow ≤ 10 ^ k := by
  obtain ⟨n, hn⟩ : ∃ n, n = 311 := ⟨_, rfl⟩
  have hbound : leastOverflow ≤ 10 ^ n := hn ▸ leastOverflow_le
  exact Nat.le_trans hbound (Nat.pow_le_pow_right (by decide) (hn ▸ hk))

/-- Past the greatest exponent every decimal but zero reaches the bound. -/
theorem leastOverflow_le_of_huge (hdigits : digits ≠ 0) (h : 310 < exponent) :
    (leastOverflow : ℚ) ≤ digits * 10 ^ exponent := by
  have hone : (1 : ℚ) ≤ digits := Nat.one_le_cast.2 (Nat.pos_of_ne_zero hdigits)
  obtain ⟨k, hk⟩ : ∃ k, k = 311 := ⟨_, rfl⟩
  have hbound : leastOverflow ≤ 10 ^ k := leastOverflow_le_pow (Nat.le_of_eq hk.symm)
  calc (leastOverflow : ℚ)
    _ ≤ 10 ^ (k : Int) := by
      rw [zpow_natCast]
      exact_mod_cast hbound
    _ ≤ 10 ^ exponent := zpow_le_zpow_right₀ (by norm_num) (by omega)
    _ ≤ digits * 10 ^ exponent := le_mul_of_one_le_left (zpow_nonneg (by norm_num) _) hone

/-- Where the exponent makes up for all the digits a decimal is below one. -/
theorem lt_one_of_tiny (h : exponent < -(Nat.toDigits 10 digits).length) : (digits : ℚ) * 10 ^ exponent < 1 := by
  have hten : (0 : ℚ) < 10 := by norm_num
  have hlength : 0 < (Nat.toDigits 10 digits).length := List.length_pos_iff.2 Nat.toDigits_ne_nil
  have hdigits : digits < 10 ^ (Nat.toDigits 10 digits).length :=
    (Nat.length_toDigits_le_iff (by decide) hlength).1 le_rfl
  generalize (Nat.toDigits 10 digits).length = n at *
  calc (digits : ℚ) * 10 ^ exponent
    _ ≤ 10 ^ (n : Int) * 10 ^ exponent := by
      refine mul_le_mul_of_nonneg_right ?_ (zpow_nonneg hten.le _)
      rw [zpow_natCast]
      exact_mod_cast hdigits.le
    _ = 10 ^ ((n : Int) + exponent) := (zpow_add₀ hten.ne' _ _).symm
    _ < 10 ^ (0 : Int) := zpow_lt_zpow_right₀ (by norm_num) (by omega)
    _ = 1 := zpow_zero 10

/-- A decimal is rounded to a finite double just if its magnitude is below the bound. -/
theorem isFinite_ofDecimal (negative : Bool) (digits : Nat) (exponent : Int) :
    (ofDecimal negative digits exponent).isFinite = true ↔ (digits : ℚ) * 10 ^ exponent < leastOverflow := by
  have hone : (1 : ℚ) ≤ leastOverflow := Nat.one_le_cast.2 leastOverflow_pos
  unfold ofDecimal
  split
  next hzero =>
    rw [hzero, Nat.cast_zero, zero_mul]
    exact iff_of_true rfl (zero_lt_one.trans_le hone)
  next hdigits =>
    split
    next hhuge => exact iff_of_false nofun (not_lt.2 (leastOverflow_le_of_huge hdigits hhuge))
    next =>
      split
      next htiny => exact iff_of_true rfl ((lt_one_of_tiny (by omega)).trans_le hone)
      next =>
        split
        next k _ _ =>
          have hcast : (digits : ℚ) * 10 ^ Int.ofNat k = (digits * 10 ^ k : Nat) := by
            rw [Int.ofNat_eq_natCast, zpow_natCast, Nat.cast_mul, Nat.cast_pow, Nat.cast_ofNat]
          rw [isFinite_ofRatio _ _ Nat.one_pos, Nat.mul_one, hcast, Nat.cast_lt]
          exact Nat.mul_lt_mul_right units_pos
        next k _ _ =>
          have hpower : (0 : ℚ) < 10 ^ (k + 1) := pow_pos (by norm_num) _
          have hden : 0 < Nat.pow 10 (k + 1) := Nat.pow_pos (show 0 < 10 by decide)
          have hcast : (leastOverflow : ℚ) * 10 ^ (k + 1) = (leastOverflow * 10 ^ (k + 1) : Nat) := by
            rw [Nat.cast_mul, Nat.cast_pow, Nat.cast_ofNat]
          rw [isFinite_ofRatio _ _ hden, zpow_negSucc, mul_inv_lt_iff₀ hpower, hcast, Nat.cast_lt,
            Nat.mul_right_comm]
          exact Nat.mul_lt_mul_right units_pos

theorem ofPair_finite_or_infinite (negative : Bool) (m e : Nat) :
    (ofPair negative m e).isFinite = true ∨ ofPair negative m e = .infinite negative := by
  unfold ofPair
  split
  next => exact .inl rfl
  next => exact .inr rfl

theorem ofRatio_finite_or_infinite (negative : Bool) (num den : Nat) :
    (ofRatio negative num den).isFinite = true ∨ ofRatio negative num den = .infinite negative := by
  simp only [ofRatio]
  split
  next => exact ofPair_finite_or_infinite negative _ _
  next => exact ofPair_finite_or_infinite negative _ _

/-- A decimal that is not rounded to a finite double is rounded to the infinity with its sign. -/
theorem ofDecimal_finite_or_infinite (negative : Bool) (digits : Nat) (exponent : Int) :
    (ofDecimal negative digits exponent).isFinite = true ∨
      ofDecimal negative digits exponent = .infinite negative := by
  unfold ofDecimal
  split_ifs
  · exact .inl rfl
  · exact .inr rfl
  · exact .inl rfl
  · split
    next => exact ofRatio_finite_or_infinite negative _ _
    next => exact ofRatio_finite_or_infinite negative _ _

end Double

namespace Numeral

/-- The exact magnitude that a numeral spells. -/
def magnitude (n : Numeral) : ℚ :=
  digitsValue (n.whole ++ n.fraction) * 10 ^ (n.exponent.getD 0 - n.fraction.length)

/-- A numeral stands for an integer, or for a double that is finite just if the magnitude is below the bound. -/
theorem isFinite_value (n : Numeral) :
    n.value.isFinite = true ↔ (n.fraction = [] ∧ n.exponent = none) ∨ n.magnitude < Double.leastOverflow := by
  rw [value]
  split
  next h => exact iff_of_true rfl (.inl h)
  next h =>
    rw [or_iff_right h]
    exact Double.isFinite_ofDecimal _ _ _

/-- A number that is not finite is the infinity with the sign of its numeral. -/
theorem value_finite_or_infinite (n : Numeral) :
    n.value.isFinite = true ∨ n.value = .double (.infinite n.negative) := by
  unfold value
  split
  next => exact .inl rfl
  next => exact (Double.ofDecimal_finite_or_infinite _ _ _).imp id (congrArg Number.double)

end Numeral
end JsonQuery
