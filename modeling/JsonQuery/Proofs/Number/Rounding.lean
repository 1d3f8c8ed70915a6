import JsonQuery.Number.Shortest

/-! Rounding to a double. The double nearest to a quotient depends on the quotient alone, not on how it is
    written, and a double is the nearest to itself. So a decimal of which the digits end in zeros stands for
    the same double as without them, and the shortest decimal of a double reads back as the double. -/

namespace JsonQuery.Double

/-! ### Quotients -/

theorem roundHalfEven_mul {k : Nat} (hk : 0 < k) (num den : Nat) :
    roundHalfEven (num * k) (den * k) = roundHalfEven num den := by
  have hbelow : 2 * (num % den * k) < den * k ↔ 2 * (num % den) < den := by
    rw [← Nat.mul_assoc]
    exact Nat.mul_lt_mul_right hk
  have habove : den * k < 2 * (num % den * k) ↔ den < 2 * (num % den) := by
    rw [← Nat.mul_assoc]
    exact Nat.mul_lt_mul_right hk
  simp only [roundHalfEven, Nat.mul_div_mul_right num den hk, Nat.mul_mod_mul_right, hbelow, habove]

theorem roundHalfEven_exact (q : Nat) {den : Nat} (hden : 0 < den) : roundHalfEven (q * den) den = q := by
  simp only [roundHalfEven, Nat.mul_div_cancel q hden, Nat.mul_mod_left, Nat.mul_zero, hden, if_true]

/-- A quotient may be extended. -/
theorem ofRatio_mul {k : Nat} (hk : 0 < k) (negative : Bool) (num den : Nat) :
    ofRatio negative (num * k) (den * k) = ofRatio negative num den := by
  have hshift : ∀ e, (den * k) <<< e = den <<< e * k := fun e => by
    rw [Nat.shiftLeft_eq, Nat.shiftLeft_eq, Nat.mul_right_comm]
  simp only [ofRatio, Nat.mul_div_mul_right num den hk, hshift, roundHalfEven_mul hk]

theorem exponentOf_canonical {m e : Nat} (h : CanonicalPair m e) : exponentOf (m <<< e) = e := by
  obtain ⟨hm, hlow, -⟩ := h
  rw [Nat.shiftLeft_eq, Nat.one_mul] at hm
  rw [Nat.shiftLeft_eq, exponentOf, Nat.one_shiftLeft]
  rcases hlow with rfl | hlow
  · rw [if_pos (by simpa using hm)]
  · rw [Nat.one_shiftLeft] at hlow
    cases e with
    | zero => rw [if_pos (by simpa using hm)]
    | succ e =>
      have hbig : ¬ m * 2 ^ (e + 1) < 2 ^ 53 := by
        have hone : 2 ^ 1 ≤ 2 ^ (e + 1) := Nat.pow_le_pow_right (by decide) (by omega)
        have hprod := Nat.mul_le_mul hlow hone
        omega
      have hlog : (m * 2 ^ (e + 1)).log2 = 52 + (e + 1) := by
        refine (Nat.log2_eq_iff (by omega)).2 ⟨?_, ?_⟩
        · rw [Nat.pow_add]
          exact Nat.mul_le_mul_right _ hlow
        · rw [show 52 + (e + 1) + 1 = 53 + (e + 1) by omega, Nat.pow_add 2 53]
          exact Nat.mul_lt_mul_of_pos_right hm (Nat.two_pow_pos _)
      rw [if_neg hbig, hlog]
      omega

/-- A double is the nearest to itself. -/
theorem ofRatio_canonical {m e : Nat} (h : CanonicalPair m e) (negative : Bool) :
    ofRatio negative (m <<< e) 1 = .finite negative m e h := by
  have hround : roundHalfEven (m <<< e) (1 <<< e) = m := by
    rw [Nat.shiftLeft_eq, Nat.one_shiftLeft]
    exact roundHalfEven_exact m (Nat.two_pow_pos e)
  have hm : ¬ m = 1 <<< 53 := Nat.ne_of_lt h.1
  simp only [ofRatio, Nat.div_one, exponentOf_canonical h, hround, if_neg hm, ofPair, dif_pos h]

/-! ### Signs -/

/-- A double of the other sign, or the same. -/
def withSign (negative : Bool) : Double → Double
  | .nan => .nan
  | .infinite _ => .infinite negative
  | .finite _ m e h => .finite negative m e h

theorem ofPair_sign (negative : Bool) (m e : Nat) :
    ofPair negative m e = (ofPair false m e).withSign negative := by
  unfold ofPair
  split <;> rfl

theorem ofRatio_sign (negative : Bool) (num den : Nat) :
    ofRatio negative num den = (ofRatio false num den).withSign negative := by
  simp only [ofRatio]
  split
  · exact ofPair_sign negative _ _
  · exact ofPair_sign negative _ _

theorem ofDecimal_sign (negative : Bool) (digits : Nat) (exponent : Int) :
    ofDecimal negative digits exponent = (ofDecimal false digits exponent).withSign negative := by
  unfold ofDecimal
  split
  · rfl
  split
  · rfl
  split
  · rfl
  split
  · exact ofRatio_sign negative _ _
  · exact ofRatio_sign negative _ _

/-! ### Decimals -/

theorem ofDecimal_nat (negative : Bool) {digits k : Nat} (hdigits : 0 < digits) (hk : k ≤ 310) :
    ofDecimal negative digits k = ofRatio negative (digits * Nat.pow 10 k * unitsPerOne) 1 := by
  unfold ofDecimal
  rw [if_neg (by omega), if_neg (by omega), if_neg (by omega)]

theorem ofDecimal_negSucc (negative : Bool) {digits k : Nat} (hdigits : 0 < digits)
    (hk : k < 400 + (Nat.toDigits 10 digits).length) :
    ofDecimal negative digits (.negSucc k) =
      ofRatio negative (digits * unitsPerOne) (Nat.pow 10 (k + 1)) := by
  unfold ofDecimal
  rw [if_neg (by omega), if_neg (by omega), if_neg (by omega)]

/-- A decimal of moderate size that ends in zeros is the same double without them. -/
theorem ofDecimal_zeros (negative : Bool) {digits : Nat} (hdigits : 0 < digits) {k : Nat} (hk : k ≤ 310) :
    ofDecimal negative (digits * Nat.pow 10 (k + 1)) (-1) = ofDecimal negative digits k := by
  have hten : 0 < Nat.pow 10 (k + 1) := Nat.pow_pos (show 0 < 10 by decide)
  have hshift : digits * Nat.pow 10 (k + 1) * unitsPerOne = digits * Nat.pow 10 k * unitsPerOne * 10 := by
    show digits * (Nat.pow 10 k * 10) * unitsPerOne = _
    rw [← Nat.mul_assoc, Nat.mul_right_comm]
  rw [ofDecimal_nat negative hdigits hk, ← ofRatio_mul (show 0 < 10 by decide) negative _ 1, ← hshift]
  exact ofDecimal_negSucc negative (Nat.mul_pos hdigits hten) (show 0 < 400 + _ by omega)

/-- The exact decimal of a positive double has too many digits to be taken for zero. -/
theorem length_exactDecimal {m : Nat} (hm : 0 < m) (e : Nat) :
    674 < (Nat.toDigits 10 (exactDecimal m e).digits).length := by
  refine Nat.lt_of_not_le fun hshort => ?_
  -- the exponents are kept as variables, since the powers have hundreds of digits
  obtain ⟨k, hk⟩ : ∃ k, 2 * k = 674 := ⟨337, rfl⟩
  obtain ⟨n, hn⟩ : ∃ n, n = 1074 := ⟨_, rfl⟩
  rw [← hk] at hshort
  have hsmall := (Nat.length_toDigits_le_iff (show 1 < 10 by decide) (show 0 < 2 * k by omega)).1 hshort
  have hunits : 0 < m <<< e := by
    rw [Nat.shiftLeft_eq]
    exact Nat.mul_pos hm (Nat.two_pow_pos e)
  have hpower : 10 ^ (2 * k) ≤ 5 ^ n := calc
    10 ^ (2 * k) = (10 ^ 2) ^ k := Nat.pow_mul 10 2 k
    _ ≤ (5 ^ 3) ^ k := Nat.pow_le_pow_left (by decide) k
    _ = 5 ^ (3 * k) := (Nat.pow_mul 5 3 k).symm
    _ ≤ 5 ^ n := Nat.pow_le_pow_right (by decide) (by omega)
  have hdigits : 5 ^ n ≤ (exactDecimal m e).digits := by
    rw [exactDecimal, ← hn]
    exact Nat.le_mul_of_pos_left _ hunits
  exact Nat.not_lt_of_le (Nat.le_trans hpower hdigits) hsmall

theorem exactDecimal_pos {m : Nat} (hm : 0 < m) (e : Nat) : 0 < (exactDecimal m e).digits := by
  have hlength := length_exactDecimal hm e
  refine Nat.pos_of_ne_zero fun hzero => ?_
  rw [hzero] at hlength
  exact absurd hlength (by decide)

/-- The exact decimal of a double reads back. -/
theorem ofDecimal_exactDecimal {m e : Nat} (hm : 0 < m) (h : CanonicalPair m e) :
    ofDecimal false (exactDecimal m e).digits (exactDecimal m e).exponent = .finite false m e h := by
  have hlength := length_exactDecimal hm e
  have hpowers : ∀ n, m <<< e * Nat.pow 5 n * (1 <<< n) = m <<< e * 10 ^ n := by
    intro n
    rw [Nat.one_shiftLeft, Nat.mul_assoc, Nat.mul_pow 5 2 n]
    rfl
  -- the power is kept as a variable, since its value has a thousand digits
  obtain ⟨n, hn⟩ : ∃ n, n + 1 = 1074 := ⟨1073, rfl⟩
  have hexponent : (exactDecimal m e).exponent = .negSucc n := by
    obtain rfl : n = 1073 := by omega
    rfl
  have hten : (exactDecimal m e).digits * unitsPerOne = m <<< e * 10 ^ (n + 1) := by
    rw [exactDecimal, unitsPerOne, ← hn]
    exact hpowers (n + 1)
  calc ofDecimal false (exactDecimal m e).digits (exactDecimal m e).exponent
    _ = ofRatio false ((exactDecimal m e).digits * unitsPerOne) (10 ^ (n + 1)) := by
      rw [hexponent]
      exact ofDecimal_negSucc false (exactDecimal_pos hm e) (by omega)
    _ = ofRatio false (m <<< e * 10 ^ (n + 1)) (1 * 10 ^ (n + 1)) := by rw [hten, Nat.one_mul]
    _ = ofRatio false (m <<< e) 1 := ofRatio_mul (Nat.pow_pos (by decide)) false _ 1
    _ = .finite false m e h := ofRatio_canonical h false

/-- The shortest decimal of a positive double reads back as the double. -/
theorem ofDecimal_shortest {m e : Nat} (hm : 0 < m) (h : CanonicalPair m e) :
    ofDecimal false (shortest m e).digits (shortest m e).exponent = .finite false m e h := by
  have hpair : ofPair false m e = .finite false m e h := dif_pos h
  simp only [shortest]
  cases hfound : (List.range 17).findSome? fun n =>
      (neighbours (exactDecimal m e) (Nat.toDigits 10 (exactDecimal m e).digits).length (n + 1)).find?
        (readsBack m e) with
  | none => exact ofDecimal_exactDecimal hm h
  | some d =>
    obtain ⟨n, -, hd⟩ := List.exists_of_findSome?_eq_some hfound
    have hback := List.find?_some hd
    rw [readsBack, beq_iff_eq, hpair] at hback
    exact hback

theorem shortest_pos {m e : Nat} (hm : 0 < m) (h : CanonicalPair m e) : 0 < (shortest m e).digits := by
  refine Nat.pos_of_ne_zero fun hzero => ?_
  have hback := ofDecimal_shortest hm h
  rw [hzero] at hback
  have hnone : zero false = .finite false m e h := hback
  cases hnone
  exact absurd hm (by decide)

end JsonQuery.Double
