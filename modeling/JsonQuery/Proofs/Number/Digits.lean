import JsonQuery.Number.Numeral
import Mathlib.Data.Nat.Digits.Defs

/-! Digits and their values. The digits of a text are taken up to the first character that is none, and the
    digits printed for a natural number have the number as their value; the first of them is a zero only for
    zero. -/

namespace JsonQuery

/-- The values of characters that are digits. -/
def digitValues (cs : List Char) : List Nat := cs.map fun c => c.toNat - '0'.toNat

/-- No digit comes next. -/
def NoDigitNext (cs : List Char) : Prop := ∀ c ∈ cs.head?, c.isDigit = false

theorem asciiDigit?_of_isDigit {c : Char} (h : c.isDigit = true) :
    asciiDigit? c = some (c.toNat - '0'.toNat) := if_pos h

theorem asciiDigit?_of_not_isDigit {c : Char} (h : c.isDigit = false) :
    asciiDigit? c = none := if_neg (by simp [h])

theorem isDigit_of_asciiDigit? {c : Char} {d : Nat} (h : asciiDigit? c = some d) : c.isDigit = true := by
  cases hc : c.isDigit with
  | true => rfl
  | false =>
    rw [asciiDigit?_of_not_isDigit hc] at h
    cases h

/-- The value of an ASCII digit is below ten, and is zero for `0` alone. -/
theorem asciiDigit?_bounds {c : Char} {d : Nat} (h : asciiDigit? c = some d) : d < 10 ∧ (c ≠ '0' → 0 < d) := by
  have hc := isDigit_of_asciiDigit? h
  rw [asciiDigit?_of_isDigit hc] at h
  obtain ⟨hlow, hhigh⟩ := Char.isDigit_iff_toNat.1 hc
  have h0 : '0'.toNat = 48 := rfl
  have h9 : '9'.toNat = 57 := rfl
  cases h
  refine ⟨by omega, fun hne => ?_⟩
  have : c.toNat ≠ '0'.toNat := fun heq => hne (Char.toNat_inj.1 heq)
  omega

theorem takeDigits_eq_nil : ∀ {cs : List Char}, NoDigitNext cs → takeDigits asciiDigit? cs = ([], cs)
  | [], _ => rfl
  | c :: cs, h => by simp only [takeDigits, asciiDigit?_of_not_isDigit (h c rfl)]

theorem takeDigits_append {rest : List Char} (hrest : NoDigitNext rest) : ∀ {ds : List Char},
    (∀ c ∈ ds, c.isDigit = true) → takeDigits asciiDigit? (ds ++ rest) = (digitValues ds, rest) := by
  intro ds
  induction ds with
  | nil => exact fun _ => takeDigits_eq_nil hrest
  | cons c ds ih =>
    intro h
    have hds := ih fun d hd => h d (List.mem_cons_of_mem c hd)
    simp only [List.cons_append, takeDigits, asciiDigit?_of_isDigit (h c List.mem_cons_self), hds]
    rfl

theorem length_takeDigits : ∀ cs : List Char,
    (takeDigits asciiDigit? cs).1.length = (cs.takeWhile Char.isDigit).length
  | [] => rfl
  | c :: cs => by
    cases hc : c.isDigit with
    | true =>
      rw [List.takeWhile_cons_of_pos hc, List.length_cons, ← length_takeDigits cs, takeDigits,
        asciiDigit?_of_isDigit hc]
      rfl
    | false =>
      rw [List.takeWhile_cons_of_neg (by simp [hc]), takeDigits, asciiDigit?_of_not_isDigit hc]
      rfl

theorem digitsValue_digitValues (cs : List Char) :
    digitsValue (digitValues cs) = Nat.ofDigitChars 10 cs 0 := by
  rw [digitsValue, digitValues, List.foldl_map, Nat.ofDigitChars_eq_foldl]

theorem digitsValue_cons (d : Nat) (ds : List Nat) :
    digitsValue (d :: ds) = d * 10 ^ ds.length + digitsValue ds := by
  have hfrom (a : Nat) : ds.foldl (fun n d => 10 * n + d) a = a * 10 ^ ds.length + digitsValue ds := by
    induction ds generalizing a with
    | nil => simp [digitsValue]
    | cons d ds ih =>
      have hzero : digitsValue (d :: ds) = d * 10 ^ ds.length + digitsValue ds := by
        show ds.foldl (fun n d => 10 * n + d) (10 * 0 + d) = _
        rw [ih, Nat.mul_zero, Nat.zero_add]
      rw [List.foldl_cons, ih, hzero, List.length_cons, Nat.pow_succ]
      rw [Nat.add_mul, Nat.mul_comm 10 a, Nat.mul_assoc, Nat.mul_comm 10, Nat.add_assoc]
  show ds.foldl (fun n d => 10 * n + d) (10 * 0 + d) = _
  rw [hfrom, Nat.mul_zero, Nat.zero_add]

theorem digitsValue_lt {ds : List Nat} (h : ∀ d ∈ ds, d < 10) : digitsValue ds < 10 ^ ds.length := by
  induction ds with
  | nil => simp [digitsValue]
  | cons d ds ih =>
    have hd : d < 10 := h d List.mem_cons_self
    have hds := ih fun d hd => h d (List.mem_cons_of_mem _ hd)
    rw [digitsValue_cons, List.length_cons, Nat.pow_succ]
    calc d * 10 ^ ds.length + digitsValue ds < (d + 1) * 10 ^ ds.length := by rw [Nat.add_mul]; omega
      _ ≤ 10 ^ ds.length * 10 := by rw [Nat.mul_comm]; exact Nat.mul_le_mul_left _ hd

theorem digitValues_append (cs ds : List Char) :
    digitValues (cs ++ ds) = digitValues cs ++ digitValues ds := List.map_append

/-! ### The digits of a natural number -/

theorem isDigit_of_mem_natDigits {n : Nat} {c : Char} (h : c ∈ natDigits n) : c.isDigit = true :=
  Nat.isDigit_of_mem_toDigits (by decide) (by decide) h

theorem natDigits_ne_nil (n : Nat) : natDigits n ≠ [] := Nat.toDigits_ne_nil

theorem digitsValue_natDigits (n : Nat) : digitsValue (digitValues (natDigits n)) = n := by
  rw [digitsValue_digitValues, natDigits, Nat.ofDigitChars_ten_toDigits]

theorem digitValues_natDigits_lt {n : Nat} : ∀ d ∈ digitValues (natDigits n), d < 10 := by
  intro d hd
  obtain ⟨c, hc, rfl⟩ := List.mem_map.1 hd
  exact (asciiDigit?_bounds (asciiDigit?_of_isDigit (isDigit_of_mem_natDigits hc))).1

theorem length_natDigits_le_iff {n : Nat} : (natDigits n).length ≤ digitLimit ↔ n < 10 ^ digitLimit := by
  refine ⟨fun h => ?_, Nat.toDigits_length 10 n digitLimit (by decide)⟩
  calc n = digitsValue (digitValues (natDigits n)) := (digitsValue_natDigits n).symm
    _ < 10 ^ (digitValues (natDigits n)).length := digitsValue_lt digitValues_natDigits_lt
    _ ≤ 10 ^ digitLimit := Nat.pow_le_pow_right (by decide) (by rwa [digitValues, List.length_map])

/-- An integer is written unless it has too many digits. -/
theorem Number.isWritable_int {n : Int} : (Number.int n).isWritable = true ↔ n.natAbs < 10 ^ digitLimit := by
  rw [Number.isWritable, decide_eq_true_eq, length_natDigits_le_iff]

theorem Number.isWritable_digit {n : Int} (h : n.natAbs < 10) : (Number.int n).isWritable = true :=
  isWritable_int.2 (Nat.lt_of_lt_of_le h (Nat.le_self_pow (by decide) 10))

/-- A positive number starts with a digit other than zero. -/
theorem head_natDigits {n : Nat} (hn : 0 < n) :
    ∃ c cs, natDigits n = c :: cs ∧ c ≠ '0' ∧ c.isDigit = true := by
  unfold natDigits
  rw [Nat.toDigits_eq_if (by decide)]
  split
  next h =>
    refine ⟨_, _, rfl, ?_⟩
    have hall : ∀ k < 10, 0 < k → k.digitChar ≠ '0' ∧ k.digitChar.isDigit = true := by decide
    exact hall n h hn
  next h =>
    obtain ⟨c, cs, hc, hne⟩ := head_natDigits (show 0 < n / 10 by omega)
    unfold natDigits at hc
    rw [hc]
    exact ⟨c, _, rfl, hne⟩
termination_by n

end JsonQuery
