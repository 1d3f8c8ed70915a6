import JsonQuery.Proofs.Number.Grammar
import JsonQuery.Proofs.Number.Rounding

/-! Numbers read back. What is printed for a number other than a NaN and the infinities is a numeral that stands for the
    number again: an integer for itself, and the digits of a double for the double, however they are laid out. The
    grammar of numerals derives all these texts, so they are read wherever no character comes next that a numeral would
    go on with. -/

namespace JsonQuery

open Numeral (Derives MinusText WholeText FractionText ExponentText)

/-- No character comes next that a numeral would go on with. -/
def NumeralEnds (cs : List Char) : Prop := ∀ c ∈ cs.head?, c.isDigit = false ∧ c ≠ '.' ∧ c ≠ 'e' ∧ c ≠ 'E'

/-- A text that stands for a number, whatever follows. -/
def Spells (cs : List Char) (n : Number) : Prop :=
  ∀ rest, NumeralEnds rest → ∃ numeral, Numeral.read? asciiDigit? (cs ++ rest) = some (numeral, rest) ∧
    numeral.value = n

/-- A text that the grammar derives is read where no character comes next that a numeral would go on with. -/
theorem Numeral.Derives.read?_append {cs rest : List Char} {n : Numeral} (h : Derives asciiDigit? cs n)
    (hrest : NumeralEnds rest) : read? asciiDigit? (cs ++ rest) = some (n, rest) :=
  read?_of_derives extendsAscii_asciiDigit h fun c hc =>
    ⟨asciiDigit?_of_not_isDigit (hrest c hc).1, (hrest c hc).2⟩

/-- A text that the grammar derives stands for the value of its numeral. -/
theorem Numeral.Derives.spells {cs : List Char} {n : Numeral} (h : Derives asciiDigit? cs n) : Spells cs n.value :=
  fun _ hrest => ⟨n, h.read?_append hrest, rfl⟩

/-- A text that stands for a number is derived by the grammar. -/
theorem Numeral.derives_of_spells {cs : List Char} {x : Number} (h : Spells cs x) :
    ∃ n, Derives asciiDigit? cs n ∧ n.value = x := by
  obtain ⟨n, hread, hvalue⟩ := h [] nofun
  rw [List.append_nil] at hread
  exact ⟨n, (read?_eq_some_iff extendsAscii_asciiDigit).1 hread, hvalue⟩

/-! ### Values of digits -/

theorem digitsValue_zeros (n : Nat) (cs : List Char) :
    digitsValue (digitValues (List.replicate n '0' ++ cs)) = digitsValue (digitValues cs) := by
  induction n with
  | zero => rfl
  | succ n ih => exact ih

theorem digitsValue_append_zeros (cs : List Char) : ∀ n : Nat,
    digitsValue (digitValues (cs ++ List.replicate n '0')) = digitsValue (digitValues cs) * Nat.pow 10 n := by
  intro n
  induction n with
  | zero =>
    rw [List.replicate_zero, List.append_nil]
    exact (Nat.mul_one _).symm
  | succ n ih =>
    rw [List.replicate_succ', ← List.append_assoc, digitValues_append, digitsValue, List.foldl_append]
    show 10 * digitsValue (digitValues (cs ++ List.replicate n '0')) + 0 =
      digitsValue (digitValues cs) * (Nat.pow 10 n * 10)
    rw [ih, Nat.add_zero, Nat.mul_comm, Nat.mul_assoc]

/-! ### The parts of a numeral -/

theorem isDigit_of_mem_replicate {n : Nat} : ∀ c ∈ List.replicate n '0', c.isDigit = true := by
  intro c hc
  rw [List.eq_of_mem_replicate hc]
  rfl

theorem digits_of_isDigit {cs : List Char} (h : ∀ c ∈ cs, c.isDigit = true) :
    Numeral.Digits asciiDigit? cs (digitValues cs) := by
  induction cs with
  | nil => exact .nil
  | cons c cs ih =>
    obtain ⟨hc, hcs⟩ := List.forall_mem_cons.1 h
    exact .cons (asciiDigit?_of_isDigit hc) (ih hcs)

/-- A whole part: a zero alone, or digits that start with another one. -/
inductive WholePart : List Char → Prop
  | zero : WholePart ['0']
  | digits {c : Char} {cs : List Char} : c ≠ '0' → c.isDigit = true → (∀ d ∈ cs, d.isDigit = true) →
    WholePart (c :: cs)

theorem wholePart_natDigits (n : Nat) : WholePart (natDigits n) := by
  rcases Nat.eq_zero_or_pos n with rfl | hn
  · exact .zero
  · obtain ⟨c, cs, hcs, hc, hdigit⟩ := head_natDigits hn
    rw [hcs]
    exact .digits hc hdigit fun d hd => isDigit_of_mem_natDigits (hcs ▸ List.mem_cons_of_mem c hd)

theorem WholePart.append {cs ds : List Char} (h : WholePart cs) (hne : cs ≠ ['0'])
    (hds : ∀ d ∈ ds, d.isDigit = true) : WholePart (cs ++ ds) := by
  cases h with
  | zero => exact absurd rfl hne
  | digits hc hdigit hcs =>
    refine .digits hc hdigit fun d hd => ?_
    rcases List.mem_append.1 hd with hd | hd
    · exact hcs d hd
    · exact hds d hd

theorem WholePart.take {cs : List Char} (h : WholePart cs) {n : Nat} (hn : 0 < n) :
    WholePart (cs.take n) := by
  obtain ⟨n, rfl⟩ : ∃ k, n = k + 1 := ⟨n - 1, by omega⟩
  cases h with
  | zero =>
    rw [List.take_succ_cons, List.take_nil]
    exact .zero
  | digits hc hdigit hcs => exact .digits hc hdigit fun d hd => hcs d (List.mem_of_mem_take hd)

theorem WholePart.wholeText {cs : List Char} (h : WholePart cs) : WholeText asciiDigit? cs (digitValues cs) := by
  cases h with
  | zero => exact .zero
  | digits hc hdigit hcs => exact .digits hc (asciiDigit?_of_isDigit hdigit) (digits_of_isDigit hcs)

namespace Numeral

/-- The minus of a number, if it has one. -/
def sign (negative : Bool) : List Char := if negative then ['-'] else []

theorem minusText_sign (negative : Bool) : MinusText (sign negative) negative := by
  cases negative with
  | true => exact .minus
  | false => exact .absent

/-- A fraction with its point, which is left out if there are no digits. -/
def fractionText (ds : List Char) : List Char := if ds = [] then [] else '.' :: ds

theorem fractionText_digits {ds : List Char} (hds : ∀ d ∈ ds, d.isDigit = true) :
    FractionText asciiDigit? (fractionText ds) (digitValues ds) := by
  unfold fractionText
  split
  next hnil =>
    rw [hnil]
    exact .absent
  next hne => exact .digits hne (digits_of_isDigit hds)

/-- An exponent stands for itself, with zeros before its digits or without. -/
theorem exponentText_printed (width : Nat) (exponent : Int) :
    ExponentText asciiDigit? (exponentText width exponent) (some exponent) := by
  obtain ⟨ds, hds⟩ : ∃ ds, ds = List.replicate (width - (natDigits exponent.natAbs).length) '0'
      ++ natDigits exponent.natAbs := ⟨_, rfl⟩
  have hdigit : ∀ d ∈ ds, d.isDigit = true := by
    intro d hd
    rw [hds] at hd
    rcases List.mem_append.1 hd with hd | hd
    · exact isDigit_of_mem_replicate d hd
    · exact isDigit_of_mem_natDigits hd
  have hvalue : digitsValue (digitValues ds) = exponent.natAbs := by
    rw [hds, digitsValue_zeros, digitsValue_natDigits]
  have hne : ds ≠ [] := by simp [hds, natDigits_ne_nil]
  have htext : exponentText width exponent = 'e' :: ([if exponent < 0 then '-' else '+'] ++ ds) := by
    rw [hds]
    rfl
  rw [htext]
  by_cases hneg : exponent < 0
  · have hminus : exponent = if true then -(digitsValue (digitValues ds) : Int) else digitsValue (digitValues ds) := by
      rw [if_pos rfl, hvalue]
      omega
    rw [if_pos hneg, hminus]
    exact .digits (.inl rfl) .minus hne (digits_of_isDigit hdigit)
  · have hplus : exponent = if false then -(digitsValue (digitValues ds) : Int) else digitsValue (digitValues ds) := by
      rw [if_neg Bool.false_ne_true, hvalue]
      omega
    rw [if_neg hneg, hplus]
    exact .digits (.inl rfl) .plus hne (digits_of_isDigit hdigit)

end Numeral

/-! ### Numbers -/

theorem spells_int (n : Int) : Spells (intText n) (.int n) := by
  have hderives : Derives asciiDigit? (Numeral.sign (decide (n < 0)) ++ (natDigits n.natAbs ++ ([] ++ []))) _ :=
    .parts (Numeral.minusText_sign _) (wholePart_natDigits n.natAbs).wholeText .absent .absent
  have htext : intText n = Numeral.sign (decide (n < 0)) ++ natDigits n.natAbs := by
    rw [intText, Numeral.sign]
    by_cases h : n < 0 <;> simp [h]
  have hspells := hderives.spells
  rw [List.append_nil, List.append_nil, ← htext, Numeral.value, if_pos ⟨rfl, rfl⟩, digitsValue_natDigits] at hspells
  by_cases h : n < 0
  · rwa [if_pos (decide_eq_true h), show -(n.natAbs : Int) = n by omega] at hspells
  · rwa [if_neg (by simpa using h), show (n.natAbs : Int) = n by omega] at hspells

theorem spells_fraction (negative : Bool) {ws fs : List Char} (hws : WholePart ws) (hne : fs ≠ [])
    (hfs : ∀ d ∈ fs, d.isDigit = true) : Spells (Numeral.sign negative ++ (ws ++ '.' :: fs))
      (.double (Double.ofDecimal negative (digitsValue (digitValues (ws ++ fs))) (-fs.length))) := by
  have hderives : Derives asciiDigit? (Numeral.sign negative ++ (ws ++ ('.' :: fs ++ []))) _ :=
    .parts (Numeral.minusText_sign negative) hws.wholeText (.digits hne (digits_of_isDigit hfs)) .absent
  have hvalues : digitValues fs ≠ [] := by simpa [digitValues] using hne
  have hspells := hderives.spells
  rw [List.append_nil, Numeral.value, if_neg (by simp [hvalues]), ← digitValues_append] at hspells
  simpa [digitValues] using hspells

theorem spells_exponent (negative : Bool) (width : Nat) (exponent : Int) {ws fs : List Char}
    (hws : WholePart ws) (hfs : ∀ d ∈ fs, d.isDigit = true) :
    Spells (Numeral.sign negative ++ (ws ++ Numeral.fractionText fs ++ exponentText width exponent))
      (.double (Double.ofDecimal negative (digitsValue (digitValues (ws ++ fs)))
        (exponent - fs.length))) := by
  have hderives : Derives asciiDigit?
      (Numeral.sign negative ++ (ws ++ (Numeral.fractionText fs ++ exponentText width exponent))) _ :=
    .parts (Numeral.minusText_sign negative) hws.wholeText (Numeral.fractionText_digits hfs)
      (Numeral.exponentText_printed width exponent)
  have hspells := hderives.spells
  rw [Numeral.value, if_neg (by simp), ← digitValues_append] at hspells
  simpa [digitValues, List.append_assoc] using hspells

/-- Characters that are the digits of a number, the first of them no superfluous zero. -/
structure DigitsOf (n : Nat) (cs : List Char) : Prop where
  whole : WholePart cs
  isDigit : ∀ c ∈ cs, c.isDigit = true
  value : digitsValue (digitValues cs) = n

theorem digitsOf_natDigits (n : Nat) : DigitsOf n (natDigits n) :=
  ⟨wholePart_natDigits n, fun _ => isDigit_of_mem_natDigits, digitsValue_natDigits n⟩

namespace DigitsOf

variable {n : Nat} {cs : List Char} {exponent : Int}

theorem length_pos (h : DigitsOf n cs) : 0 < cs.length := by
  cases h.whole <;> simp

/-- A zero, the point and more zeros stand before the digits. -/
theorem spells_below_one (h : DigitsOf n cs) (negative : Bool) {zeros : Nat}
    (hzeros : exponent = -(zeros + cs.length : Nat)) :
    Spells (Numeral.sign negative ++ ('0' :: '.' :: (List.replicate zeros '0' ++ cs)))
      (.double (Double.ofDecimal negative n exponent)) := by
  have hdigits : ∀ c ∈ List.replicate zeros '0' ++ cs, c.isDigit = true := by
    intro c hc
    rcases List.mem_append.1 hc with hc | hc
    · exact isDigit_of_mem_replicate c hc
    · exact h.isDigit c hc
  have hne : List.replicate zeros '0' ++ cs ≠ [] := by
    intro hnil
    have := h.length_pos
    simp_all
  have hspells := spells_fraction negative .zero hne hdigits
  have hall : digitsValue (digitValues (['0'] ++ (List.replicate zeros '0' ++ cs))) = n :=
    (digitsValue_zeros 1 _).trans ((digitsValue_zeros zeros cs).trans h.value)
  rwa [hall, List.length_append, List.length_replicate, ← hzeros] at hspells

/-- Zeros, the point and one more zero stand after the digits. -/
theorem spells_whole (h : DigitsOf n cs) (hn : 0 < n) (negative : Bool) {k : Nat} (hk : k ≤ 310) :
    Spells (Numeral.sign negative ++ (cs ++ List.replicate k '0' ++ ['.', '0']))
      (.double (Double.ofDecimal negative n k)) := by
  have hne : cs ≠ ['0'] := by
    rintro rfl
    exact absurd h.value (Nat.ne_of_lt hn)
  have hdigits : ∀ c ∈ List.replicate k '0', c.isDigit = true := isDigit_of_mem_replicate
  have hspells := spells_fraction negative (h.whole.append hne hdigits) (List.cons_ne_nil '0' []) (by simp)
  have hall : digitsValue (digitValues (cs ++ List.replicate k '0' ++ ['0'])) = n * Nat.pow 10 (k + 1) := by
    rw [List.append_assoc, ← List.replicate_succ', digitsValue_append_zeros, h.value]
  have hzero : Double.ofDecimal negative (n * Nat.pow 10 (k + 1)) (-(['0'].length : Int))
      = Double.ofDecimal negative n k := Double.ofDecimal_zeros negative hn hk
  rwa [hall, hzero] at hspells

/-- The point stands among the digits. -/
theorem spells_mixed (h : DigitsOf n cs) (negative : Bool) {point : Nat} (hpos : 0 < point)
    (hpoint : point < cs.length) (hexponent : exponent = -(cs.length - point : Nat)) :
    Spells (Numeral.sign negative ++ (cs.take point ++ '.' :: cs.drop point))
      (.double (Double.ofDecimal negative n exponent)) := by
  have hafter : cs.drop point ≠ [] := by
    rw [ne_eq, List.drop_eq_nil_iff]
    omega
  have hspells := spells_fraction negative (h.whole.take hpos) hafter
    fun c hc => h.isDigit c (List.mem_of_mem_drop hc)
  rwa [List.take_append_drop, h.value, List.length_drop, ← hexponent] at hspells

/-- One digit stands before the point, and an exponent after all digits. -/
theorem spells_scientific (h : DigitsOf n cs) (negative : Bool) (width : Nat) :
    Spells (Numeral.sign negative ++ (cs.take 1 ++ (if cs.length = 1 then [] else '.' :: cs.drop 1)
      ++ exponentText width (exponent + cs.length - 1)))
      (.double (Double.ofDecimal negative n exponent)) := by
  have hdigits : ∀ c ∈ cs.drop 1, c.isDigit = true := fun c hc => h.isDigit c (List.mem_of_mem_drop hc)
  have hspells := spells_exponent negative width (exponent + cs.length - 1) (h.whole.take Nat.one_pos) hdigits
  have hlength := h.length_pos
  have hcount : exponent + cs.length - 1 - ((cs.drop 1).length : Int) = exponent := by
    rw [List.length_drop]
    omega
  have hone : cs.drop 1 = [] ↔ cs.length = 1 := by
    rw [List.drop_eq_nil_iff]
    omega
  simp only [List.take_append_drop, h.value, hcount, Numeral.fractionText, hone] at hspells
  exact hspells

end DigitsOf

/-- Every layout of a positive decimal stands for the double nearest to the decimal. -/
theorem spells_decimal (negative : Bool) {d : Decimal} (hd : 0 < d.digits) :
    Spells (Numeral.sign negative ++ d.text .number)
    (.double (Double.ofDecimal negative d.digits d.exponent)) := by
  obtain ⟨n, exponent⟩ := d
  have hdigits := digitsOf_natDigits n
  have hlength := hdigits.length_pos
  simp only [Decimal.text, DecimalLayout.number]
  split
  next hplace =>
    split
    next hsmall => exact hdigits.spells_below_one negative (by omega)
    split
    next hwhole =>
      obtain ⟨k, rfl⟩ : ∃ k : Nat, exponent = k := ⟨exponent.toNat, by omega⟩
      exact hdigits.spells_whole hd negative (by omega)
    next hmixed => exact hdigits.spells_mixed negative (by omega) (by omega) (by omega)
  next => exact hdigits.spells_scientific negative 2

/-- The text of a number other than a NaN and the infinities stands for the number. -/
theorem spells_number {n : Number} (h : n.isFinite = true) : Spells n.text n := by
  cases n with
  | int n => exact spells_int n
  | double x =>
    cases x with
    | nan => cases h
    | infinite negative => cases h
    | finite negative m e hcanonical =>
      rw [Number.text, Double.text]
      rcases Nat.eq_zero_or_pos m with rfl | hm
      · have he : e = 0 := by
          rcases hcanonical.2.1 with he | hlow
          · exact he
          · exact absurd hlow (by decide)
        subst he
        exact spells_fraction negative .zero (List.cons_ne_nil '0' []) (by simp)
      · have hspells := spells_decimal negative (Double.shortest_pos hm hcanonical)
        rw [Double.ofDecimal_sign, Double.ofDecimal_shortest hm hcanonical] at hspells
        rw [if_neg (Nat.ne_of_gt hm)]
        exact hspells

end JsonQuery
