import JsonQuery.Proofs.Number.Digits
import JsonQuery.Text.DecimalDigit
import Mathlib.Data.List.Forall2

/-! The grammar of numerals. A numeral is an optional minus, a whole part without a superfluous leading zero, an
    optional fraction and an optional signed exponent, over any class of digits; the first digit of the whole part is
    always an ASCII digit. With the ASCII digits this is the grammar of JSON numbers. The reader of numerals takes what
    the grammar derives and nothing else, so what a whole text is read as does not depend on the class as long as all
    its digits are in it, and a larger class accepts more only where there are characters beyond ASCII. -/

namespace JsonQuery.Numeral

/-- Digits of a class, with their values. -/
abbrev Digits (digit? : Char → Option Nat) : List Char → List Nat → Prop :=
  List.Forall₂ fun c d => digit? c = some d

/-- The sign of a numeral. -/
inductive MinusText : List Char → Bool → Prop
  | absent : MinusText [] false
  | minus : MinusText ['-'] true

/-- The sign of an exponent. -/
inductive SignText : List Char → Bool → Prop
  | absent : SignText [] false
  | plus : SignText ['+'] false
  | minus : SignText ['-'] true

section
variable (digit? : Char → Option Nat)

/-- A whole part: a zero alone, or digits of which the first is an ASCII digit other than zero. -/
inductive WholeText : List Char → List Nat → Prop
  | zero : WholeText ['0'] [0]
  | digits {c : Char} {cs : List Char} {d : Nat} {ds : List Nat} : c ≠ '0' → asciiDigit? c = some d →
    Digits digit? cs ds → WholeText (c :: cs) (d :: ds)

/-- A fraction, if there is one: a point and at least one digit. -/
inductive FractionText : List Char → List Nat → Prop
  | absent : FractionText [] []
  | digits {cs : List Char} {ds : List Nat} : cs ≠ [] → Digits digit? cs ds → FractionText ('.' :: cs) ds

/-- An exponent, if there is one: a mark, an optional sign and at least one digit. -/
inductive ExponentText : List Char → Option Int → Prop
  | absent : ExponentText [] none
  | digits {c : Char} {sign cs : List Char} {negative : Bool} {ds : List Nat} : c = 'e' ∨ c = 'E' →
    SignText sign negative → cs ≠ [] → Digits digit? cs ds →
    ExponentText (c :: (sign ++ cs)) (some (if negative then -(digitsValue ds : Int) else digitsValue ds))

/-- What the grammar derives: a text, and the numeral that it spells. -/
inductive Derives : List Char → Numeral → Prop
  | parts {minus whole fraction exponent : List Char} {negative : Bool} {ws fs : List Nat} {x : Option Int} :
    MinusText minus negative → WholeText digit? whole ws → FractionText digit? fraction fs →
    ExponentText digit? exponent x → Derives (minus ++ (whole ++ (fraction ++ exponent))) ⟨negative, ws, fs, x⟩

end

variable {digit? digit?' : Char → Option Nat} {cs rest : List Char} {n : Numeral} {x : Number}

/-! ### What is read is derived -/

theorem takeDigits_sound (digit? : Char → Option Nat) : ∀ cs : List Char,
    ∃ front, cs = front ++ (takeDigits digit? cs).2 ∧ Digits digit? front (takeDigits digit? cs).1 := by
  intro cs
  induction cs with
  | nil => exact ⟨[], rfl, .nil⟩
  | cons c cs ih =>
    cases hc : digit? c with
    | none => exact ⟨[], by simp [takeDigits, hc], by simp [takeDigits, hc]⟩
    | some d =>
      obtain ⟨front, hfront, hdigits⟩ := ih
      refine ⟨c :: front, ?_, ?_⟩
      · simp only [takeDigits, hc]
        exact congrArg (c :: ·) hfront
      · simp only [takeDigits, hc]
        exact .cons hc hdigits

theorem readMinus_sound (cs : List Char) :
    ∃ front, cs = front ++ (readMinus cs).2 ∧ MinusText front (readMinus cs).1 := by
  unfold readMinus
  split
  · exact ⟨_, rfl, .minus⟩
  · exact ⟨_, rfl, .absent⟩

theorem readWhole?_sound {ws : List Nat} (h : readWhole? digit? cs = some (ws, rest)) :
    ∃ front, cs = front ++ rest ∧ WholeText digit? front ws := by
  cases cs with
  | nil => cases h
  | cons c cs =>
    rw [readWhole?] at h
    split at h
    next hzero =>
      cases h
      exact ⟨['0'], by rw [hzero]; rfl, .zero⟩
    next hzero =>
      split at h
      next d hd =>
        obtain ⟨front, hfront, hdigits⟩ := takeDigits_sound digit? cs
        cases h
        exact ⟨c :: front, congrArg (c :: ·) hfront, .digits hzero hd hdigits⟩
      next => cases h

theorem readFraction_sound (digit? : Char → Option Nat) (cs : List Char) :
    ∃ front, cs = front ++ (readFraction digit? cs).2 ∧ FractionText digit? front (readFraction digit? cs).1 := by
  unfold readFraction
  split
  next cs =>
    obtain ⟨front, hfront, hdigits⟩ := takeDigits_sound digit? cs
    split
    next => exact ⟨[], rfl, .absent⟩
    next ds rest hne htake =>
      rw [htake] at hfront hdigits
      refine ⟨'.' :: front, congrArg ('.' :: ·) hfront, .digits ?_ hdigits⟩
      rintro rfl
      cases hdigits
      exact hne rfl
  next => exact ⟨[], rfl, .absent⟩

theorem readExponentSign_sound (cs : List Char) :
    ∃ front, cs = front ++ (readExponentSign cs).2 ∧ SignText front (readExponentSign cs).1 := by
  unfold readExponentSign
  split
  · exact ⟨_, rfl, .minus⟩
  · exact ⟨_, rfl, .plus⟩
  · exact ⟨_, rfl, .absent⟩

theorem readExponent_sound (digit? : Char → Option Nat) (cs : List Char) :
    ∃ front, cs = front ++ (readExponent digit? cs).2 ∧ ExponentText digit? front (readExponent digit? cs).1 := by
  cases cs with
  | nil => exact ⟨[], rfl, .absent⟩
  | cons c cs =>
    rw [readExponent]
    split
    next hmark =>
      obtain ⟨sign, hsign, hs⟩ := readExponentSign_sound cs
      obtain ⟨front, hfront, hdigits⟩ := takeDigits_sound digit? (readExponentSign cs).2
      dsimp only
      split
      next => exact ⟨[], rfl, .absent⟩
      next ds rest hne htake =>
        rw [htake] at hfront hdigits
        refine ⟨c :: (sign ++ front), ?_, .digits hmark hs ?_ hdigits⟩
        · rw [List.cons_append, List.append_assoc, ← hfront, ← hsign]
        · rintro rfl
          cases hdigits
          exact hne rfl
    next => exact ⟨[], rfl, .absent⟩

/-- A numeral is read part by part. -/
theorem read?_eq (digit? : Char → Option Nat) (cs : List Char) :
    read? digit? cs = (readWhole? digit? (readMinus cs).2).map fun w =>
      let fraction := readFraction digit? w.2
      let exponent := readExponent digit? fraction.2
      (⟨(readMinus cs).1, w.1, fraction.1, exponent.1⟩, exponent.2) := rfl

/-- What is read at the head of a text is derived by the grammar. -/
theorem derives_of_read? (h : read? digit? cs = some (n, rest)) :
    ∃ front, cs = front ++ rest ∧ Derives digit? front n := by
  rw [read?_eq, Option.map_eq_some_iff] at h
  obtain ⟨⟨ws, more⟩, hread, hparts⟩ := h
  obtain ⟨rfl, rfl⟩ := Prod.mk.inj hparts
  obtain ⟨minus, hminus, hsign⟩ := readMinus_sound cs
  obtain ⟨whole, hwhole, hws⟩ := readWhole?_sound hread
  obtain ⟨fraction, hfraction, hfs⟩ := readFraction_sound digit? more
  obtain ⟨exponent, hexponent, hx⟩ := readExponent_sound digit? (readFraction digit? more).2
  refine ⟨_, ?_, .parts hsign hws hfs hx⟩
  simp only [List.append_assoc, ← hexponent, ← hfraction, ← hwhole, ← hminus]

/-! ### What is derived is read -/

/-- A class of digits that has the ASCII digits and no other ASCII characters. -/
def ExtendsAscii (digit? : Char → Option Nat) : Prop := ∀ c : Char, c.toNat < 128 → digit? c = asciiDigit? c

theorem extendsAscii_asciiDigit : ExtendsAscii asciiDigit? := fun _ _ => rfl

theorem extendsAscii_decimalDigit : ExtendsAscii Text.decimalDigit? := by
  have hall : ∀ k < 128, Text.decimalDigit? (Char.ofNat k) = asciiDigit? (Char.ofNat k) := by decide +kernel
  intro c hc
  have hcode := hall c.toNat hc
  rwa [Char.ofNat_toNat] at hcode

/-- No character comes next that a numeral would go on with. -/
def EndsIn (digit? : Char → Option Nat) (cs : List Char) : Prop :=
  ∀ c ∈ cs.head?, digit? c = none ∧ c ≠ '.' ∧ c ≠ 'e' ∧ c ≠ 'E'

theorem takeDigits_complete {ds : List Nat} (h : Digits digit? cs ds) (hrest : ∀ c ∈ rest.head?, digit? c = none) :
    takeDigits digit? (cs ++ rest) = (ds, rest) := by
  induction h with
  | nil =>
    cases rest with
    | nil => rfl
    | cons c rest => simp only [List.nil_append, takeDigits, hrest c rfl]
  | cons hc _ ih => simp only [List.cons_append, takeDigits, hc, ih]

theorem readMinus_complete {minus whole : List Char} {negative : Bool} {ws : List Nat} (h : MinusText minus negative)
    (hw : WholeText digit? whole ws) (rest : List Char) :
    readMinus (minus ++ (whole ++ rest)) = (negative, whole ++ rest) := by
  cases h with
  | minus => rfl
  | absent =>
    cases hw with
    | zero => rfl
    | @digits c cs d ds _ hd _ =>
      show readMinus (c :: (cs ++ rest)) = (false, c :: (cs ++ rest))
      rw [readMinus]
      rintro ds ⟨⟩
      cases hd

theorem readWhole?_complete {ws : List Nat} (h : WholeText digit? cs ws) (hrest : ∀ c ∈ rest.head?, digit? c = none) :
    readWhole? digit? (cs ++ rest) = some (ws, rest) := by
  cases h with
  | zero => rfl
  | digits hzero hd hdigits =>
    rw [List.cons_append, readWhole?, if_neg hzero, hd]
    dsimp only
    rw [takeDigits_complete hdigits hrest]

theorem readFraction_complete {fs : List Nat} (h : FractionText digit? cs fs)
    (hrest : ∀ c ∈ rest.head?, digit? c = none ∧ c ≠ '.') : readFraction digit? (cs ++ rest) = (fs, rest) := by
  cases h with
  | absent =>
    cases rest with
    | nil => rfl
    | cons c rest =>
      rw [List.nil_append, readFraction]
      rintro ds ⟨⟩
      exact (hrest '.' rfl).2 rfl
  | digits hne hdigits =>
    rw [List.cons_append, readFraction, takeDigits_complete hdigits fun c hc => (hrest c hc).1]
    cases hdigits with
    | nil => exact absurd rfl hne
    | cons _ _ => rfl

theorem readExponentSign_complete (hclass : ExtendsAscii digit?) {sign : List Char} {negative : Bool} {ds : List Nat}
    (h : SignText sign negative) (hne : cs ≠ []) (hcs : Digits digit? cs ds) (rest : List Char) :
    readExponentSign (sign ++ (cs ++ rest)) = (negative, cs ++ rest) := by
  cases h with
  | plus => rfl
  | minus => rfl
  | absent =>
    cases hcs with
    | nil => exact absurd rfl hne
    | @cons c d cs ds hc _ =>
      show readExponentSign (c :: (cs ++ rest)) = (false, c :: (cs ++ rest))
      rw [readExponentSign]
      · rintro ds ⟨⟩
        rw [hclass '-' (by decide)] at hc
        cases hc
      · rintro ds ⟨⟩
        rw [hclass '+' (by decide)] at hc
        cases hc

theorem readExponent_complete (hclass : ExtendsAscii digit?) {x : Option Int} (h : ExponentText digit? cs x)
    (hrest : EndsIn digit? rest) : readExponent digit? (cs ++ rest) = (x, rest) := by
  cases h with
  | absent =>
    cases rest with
    | nil => rfl
    | cons c rest =>
      obtain ⟨-, -, hlower, hupper⟩ := hrest c rfl
      rw [List.nil_append, readExponent, if_neg (not_or.2 ⟨hlower, hupper⟩)]
  | digits hmark hsign hne hdigits =>
    rw [List.cons_append, List.append_assoc, readExponent, if_pos hmark]
    dsimp only
    rw [readExponentSign_complete hclass hsign hne hdigits, takeDigits_complete hdigits fun c hc => (hrest c hc).1]
    cases hdigits with
    | nil => exact absurd rfl hne
    | cons _ _ => rfl

/-- What the grammar derives is read, up to a character that a numeral would not go on with. -/
theorem read?_of_derives (hclass : ExtendsAscii digit?) (h : Derives digit? cs n) (hrest : EndsIn digit? rest) :
    read? digit? (cs ++ rest) = some (n, rest) := by
  cases h with
  | @parts minus whole fraction exponent negative ws fs x hminus hwhole hfraction hexponent =>
    have hpoint : digit? '.' = none := (hclass '.' (by decide)).trans rfl
    have hlower : digit? 'e' = none := (hclass 'e' (by decide)).trans rfl
    have hupper : digit? 'E' = none := (hclass 'E' (by decide)).trans rfl
    -- each part ends where what follows it begins, so what follows is looked at from the end of the text on
    have hafter : ∀ c ∈ (exponent ++ rest).head?, digit? c = none ∧ c ≠ '.' := by
      intro c hc
      cases hexponent with
      | absent => exact ⟨(hrest c hc).1, (hrest c hc).2.1⟩
      | digits hmark =>
        cases hc
        rcases hmark with rfl | rfl
        · exact ⟨hlower, by decide⟩
        · exact ⟨hupper, by decide⟩
    have hpast : ∀ c ∈ (fraction ++ (exponent ++ rest)).head?, digit? c = none := by
      intro c hc
      cases hfraction with
      | absent => exact (hafter c hc).1
      | digits =>
        cases hc
        exact hpoint
    have hexp := readExponent_complete hclass hexponent hrest
    have hfrac := readFraction_complete hfraction hafter
    have hwh := readWhole?_complete hwhole hpast
    have hmin := readMinus_complete hminus hwhole (fraction ++ (exponent ++ rest))
    simp only [List.append_assoc]
    rw [read?_eq, hmin]
    dsimp only
    rw [hwh, Option.map_some]
    simp only [hfrac, hexp]

/-- A whole text is read as a numeral just if the grammar derives it. -/
theorem read?_eq_some_iff (hclass : ExtendsAscii digit?) : read? digit? cs = some (n, []) ↔ Derives digit? cs n := by
  constructor
  · intro h
    obtain ⟨front, hfront, hderives⟩ := derives_of_read? h
    rwa [hfront, List.append_nil]
  · intro h
    have hread : read? digit? (cs ++ []) = some (n, []) := read?_of_derives hclass h nofun
    rwa [List.append_nil] at hread

/-! ### Classes of digits -/

theorem Digits.mono {ds : List Nat} (h : Digits digit? cs ds)
    (hsub : ∀ c ∈ cs, ∀ d, digit? c = some d → digit?' c = some d) : Digits digit?' cs ds := by
  induction h with
  | nil => exact .nil
  | cons hc _ ih =>
    exact .cons (hsub _ List.mem_cons_self _ hc) (ih fun c hc => hsub c (List.mem_cons_of_mem _ hc))

/-- What is derived over one class of digits is derived over another that has the same characters of the text. -/
theorem Derives.mono (h : Derives digit? cs n) (hsub : ∀ c ∈ cs, ∀ d, digit? c = some d → digit?' c = some d) :
    Derives digit?' cs n := by
  cases h with
  | @parts minus whole fraction exponent negative ws fs x hminus hwhole hfraction hexponent =>
    simp only [List.forall_mem_append] at hsub
    obtain ⟨-, hsubw, hsubf, hsubx⟩ := hsub
    refine .parts hminus ?_ ?_ ?_
    · cases hwhole with
      | zero => exact .zero
      | digits hzero hd hdigits =>
        exact .digits hzero hd (hdigits.mono fun c hc => hsubw c (List.mem_cons_of_mem _ hc))
    · cases hfraction with
      | absent => exact .absent
      | digits hne hdigits => exact .digits hne (hdigits.mono fun c hc => hsubf c (List.mem_cons_of_mem _ hc))
    · cases hexponent with
      | absent => exact .absent
      | digits hmark hsign hne hdigits =>
        exact .digits hmark hsign hne
          (hdigits.mono fun c hc => hsubx c (List.mem_cons_of_mem _ (List.mem_append_right _ hc)))

theorem Digits.isDigit {ds : List Nat} (h : Digits asciiDigit? cs ds) : ∀ c ∈ cs, c.isDigit = true := by
  induction h with
  | nil => exact nofun
  | cons hc _ ih => exact List.forall_mem_cons.2 ⟨isDigit_of_asciiDigit? hc, ih⟩

/-- The characters of a numeral over the ASCII digits. -/
theorem Derives.characters (h : Derives asciiDigit? cs n) :
    ∀ c ∈ cs, c.isDigit = true ∨ c ∈ ['-', '+', '.', 'e', 'E'] := by
  cases h with
  | @parts minus whole fraction exponent negative ws fs x hminus hwhole hfraction hexponent =>
    have hdigits : ∀ {cs : List Char} {ds : List Nat}, Digits asciiDigit? cs ds →
        ∀ c ∈ cs, c.isDigit = true ∨ c ∈ ['-', '+', '.', 'e', 'E'] := fun h c hc => .inl (h.isDigit c hc)
    simp only [List.forall_mem_append]
    refine ⟨?_, ?_, ?_, ?_⟩
    · cases hminus with
      | absent => exact nofun
      | minus => exact List.forall_mem_singleton.2 (by decide)
    · cases hwhole with
      | zero => exact List.forall_mem_singleton.2 (by decide)
      | digits _ hd hds => exact List.forall_mem_cons.2 ⟨.inl (isDigit_of_asciiDigit? hd), hdigits hds⟩
    · cases hfraction with
      | absent => exact nofun
      | digits _ hds => exact List.forall_mem_cons.2 ⟨by decide, hdigits hds⟩
    · cases hexponent with
      | absent => exact nofun
      | digits hmark hsign _ hds =>
        refine List.forall_mem_cons.2 ⟨?_, List.forall_mem_append.2 ⟨?_, hdigits hds⟩⟩
        · rcases hmark with rfl | rfl <;> decide
        · cases hsign with
          | absent => exact nofun
          | plus | minus => exact List.forall_mem_singleton.2 (by decide)

/-- Over the ASCII digits nothing is derived but ASCII text. -/
theorem Derives.ascii (h : Derives asciiDigit? cs n) : ∀ c ∈ cs, c.toNat < 128 := by
  intro c hc
  rcases h.characters c hc with hdigit | hmark
  · exact Nat.lt_of_le_of_lt (Char.isDigit_iff_toNat.1 hdigit).2 (by decide)
  · simp only [List.mem_cons, List.not_mem_nil, or_false] at hmark
    rcases hmark with rfl | rfl | rfl | rfl | rfl <;> decide

/-- The grammar over the ASCII digits is that over a larger class, on ASCII text. -/
theorem derives_ascii_iff (hclass : ExtendsAscii digit?) :
    Derives asciiDigit? cs n ↔ Derives digit? cs n ∧ ∀ c ∈ cs, c.toNat < 128 := by
  constructor
  · intro h
    exact ⟨h.mono fun c hc d hd => (hclass c (h.ascii c hc)).trans hd, h.ascii⟩
  · rintro ⟨h, hascii⟩
    exact h.mono fun c hc d hd => (hclass c (hascii c hc)).symm.trans hd

/-- A JSON number is a numeral over the digits of all scripts. -/
theorem Derives.decimal (h : Derives asciiDigit? cs n) : Derives Text.decimalDigit? cs n :=
  ((derives_ascii_iff extendsAscii_decimalDigit).1 h).1

/-! ### Numerals that are too long -/

theorem Digits.lt_ten {ds : List Nat} (h : Digits asciiDigit? cs ds) : ∀ d ∈ ds, d < 10 := by
  induction h with
  | nil => exact nofun
  | cons hc _ ih => exact List.forall_mem_cons.2 ⟨(asciiDigit?_bounds hc).1, ih⟩

/-- A whole part has too many digits just if its value is too large. -/
theorem WholeText.lt_iff {ws : List Nat} (h : WholeText asciiDigit? cs ws) {limit : Nat} (hlimit : 0 < limit) :
    digitsValue ws < 10 ^ limit ↔ ws.length ≤ limit := by
  cases h with
  | zero => exact iff_of_true (Nat.pow_pos (by decide)) hlimit
  | @digits c cs d ds hne hd hds =>
    obtain ⟨hlt, hpos⟩ := asciiDigit?_bounds hd
    have hupper : digitsValue (d :: ds) < 10 ^ (d :: ds).length :=
      digitsValue_lt (List.forall_mem_cons.2 ⟨hlt, hds.lt_ten⟩)
    have hlower : 10 ^ ds.length ≤ digitsValue (d :: ds) := by
      rw [digitsValue_cons]
      exact Nat.le_trans (Nat.le_mul_of_pos_left _ (hpos hne)) (Nat.le_add_right _ _)
    constructor
    · intro h
      exact (Nat.pow_lt_pow_iff_right (by decide)).1 (Nat.lt_of_le_of_lt hlower h)
    · intro h
      exact Nat.lt_of_lt_of_le hupper (Nat.pow_le_pow_right (by decide) h)

/-- A numeral is taken for its value just if the value can be written. -/
theorem Derives.value?_eq_ok_iff (h : Derives asciiDigit? cs n) :
    n.value? = .ok x ↔ n.value = x ∧ x.isWritable = true := by
  cases h with
  | @parts minus whole fraction exponent negative ws fs e hminus hwhole hfraction hexponent =>
    have hwritable : (Numeral.mk negative ws fs e).value.isWritable = true ↔
        ¬ ((Numeral.mk negative ws fs e).isInteger = true ∧ digitLimit < ws.length) := by
      have hinteger : (Numeral.mk negative ws fs e).isInteger = true ↔ fs = [] ∧ e = none := by
        simp [isInteger]
      rw [hinteger, value]
      split
      next hi =>
        have hlt := hwhole.lt_iff (show 0 < digitLimit by decide)
        have habs : (if negative = true then -(digitsValue ws : Int) else digitsValue ws).natAbs = digitsValue ws := by
          split <;> omega
        have hboth : fs = [] ∧ e = none := hi
        simp only [Number.isWritable_int, habs, hlt, iff_true_intro hboth, true_and, Nat.not_lt]
      next hi => exact iff_of_true rfl fun h => hi h.1
    rw [value?]
    split
    next hover =>
      refine iff_of_false nofun ?_
      rintro ⟨rfl, hw⟩
      exact hwritable.1 hw hover
    next hnot =>
      rw [Except.ok.injEq]
      exact ⟨fun hx => ⟨hx, hx ▸ hwritable.2 hnot⟩, And.left⟩

end JsonQuery.Numeral
