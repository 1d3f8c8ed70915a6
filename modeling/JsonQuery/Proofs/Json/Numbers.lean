import JsonQuery.Proofs.Function.Outcome
import JsonQuery.Proofs.Json.Equality
import JsonQuery.Proofs.Json.ReadBack
import JsonQuery.Proofs.Number.Grammar

/-! The numbers of JSON text. What a literal is read as has only numbers that are spelled in its text, so none is a
    NaN, and no object has a key twice; an infinity comes only from a numeral that is too large. The named constants
    are refused wherever they stand. So a value is read back from what is printed for it just if its numbers are
    finite: otherwise some number is printed as a named constant, and its text is refused. -/

namespace JsonQuery

/-- A number that is held by a value, at any depth. -/
inductive Value.HasNumber {ρ : Type} (n : Number) : Value ρ → Prop
  | number : HasNumber n (.number n)
  | item {items : List (Value ρ)} {x : Value ρ} : x ∈ items → HasNumber n x → HasNumber n (.array items)
  | member {members : Members (Value ρ)} {p : String × Value ρ} : p ∈ members → HasNumber n p.2 →
    HasNumber n (.object members)

/-- A value of which every number is finite. -/
def Value.Finite {ρ : Type} (v : Value ρ) : Prop := ∀ n, v.HasNumber n → n.isFinite = true

namespace Json

open Numeral (Derives)

/-- A value whose numbers are spelled in a text and whose objects have no key twice. -/
inductive SpelledIn (cs : List Char) : Json → Prop
  | null : SpelledIn cs .null
  | bool (b : Bool) : SpelledIn cs (.bool b)
  | number {text : List Char} {n : Numeral} {x : Number} : text <:+: cs → Derives asciiDigit? text n →
    n.value? = .ok x → SpelledIn cs (.number x)
  | string (s : String) : SpelledIn cs (.string s)
  | array {items : List Json} : (∀ x ∈ items, SpelledIn cs x) → SpelledIn cs (.array items)
  | object {members : Members Json} : members.Distinct → (∀ p ∈ members, SpelledIn cs p.2) →
    SpelledIn cs (.object members)

variable {cs ds rest : List Char} {v : Json} {bound : Nat}

theorem SpelledIn.mono (h : SpelledIn cs v) (hsub : cs <:+: ds) : SpelledIn ds v := by
  induction h with
  | null => exact .null
  | bool b => exact .bool b
  | number htext hn hx => exact .number (htext.trans hsub) hn hx
  | string s => exact .string s
  | array _ ih => exact .array ih
  | object hkeys _ ih => exact .object hkeys ih

/-- Each number of such a value is that of a numeral in the text. -/
theorem SpelledIn.of_hasNumber {x : Number} (hx : v.HasNumber x) (h : SpelledIn cs v) :
    ∃ text n, text <:+: cs ∧ Derives asciiDigit? text n ∧ n.value = x := by
  induction hx with
  | number =>
    cases h with
    | number htext hn hx => exact ⟨_, _, htext, hn, (hn.value?_eq_ok_iff.1 hx).1⟩
  | item hmem _ ih =>
    cases h with
    | array h => exact ih (h _ hmem)
  | member hmem _ ih =>
    cases h with
    | object _ h => exact ih (h _ hmem)

/-! ### What is read -/

theorem suffix_skipSpace (cs : List Char) : skipSpace cs <:+ cs := List.dropWhile_suffix _

/-- What comes after a character and the blanks before it. -/
theorem suffix_of_skipSpace {c : Char} (h : skipSpace cs = c :: ds) : ds <:+ cs :=
  (List.suffix_cons c ds).trans (h ▸ suffix_skipSpace cs)

theorem suffix_of_readChars {opening : Nat} : ∀ {cs : List Char} {n : Nat} {ds rest : List Char},
    readChars opening n cs = .ok (ds, rest) → rest <:+ cs := by
  intro cs
  induction cs with
  | nil =>
    intro n ds rest h
    cases n <;> cases h
  | cons c cs ih =>
    intro n ds rest h
    refine List.IsSuffix.trans ?_ (List.suffix_cons c cs)
    cases n with
    | succ n => exact ih (n := n) h
    | zero =>
      rw [readChars] at h
      split at h
      next =>
        cases h
        exact List.suffix_rfl
      next =>
        split at h
        next =>
          split at h
          next => cases h
          next =>
            obtain ⟨r, hr, heq⟩ := exists_of_map_eq_ok h
            cases heq
            exact ih hr
        next =>
          split at h
          next => cases h
          next =>
            obtain ⟨r, hr, heq⟩ := exists_of_map_eq_ok h
            cases heq
            exact ih hr

theorem suffix_of_readString {s : String} (h : readString cs = .ok (s, rest)) : rest <:+ cs := by
  obtain ⟨r, hr, heq⟩ := exists_of_map_eq_ok h
  cases heq
  exact suffix_of_readChars hr

/-- A word of a literal is no number. -/
theorem spelledIn_of_readWord? (h : readWord? .literal cs = some (.ok (v, rest))) :
    rest <:+ cs ∧ SpelledIn cs v := by
  unfold readWord? at h
  split at h
  next =>
    cases h
    exact ⟨List.drop_suffix 4 cs, .null⟩
  next =>
    split at h
    next =>
      cases h
      exact ⟨List.drop_suffix 4 cs, .bool true⟩
    next =>
      split at h
      next =>
        cases h
        exact ⟨List.drop_suffix 5 cs, .bool false⟩
      next =>
        obtain ⟨c, -, hc⟩ := Option.map_eq_some_iff.1 h
        cases hc

theorem spelledIn_of_readScalar (h : readScalar .literal cs = .ok (v, rest)) : rest <:+ cs ∧ SpelledIn cs v := by
  unfold readScalar at h
  split at h
  next r hword =>
    subst h
    exact spelledIn_of_readWord? hword
  next =>
    split at h
    next n more hread =>
      split at h
      next x hx =>
        cases h
        obtain ⟨front, rfl, hn⟩ := Numeral.derives_of_read? hread
        exact ⟨List.suffix_append front rest, .number (List.prefix_append front rest).isInfix hn hx⟩
      next => cases h
    next => cases h

mutual

/-- What is read from a literal is spelled in it. -/
theorem spelledIn_of_readValue : ∀ {bound : Nat} {cs : List Char} {v : Json} {rest : List Char},
    readValue .literal bound cs = .ok (v, rest) → rest <:+ cs ∧ SpelledIn cs v := by
  intro bound
  cases bound with
  | zero => exact nofun
  | succ bound =>
    intro cs v rest h
    rw [readValue.eq_def] at h
    dsimp only at h
    split at h
    next more =>
      obtain ⟨r, hr, heq⟩ := exists_of_map_eq_ok h
      cases heq
      exact ⟨(suffix_of_readString hr).trans (List.suffix_cons _ _), .string _⟩
    next more =>
      have hmore : skipSpace more <:+ '[' :: more := (suffix_skipSpace more).trans (List.suffix_cons _ _)
      split at h
      next after hskip =>
        cases h
        exact ⟨(suffix_of_skipSpace hskip).trans (List.suffix_cons _ _), .array (List.forall_mem_nil _)⟩
      next =>
        obtain ⟨r, hr, heq⟩ := exists_of_map_eq_ok h
        cases heq
        obtain ⟨hrest, hitems⟩ := spelledIn_of_readItems hr
        exact ⟨hrest.trans hmore, .array fun x hx => (hitems x hx).mono hmore.isInfix⟩
    next more =>
      have hmore : skipSpace more <:+ '{' :: more := (suffix_skipSpace more).trans (List.suffix_cons _ _)
      split at h
      next after hskip =>
        cases h
        exact ⟨(suffix_of_skipSpace hskip).trans (List.suffix_cons _ _), .object List.nodup_nil (List.forall_mem_nil _)⟩
      next =>
        obtain ⟨r, hr, heq⟩ := exists_of_map_eq_ok h
        cases heq
        obtain ⟨hrest, hmembers⟩ := spelledIn_of_readMembers hr
        refine ⟨hrest.trans hmore, .object (Members.distinct_ofPairs _) fun p hp => ?_⟩
        exact (hmembers p (Members.mem_of_mem_ofPairs hp)).mono hmore.isInfix
    next => exact spelledIn_of_readScalar h

theorem spelledIn_of_readItems : ∀ {bound : Nat} {cs : List Char} {items : List Json} {rest : List Char},
    readItems .literal bound cs = .ok (items, rest) → rest <:+ cs ∧ ∀ x ∈ items, SpelledIn cs x := by
  intro bound
  cases bound with
  | zero => exact nofun
  | succ bound =>
    intro cs items rest h
    rw [readItems] at h
    split at h
    next => cases h
    next x more hvalue =>
      obtain ⟨hmore, hx⟩ := spelledIn_of_readValue hvalue
      split at h
      next after hskip =>
        cases h
        exact ⟨(suffix_of_skipSpace hskip).trans hmore, List.forall_mem_singleton.2 hx⟩
      next after hskip =>
        obtain ⟨r, hr, heq⟩ := exists_of_map_eq_ok h
        cases heq
        obtain ⟨hrest, hitems⟩ := spelledIn_of_readItems hr
        have hafter : skipSpace after <:+ cs := (suffix_skipSpace after).trans ((suffix_of_skipSpace hskip).trans hmore)
        exact ⟨hrest.trans hafter, List.forall_mem_cons.2 ⟨hx, fun y hy => (hitems y hy).mono hafter.isInfix⟩⟩
      next => cases h

theorem spelledIn_of_readMembers : ∀ {bound : Nat} {cs : List Char} {ms : List (String × Json)} {rest : List Char},
    readMembers .literal bound cs = .ok (ms, rest) → rest <:+ cs ∧ ∀ p ∈ ms, SpelledIn cs p.2 := by
  intro bound
  cases bound with
  | zero => exact nofun
  | succ bound =>
    intro cs ms rest h
    rw [readMembers.eq_def] at h
    dsimp only at h
    split at h
    next more =>
      split at h
      next => cases h
      next k after hkey =>
        have hafter : after <:+ '\x22' :: more := (suffix_of_readString hkey).trans (List.suffix_cons _ _)
        split at h
        next colon hcolon =>
          have hstart : skipSpace colon <:+ '\x22' :: more :=
            (suffix_skipSpace colon).trans ((suffix_of_skipSpace hcolon).trans hafter)
          split at h
          next => cases h
          next v left hvalue =>
            obtain ⟨hleft, hv⟩ := spelledIn_of_readValue hvalue
            have hv := hv.mono hstart.isInfix
            have hleft := hleft.trans hstart
            split at h
            next last hskip =>
              cases h
              exact ⟨(suffix_of_skipSpace hskip).trans hleft, List.forall_mem_singleton.2 hv⟩
            next next hskip =>
              obtain ⟨r, hr, heq⟩ := exists_of_map_eq_ok h
              cases heq
              obtain ⟨hrest, hmembers⟩ := spelledIn_of_readMembers hr
              have hnext := (suffix_skipSpace next).trans ((suffix_of_skipSpace hskip).trans hleft)
              exact ⟨hrest.trans hnext, List.forall_mem_cons.2 ⟨hv, fun p hp => (hmembers p hp).mono hnext.isInfix⟩⟩
            next => cases h
        next => cases h
    next => cases h

end

theorem exists_of_read {d : Dialect} (h : read d cs = .ok v) :
    ∃ rest, readValue d (2 * cs.length + 1) (skipSpace cs) = .ok (v, rest) := by
  unfold read at h
  split at h
  next w hwhole =>
    cases h
    unfold readWhole at hwhole
    split at hwhole
    next => cases hwhole
    next =>
      split at hwhole
      next => cases hwhole
      next w rest hvalue =>
        split at hwhole
        next =>
          cases hwhole
          exact ⟨rest, hvalue⟩
        next => cases hwhole
  next => cases h

/-- What a literal stands for is spelled in its text. -/
theorem spelledIn_of_read (h : read .literal cs = .ok v) : SpelledIn cs v := by
  obtain ⟨rest, hvalue⟩ := exists_of_read h
  exact (spelledIn_of_readValue hvalue).2.mono (suffix_skipSpace cs).isInfix

/-! ### Values with finite numbers -/

theorem writableItems_iff : ∀ {items : List Json}, WritableItems items ↔ ∀ x ∈ items, Writable x := by
  intro items
  induction items with
  | nil => exact iff_of_true trivial (List.forall_mem_nil _)
  | cons x items ih => rw [WritableItems, ih, List.forall_mem_cons]

theorem writableMembers_iff : ∀ {members : List (String × Json)},
    WritableMembers members ↔ ∀ p ∈ members, Writable p.2 := by
  intro members
  induction members with
  | nil => exact iff_of_true trivial (List.forall_mem_nil _)
  | cons p members ih => rw [WritableMembers, ih, List.forall_mem_cons]

theorem finite_of_writable (h : v.Writable) : v.Finite := by
  intro x hx
  induction hx with
  | number => exact h.1
  | item hmem _ ih => exact ih (writableItems_iff.1 h _ hmem)
  | member hmem _ ih => exact ih (writableMembers_iff.1 h.2 _ hmem)

/-- JSON text can hold the value of a literal just if its numbers are finite. -/
theorem SpelledIn.writable_iff (h : SpelledIn cs v) : v.Writable ↔ v.Finite := by
  refine ⟨finite_of_writable, fun hfinite => ?_⟩
  induction h with
  | null | bool | string => trivial
  | number _ hn hx => exact ⟨hfinite _ .number, (hn.value?_eq_ok_iff.1 hx).2⟩
  | array _ ih => exact writableItems_iff.2 fun x hx => ih x hx fun n hn => hfinite n (.item hx hn)
  | object hkeys _ ih =>
    exact ⟨hkeys, writableMembers_iff.2 fun p hp => ih p hp fun n hn => hfinite n (.member hp hn)⟩

/-! ### Values that are not read back -/

theorem not_isSpace_of_isDigit {c : Char} (hc : c.isDigit = true) : isSpace c = false := by
  have hne : ∀ x : Char, x.isDigit = false → c ≠ x := by
    rintro x hx rfl
    rw [hx] at hc
    cases hc
  simp [isSpace, hne ' ' rfl, hne '\t' rfl, hne '\n' rfl, hne '\r' rfl]

theorem head_numberText (n : Number) : ∃ c cs, n.text = c :: cs ∧ isSpace c = false ∧ c ≠ ']' := by
  cases hfinite : n.isFinite with
  | false =>
    match n, hfinite with
    | .double .nan, _ => exact ⟨_, _, rfl, rfl, by decide⟩
    | .double (.infinite true), _ => exact ⟨_, _, rfl, rfl, by decide⟩
    | .double (.infinite false), _ => exact ⟨_, _, rfl, rfl, by decide⟩
  | true =>
    obtain ⟨numeral, hread, -⟩ := spells_number hfinite [] nofun
    obtain ⟨negative, c, cs, hcs, hc⟩ := head_of_read? hread
    rw [List.append_nil] at hcs
    cases negative with
    | true => exact ⟨_, _, hcs, rfl, by decide⟩
    | false => exact ⟨_, _, hcs, not_isSpace_of_isDigit hc, fun hbracket => absurd (hbracket ▸ hc) (by decide)⟩

/-- The text of a value starts with neither a blank nor a closing bracket. -/
theorem head_chars (v : Json) : ∃ c cs, v.chars = c :: cs ∧ isSpace c = false ∧ c ≠ ']' := by
  cases v with
  | null => exact ⟨_, _, rfl, rfl, by decide⟩
  | bool b => cases b <;> exact ⟨_, _, rfl, rfl, by decide⟩
  | string s => exact ⟨_, _, rfl, rfl, by decide⟩
  | array items => exact ⟨_, _, rfl, rfl, by decide⟩
  | object members => exact ⟨_, _, rfl, rfl, by decide⟩
  | reference r => exact nomatch r
  | number n => exact head_numberText n

theorem skipSpace_chars (v : Json) (rest : List Char) : skipSpace (v.chars ++ rest) = v.chars ++ rest := by
  obtain ⟨c, cs, hcs, hspace, -⟩ := head_chars v
  rw [hcs]
  exact skipSpace_cons hspace _

theorem head_itemsChars (x : Json) (items : List Json) : ∃ c cs, itemsChars (x :: items) = c :: cs ∧ c ≠ ']' := by
  obtain ⟨c, cs, hcs, -, hbracket⟩ := head_chars x
  cases items with
  | nil => exact ⟨c, cs, hcs, hbracket⟩
  | cons y items => exact ⟨c, _, by rw [itemsChars, hcs]; rfl, hbracket⟩

theorem skipSpace_itemsChars (x : Json) (items : List Json) (rest : List Char) :
    skipSpace (itemsChars (x :: items) ++ rest) = itemsChars (x :: items) ++ rest := by
  cases items with
  | nil => exact skipSpace_chars x rest
  | cons y items =>
    rw [itemsChars, List.append_assoc]
    exact skipSpace_chars x _

/-- A number that is not finite is printed as a named constant, which a literal refuses. -/
theorem readValue_not_finite {n : Number} (hn : n.isFinite = false) (bound : Nat) (rest : List Char) :
    ∃ e, readValue .literal bound (n.text ++ rest) = .error e := by
  cases bound with
  | zero => exact ⟨_, rfl⟩
  | succ bound =>
    match n, hn with
    | .double .nan, _ => exact ⟨_, rfl⟩
    | .double (.infinite true), _ => exact ⟨_, rfl⟩
    | .double (.infinite false), _ => exact ⟨_, rfl⟩

theorem readValue_array_error {items : List Json} {x : Json} {e : JsonCause × Nat}
    (h : readItems .literal bound (itemsChars (x :: items) ++ rest) = .error e) :
    readValue .literal (bound + 1) ('[' :: (itemsChars (x :: items) ++ rest)) = .error e := by
  obtain ⟨c, cs, hcs, hbracket⟩ := head_itemsChars x items
  rw [readValue, skipSpace_itemsChars]
  split
  next more hmore =>
    rw [hcs] at hmore
    exact absurd (List.cons.inj hmore).1 hbracket
  next =>
    rw [h]
    rfl

theorem readMembers_error {k : String} {e : JsonCause × Nat}
    (h : readValue .literal bound (v.chars ++ rest) = .error e) :
    readMembers .literal (bound + 1) (quotedString k ++ ':' :: (v.chars ++ rest)) = .error e := by
  have hcolon : skipSpace (':' :: (v.chars ++ rest)) = ':' :: (v.chars ++ rest) := rfl
  rw [quotedString, List.cons_append, readMembers, readString_key]
  simp only [hcolon, skipSpace_chars, h]

mutual

/-- What is printed for a value with a number that is not finite is refused as a literal. -/
theorem readValue_unwritable : ∀ {v : Json} {bound : Nat} {rest : List Char}, SpelledIn cs v → ¬ Writable v →
    2 * v.chars.length < bound → ∃ e, readValue .literal bound (v.chars ++ rest) = .error e
  | .null, _, _, _, h, _ => absurd trivial h
  | .bool _, _, _, _, h, _ => absurd trivial h
  | .string _, _, _, _, h, _ => absurd trivial h
  | .number n, bound, rest, .number _ hn hx, h, _ =>
    readValue_not_finite (Bool.eq_false_iff.2 fun hfinite => h ⟨hfinite, (hn.value?_eq_ok_iff.1 hx).2⟩) bound rest
  | .array [], _, _, _, h, _ => absurd trivial h
  | .array (x :: items), bound + 1, rest, .array hitems, h, hbound => by
    simp only [chars, List.length_cons, List.length_append, List.length_nil] at hbound
    obtain ⟨e, he⟩ : ∃ e, readItems .literal bound (itemsChars (x :: items) ++ ']' :: rest) = .error e :=
      readItems_unwritable hitems h (by omega)
    rw [chars, List.cons_append, List.append_assoc]
    exact ⟨e, readValue_array_error he⟩
  | .object [], _, _, _, h, _ => absurd ⟨List.nodup_nil, trivial⟩ h
  | .object ((k, v) :: members), bound + 1, rest, .object hkeys hmembers, h, hbound => by
    simp only [chars, List.length_cons, List.length_append, List.length_nil] at hbound
    obtain ⟨e, he⟩ : ∃ e, readMembers .literal bound (membersChars ((k, v) :: members) ++ '}' :: rest) = .error e :=
      readMembers_unwritable hmembers (fun hw => h ⟨hkeys, hw⟩) (by omega)
    obtain ⟨ds, hds⟩ := head_membersChars k v members
    rw [hds] at he
    rw [chars, List.cons_append, List.append_assoc, hds]
    show ∃ e, (readMembers .literal bound ('\x22' :: ds ++ '}' :: rest)).map _ = .error e
    exact ⟨e, by rw [he]; rfl⟩

theorem readItems_unwritable : ∀ {x : Json} {items : List Json} {bound : Nat} {rest : List Char},
    (∀ y ∈ x :: items, SpelledIn cs y) → ¬ WritableItems (x :: items) →
    2 * (itemsChars (x :: items)).length + 1 < bound →
    ∃ e, readItems .literal bound (itemsChars (x :: items) ++ ']' :: rest) = .error e
  | x, [], bound + 1, rest, hitems, h, hbound => by
    simp only [itemsChars] at hbound
    obtain ⟨e, he⟩ : ∃ e, readValue .literal bound (x.chars ++ ']' :: rest) = .error e :=
      readValue_unwritable (hitems x List.mem_cons_self) (fun hx => h ⟨hx, trivial⟩) (by omega)
    rw [itemsChars, readItems, he]
    exact ⟨e, rfl⟩
  | x, y :: items, bound + 1, rest, hitems, h, hbound => by
    simp only [itemsChars, List.length_append, List.length_cons] at hbound
    obtain ⟨hx, hmore⟩ := List.forall_mem_cons.1 hitems
    rw [itemsChars, List.append_assoc, List.cons_append]
    by_cases hwritable : x.Writable
    · have hvalue : readValue .literal bound (x.chars ++ ',' :: (itemsChars (y :: items) ++ ']' :: rest)) =
          .ok (x, ',' :: (itemsChars (y :: items) ++ ']' :: rest)) :=
        readValue_chars hwritable (by omega) (numeralEnds_cons (by simp) _)
      obtain ⟨e, he⟩ : ∃ e, readItems .literal bound (itemsChars (y :: items) ++ ']' :: rest) = .error e :=
        readItems_unwritable hmore (fun hw => h ⟨hwritable, hw⟩) (by omega)
      rw [readItems_more hvalue, skipSpace_itemsChars, he]
      exact ⟨e, rfl⟩
    · obtain ⟨e, he⟩ : ∃ e, readValue .literal bound
          (x.chars ++ ',' :: (itemsChars (y :: items) ++ ']' :: rest)) = .error e :=
        readValue_unwritable hx hwritable (by omega)
      rw [readItems, he]
      exact ⟨e, rfl⟩

theorem readMembers_unwritable :
    ∀ {k : String} {v : Json} {members : List (String × Json)} {bound : Nat} {rest : List Char},
    (∀ p ∈ (k, v) :: members, SpelledIn cs p.2) → ¬ WritableMembers ((k, v) :: members) →
    2 * (membersChars ((k, v) :: members)).length + 1 < bound →
    ∃ e, readMembers .literal bound (membersChars ((k, v) :: members) ++ '}' :: rest) = .error e
  | k, v, [], bound + 1, rest, hmembers, h, hbound => by
    simp only [membersChars, List.length_append, List.length_cons] at hbound
    obtain ⟨e, he⟩ : ∃ e, readValue .literal bound (v.chars ++ '}' :: rest) = .error e :=
      readValue_unwritable (hmembers _ List.mem_cons_self) (fun hv => h ⟨hv, trivial⟩) (by omega)
    rw [membersChars, List.append_assoc, List.cons_append]
    exact ⟨e, readMembers_error he⟩
  | k, v, (l, w) :: members, bound + 1, rest, hmembers, h, hbound => by
    simp only [membersChars, List.length_append, List.length_cons] at hbound
    obtain ⟨hv, hmore⟩ := List.forall_mem_cons.1 hmembers
    rw [membersChars, List.append_assoc, List.cons_append, List.append_assoc, List.cons_append]
    by_cases hwritable : v.Writable
    · have hvalue : readValue .literal bound (v.chars ++ ',' :: (membersChars ((l, w) :: members) ++ '}' :: rest)) =
          .ok (v, ',' :: (membersChars ((l, w) :: members) ++ '}' :: rest)) :=
        readValue_chars hwritable (by omega) (numeralEnds_cons (by simp) _)
      obtain ⟨e, he⟩ : ∃ e, readMembers .literal bound (membersChars ((l, w) :: members) ++ '}' :: rest) = .error e :=
        readMembers_unwritable hmore (fun hw => h ⟨hwritable, hw⟩) (by omega)
      rw [readMembers_more hvalue, skipSpace_membersChars, he]
      exact ⟨e, rfl⟩
    · obtain ⟨e, he⟩ : ∃ e, readValue .literal bound
          (v.chars ++ ',' :: (membersChars ((l, w) :: members) ++ '}' :: rest)) = .error e :=
        readValue_unwritable hv hwritable (by omega)
      exact ⟨e, readMembers_error he⟩

end

/-- Reading what is printed for a value that was read from a literal. -/
theorem read_text_iff (h : SpelledIn cs v) (w : Json) :
    read .literal (text v).toList = .ok w ↔ w = v ∧ v.Finite := by
  rw [← h.writable_iff]
  by_cases hv : v.Writable
  · rw [read_text hv, Except.ok.injEq, and_iff_left hv, eq_comm]
  · refine iff_of_false (fun hread => ?_) fun hw => hv hw.2
    obtain ⟨rest, hvalue⟩ := exists_of_read hread
    obtain ⟨e, he⟩ : ∃ e, readValue .literal (2 * (v.chars ++ []).length + 1) (v.chars ++ []) = .error e :=
      readValue_unwritable h hv (by rw [List.append_nil]; omega)
    rw [text, String.toList_ofList, ← List.append_nil v.chars, skipSpace_chars, he] at hvalue
    cases hvalue

end Json
end JsonQuery
