import JsonQuery.Proofs.Token.Spelling
import Mathlib.Data.List.TakeWhile

/-! Texts side by side. No lexeme goes on past a blank, nor is one read in another way because of what comes
    after a blank. So a text, a blank and another text are cut into the lexemes of the one and then those of the
    other. -/

namespace JsonQuery

variable {blank : Char} {rest : List Char}

theorem takeWhile_append_of_neg {α : Type} {p : α → Bool} {x : α} (hx : p x = false) (ys : List α) :
    ∀ xs : List α, (xs ++ x :: ys).takeWhile p = xs.takeWhile p := by
  intro xs
  induction xs with
  | nil => simp [hx]
  | cons a xs ih => cases ha : p a <;> simp [ha, ih]

theorem takeDigits_append_of_none {digit? : Char → Option Nat} (hb : digit? blank = none) (rest : List Char) :
    ∀ cs : List Char, (takeDigits digit? (cs ++ blank :: rest)).1 = (takeDigits digit? cs).1 ∧
      (takeDigits digit? cs).1.length ≤ cs.length := by
  intro cs
  induction cs with
  | nil => simp [takeDigits, hb]
  | cons c cs ih =>
    cases hc : digit? c with
    | none => simp [takeDigits, hc]
    | some d => simp [takeDigits, hc, ih]

namespace Lexeme

theorem isNameChar_of_isSpace (h : Json.isSpace blank = true) : isNameChar blank = false := by
  rcases Json.eq_of_isSpace h with rfl | rfl | rfl | rfl <;> decide

theorem asciiDigit?_of_isSpace (h : Json.isSpace blank = true) : asciiDigit? blank = none := by
  rcases Json.eq_of_isSpace h with rfl | rfl | rfl | rfl <;> decide

/-! ### What a lexeme is read from -/

/-- What a bracket is depends on the next character alone. -/
theorem read_lbracket_eq (cs : List Char) : read '[' cs =
    if cs.head? = some ']' then .ok (mark .flatten, 1)
    else if cs.head? = some '?' then .ok (mark .filter, 1)
    else .ok (mark .lbracket, 0) := by
  cases cs with
  | nil => rfl
  | cons d ds =>
    by_cases hclose : d = ']'
    · subst hclose
      rfl
    by_cases hask : d = '?'
    · subst hask
      rfl
    rw [@read_lbracket (d :: ds) (by simp [hclose, hask])]
    simp [hclose, hask]

theorem read_lbracket_append (h : Json.isSpace blank = true) {cs : List Char} {l : Lexeme} {n : Nat}
    (hread : read '[' cs = .ok (l, n)) : read '[' (cs ++ blank :: rest) = .ok (l, n) ∧ n ≤ cs.length := by
  cases cs with
  | nil =>
    cases hread
    rcases Json.eq_of_isSpace h with rfl | rfl | rfl | rfl <;> exact ⟨rfl, Nat.le_refl 0⟩
  | cons d ds =>
    have hn : n ≤ 1 := by
      rw [read_lbracket_eq] at hread
      split at hread
      · cases hread
        exact Nat.le_refl 1
      · split at hread <;> cases hread <;> decide
    refine ⟨?_, Nat.le_trans hn (Nat.succ_pos _)⟩
    rw [read_lbracket_eq] at hread ⊢
    exact hread

/-- Whether the second character of a mark comes next is not changed by what is put after a text and a blank. -/
theorem head?_append_blank (h : Json.isSpace blank = true) {c : Char} {p : PairedMark}
    (hp : pairedMark? c = some p) (cs : List Char) :
    (cs ++ blank :: rest).head? = some p.second ↔ cs.head? = some p.second := by
  have hne : blank ≠ p.second := by
    rintro rfl
    unfold pairedMark? at hp
    split at hp <;> cases hp <;> cases h
  cases cs with
  | nil => simp [hne]
  | cons d ds => exact Iff.rfl

/-- A body does not depend on what comes after its delimiter. -/
theorem body?_append (more : List Char) {d : Char} (hd : d ≠ '\\') {cs body : List Char}
    (h : body? d cs = some body) : body? d (cs ++ more) = some body ∧ body.length < cs.length := by
  obtain ⟨rest, rfl, hp⟩ := pairs_of_body? h
  constructor
  · rw [List.append_assoc]
    exact body?_of_pairs hd (rest ++ more) hp
  · simp

/-- A lexeme is read alike if a blank and anything else are put after the text, and ends before the blank. -/
theorem read_append_blank (hb : Json.isSpace blank = true) {c : Char} {cs : List Char} {l : Lexeme} {n : Nat}
    (h : read c cs = .ok (l, n)) : read c (cs ++ blank :: rest) = .ok (l, n) ∧ n ≤ cs.length := by
  -- a bracket and a mark that may be doubled look one character further; the others stop at the blank
  by_cases hbracket : c = '['
  · subst hbracket
    exact read_lbracket_append hb h
  unfold read at h ⊢
  by_cases hname : isNameStart c = true
  · rw [if_pos hname] at h ⊢
    rw [takeWhile_append_of_neg (isNameChar_of_isSpace hb)]
    cases h
    exact ⟨rfl, (List.takeWhile_sublist _).length_le⟩
  rw [if_neg hname] at h ⊢
  by_cases hdigit : c.isDigit = true
  · obtain ⟨htake, hlength⟩ := takeDigits_append_of_none (asciiDigit?_of_isSpace hb) rest cs
    rw [if_pos hdigit] at h ⊢
    rw [htake]
    exact ⟨h, (ofDigits_map_eq_ok_iff.1 h).2.2 ▸ hlength⟩
  rw [if_neg hdigit, if_neg hbracket] at h ⊢
  split at h
  next m _ =>
    cases h
    exact ⟨rfl, Nat.zero_le _⟩
  next p hp =>
    simp only [head?_append_blank hb hp]
    refine ⟨h, ?_⟩
    split at h
    next hhead =>
      cases h
      exact List.length_pos_of_mem (List.mem_of_mem_head? hhead)
    next =>
      split at h
      next =>
        cases h
        exact Nat.zero_le _
      next => cases h
  next q _ _ _ =>
    cases hbody : body? q.delimiter cs with
    | none =>
      rw [hbody] at h
      cases h
    | some body =>
      obtain ⟨hmore, hlength⟩ := body?_append (blank :: rest) (delimiter_ne_backslash q) hbody
      rw [hbody] at h
      rw [hmore]
      refine ⟨h, ?_⟩
      cases hl : ofBody q body with
      | error cause => simp [hl, Except.map] at h
      | ok l' =>
        simp only [hl, Except.map, Except.ok.injEq, Prod.mk.injEq] at h
        exact h.2 ▸ hlength
  next => cases h

end Lexeme

/-! ### Texts -/

namespace Cut

open Json (skipSpace)

variable {cs ds : List Char} {ls ms : List Lexeme}

theorem skipSpace_append_of_nil (h : skipSpace cs = []) (ds : List Char) :
    skipSpace (cs ++ ds) = skipSpace ds :=
  List.dropWhile_append_of_pos (List.dropWhile_eq_nil_iff.1 h)

theorem skipSpace_append_of_cons {c : Char} (h : skipSpace cs = c :: ds) (more : List Char) :
    skipSpace (cs ++ more) = c :: (ds ++ more) := by
  rw [skipSpace, List.dropWhile_append, ← skipSpace, h]
  rfl

/-- The lexemes of two texts with a blank between them are those of the one and then those of the other. -/
theorem append_blank {blank : Char} {rest : List Char} (hb : Json.isSpace blank = true) (h : Cut cs ls)
    (hrest : Cut rest ms) : Cut (cs ++ blank :: rest) (ls ++ ms) := by
  induction h with
  | nil hnil =>
    refine hrest.of_skipSpace ?_
    rw [skipSpace_append_of_nil hnil, skipSpace, List.dropWhile_cons_of_pos hb]
    rfl
  | cons hcons hread _ ih =>
    obtain ⟨hread, hlength⟩ := Lexeme.read_append_blank hb hread
    refine .cons (skipSpace_append_of_cons hcons _) hread ?_
    rw [List.drop_append_of_le_length hlength]
    exact ih

end Cut

/-! ### Tokens before a blank -/

namespace Cursor

/-- A cursor in a text that goes on. -/
def extended (c : Cursor) (more : List Char) : Cursor := { c with rest := c.rest ++ more }

variable {c after : Cursor} {t : Token} {more : List Char}

theorem extended_advance {n : Nat} (hn : n ≤ c.rest.length) :
    (c.extended more).advance n = (c.advance n).extended more := by
  simp [extended, advance, List.take_append_of_le_length hn, List.drop_append_of_le_length hn]

theorem extended_skipBlanks (h : c.skipBlanks.rest ≠ []) :
    (c.extended more).skipBlanks = c.skipBlanks.extended more := by
  have hlength : (c.rest.takeWhile Json.isSpace).length ≠ c.rest.length := fun hlength => by
    refine h ?_
    rw [skipBlanks, advance, hlength]
    exact List.drop_length
  have htake : ((c.extended more).rest.takeWhile Json.isSpace) = c.rest.takeWhile Json.isSpace := by
    rw [extended, List.takeWhile_append, if_neg hlength]
  rw [skipBlanks, htake, extended_advance (List.takeWhile_sublist _).length_le]
  rfl

/-- A token is found alike if the text goes on with a blank and anything else. -/
theorem next_extended (hb : Json.isSpace blank = true) (h : c.next = .token t after) :
    (c.extended (blank :: rest)).next = .token t (after.extended (blank :: rest)) := by
  cases hr : c.skipBlanks.rest with
  | nil =>
    rw [next_of_nil hr] at h
    cases h
  | cons d ds =>
    cases hl : Lexeme.read d ds with
    | error cause =>
      rw [next_of_error hr hl] at h
      cases h
    | ok r =>
      rw [next_of_ok hr hl] at h
      cases h
      obtain ⟨hread, hlength⟩ := @Lexeme.read_append_blank blank rest hb d ds r.1 r.2 hl
      have hskip : (c.extended (blank :: rest)).skipBlanks = c.skipBlanks.extended (blank :: rest) :=
        extended_skipBlanks (by simp [hr])
      have hrest : (c.extended (blank :: rest)).skipBlanks.rest = d :: (ds ++ blank :: rest) := by
        rw [hskip, extended, hr]
        rfl
      have hn : r.2 + 1 ≤ c.skipBlanks.rest.length := by
        rw [hr]
        exact Nat.succ_le_succ hlength
      rw [next_of_ok hrest hread, hskip, extended_advance hn]
      rfl

/-- The tokens of a text come first if the text goes on with a blank, also where it has a fault. -/
theorem tokens_extended (hb : Json.isSpace blank = true) (rest : List Char) (c : Cursor) :
    ∃ us, (c.extended (blank :: rest)).scan.tokens = c.scan.tokens ++ us := by
  cases hn : c.next with
  | finish t => exact ⟨_, by rw [scan_of_finish hn]; rfl⟩
  | fault f => exact ⟨_, by rw [scan_of_fault hn]; rfl⟩
  | token t after =>
    obtain ⟨us, hus⟩ := tokens_extended hb rest after
    refine ⟨us, ?_⟩
    rw [scan_of_token hn, scan_of_token (next_extended hb hn), hus]
    rfl
termination_by c.rest.length
decreasing_by exact c.length_lt_of_next hn

end Cursor

end JsonQuery
