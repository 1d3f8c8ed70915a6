import JsonQuery.Text.Blank
import JsonQuery.Token.Lexer

/-! The tokens of a text, one step at a time. A scan is what is found first followed by the scan of the
    rest. Only the token of the end has the lexeme of the end, and a text of white space has no tokens. A *cut*
    of a text leaves out where the tokens stand: `Cut cs ls` says that a text is cut into some lexemes without a
    fault. -/

namespace JsonQuery

theorem drop_length_takeWhile {α : Type} {p : α → Bool} :
    ∀ xs : List α, xs.drop (xs.takeWhile p).length = xs.dropWhile p := by
  intro xs
  induction xs with
  | nil => rfl
  | cons x xs ih =>
    cases h : p x with
    | true => simp [h, ih]
    | false => simp [h]

/-! ### Classes of characters -/

theorem Json.eq_of_isSpace {c : Char} (h : isSpace c = true) : c = ' ' ∨ c = '\t' ∨ c = '\n' ∨ c = '\r' := by
  simpa only [isSpace, Bool.or_eq_true, decide_eq_true_eq, or_assoc] using h

theorem Text.code_of_isBlank {c : Char} (h : isBlank c = true) : c.toNat ≤ 32 ∨ 133 ≤ c.toNat := by
  simp only [isBlank, isBlankCode, Bool.or_eq_true, Bool.and_eq_true, decide_eq_true_eq, beq_iff_eq] at h
  omega

namespace Lexeme

theorem code_of_isNameStart {c : Char} (h : isNameStart c = true) : 65 ≤ c.toNat ∧ c.toNat ≤ 122 := by
  have h : ((decide ('A'.val ≤ c.val ∧ c.val ≤ 'Z'.val) ||
    (decide ('a'.val ≤ c.val) && decide (c.val ≤ 'z'.val)))
    || decide (c = '_')) = true := h
  simp only [Bool.or_eq_true, Bool.and_eq_true, decide_eq_true_eq, UInt32.le_iff_toNat_le] at h
  rcases h with (h | h) | rfl
  · exact ⟨h.1, Nat.le_trans h.2 (by decide)⟩
  · exact ⟨Nat.le_trans (by decide) h.1, h.2⟩
  · decide

theorem code_of_isDigit {c : Char} (h : c.isDigit = true) :
    48 ≤ c.toNat ∧ c.toNat ≤ 57 := Char.isDigit_iff_toNat.1 h

/-! ### The lexeme at the head of a text -/

theorem ofBody_ne_finish {q : Quotation} {body : List Char} {l : Lexeme} (h : ofBody q body = .ok l) :
    l ≠ .finish := by
  rintro rfl
  cases q with
  | name =>
    simp only [ofBody] at h
    split at h <;> cases h
  | rawString => cases h
  | literal => cases h

theorem ofDigits_of_le {digits : List Nat} (h : digits.length ≤ digitLimit) :
    ofDigits digits = .ok (number (digitsValue digits)) := if_neg (Nat.not_lt.2 h)

theorem ofDigits_of_lt {digits : List Nat} (h : digitLimit < digits.length) :
    ofDigits digits = .error (.overlong ⟨digits.length⟩) := if_pos h

/-- A number is read from its digits if there are not too many. -/
theorem ofDigits_map_eq_ok_iff {digits : List Nat} {l : Lexeme} {m n : Nat} :
    (ofDigits digits).map (fun l => (l, m)) = .ok (l, n) ↔
      digits.length ≤ digitLimit ∧ l = number (digitsValue digits) ∧ n = m := by
  by_cases h : digits.length ≤ digitLimit
  · rw [ofDigits_of_le h]
    constructor
    · intro hl
      cases hl
      exact ⟨h, rfl, rfl⟩
    · rintro ⟨-, rfl, rfl⟩
      rfl
  · rw [ofDigits_of_lt (Nat.not_le.1 h)]
    exact ⟨nofun, fun hl => absurd hl.1 h⟩

theorem read_ne_finish {c : Char} {cs : List Char} {l : Lexeme} {n : Nat} (h : read c cs = .ok (l, n)) :
    l ≠ .finish := by
  rintro rfl
  unfold read at h
  split at h
  · cases h
  split at h
  · exact absurd (ofDigits_map_eq_ok_iff.1 h).2.1 nofun
  split at h
  · split at h <;> cases h
  split at h
  · cases h
  · split at h
    · cases h
    · split at h <;> cases h
  · split at h
    next body hbody =>
      cases hq : ofBody _ body with
      | error cause => rw [hq] at h; cases h
      | ok l =>
        rw [hq] at h
        cases h
        exact ofBody_ne_finish hq rfl
    next => cases h
  · cases h

/-- White space that the lexer does not skip is no lexeme. -/
theorem read_of_isBlank {c : Char} (h : Text.isBlank c = true) (cs : List Char) :
    read c cs = .error (.unknownCharacter c) := by
  have hcode := Text.code_of_isBlank h
  have hname : isNameStart c = false := by
    cases hn : isNameStart c with
    | false => rfl
    | true => have := code_of_isNameStart hn; omega
  have hdigit : c.isDigit = false := by
    cases hn : c.isDigit with
    | false => rfl
    | true => have := code_of_isDigit hn; omega
  have hbracket : c ≠ '[' := by
    rintro rfl
    exact absurd h (by decide)
  have hsingle : singleMark? c = none := by
    unfold singleMark?
    split <;> first | rfl | exact absurd h (by decide)
  have hpaired : pairedMark? c = none := by
    unfold pairedMark?
    split <;> first | rfl | exact absurd h (by decide)
  have hquoted : quotation? c = none := by
    unfold quotation?
    split <;> first | rfl | exact absurd h (by decide)
  simp [read, hname, hdigit, hbracket, hsingle, hpaired, hquoted]

end Lexeme

/-- A text that is cut into some lexemes without a fault, wherever they stand. -/
inductive Cut : List Char → List Lexeme → Prop
  | nil {cs : List Char} : Json.skipSpace cs = [] → Cut cs []
  | cons {cs ds : List Char} {c : Char} {l : Lexeme} {n : Nat} {ls : List Lexeme} :
    Json.skipSpace cs = c :: ds → Lexeme.read c ds = .ok (l, n) → Cut (ds.drop n) ls → Cut cs (l :: ls)

/-- Blanks at the head of a text make no difference. -/
theorem Cut.of_skipSpace {cs ds : List Char} {ls : List Lexeme} (hskip : Json.skipSpace cs = Json.skipSpace ds)
    (h : Cut ds ls) : Cut cs ls := by
  cases h with
  | nil hnil => exact .nil (hskip.trans hnil)
  | cons hcons hread hrest => exact .cons (hskip.trans hcons) hread hrest

namespace Cursor

variable {c after : Cursor} {t : Token}

/-! ### What is found next -/

theorem next_of_nil (h : c.skipBlanks.rest = []) :
    c.next = .finish ⟨.finish, c.skipBlanks.position, c.skipBlanks.position, c.skipBlanks.offset⟩ := by
  simp only [next, h]

theorem next_of_error {d : Char} {ds : List Char} {cause : LexicalCause} (h : c.skipBlanks.rest = d :: ds)
    (hl : Lexeme.read d ds = .error cause) : c.next = .fault ⟨cause, c.skipBlanks.position⟩ := by
  simp only [next, h, hl]

theorem next_of_ok {d : Char} {ds : List Char} {l : Lexeme} {n : Nat} (h : c.skipBlanks.rest = d :: ds)
    (hl : Lexeme.read d ds = .ok (l, n)) :
    c.next = .token ⟨l, c.skipBlanks.position, c.skipBlanks.position + n + 1, c.skipBlanks.offset⟩
      (c.skipBlanks.advance (n + 1)) := by
  simp only [next, h, hl]

/-! ### Scans -/

theorem scan_of_finish (h : c.next = .finish t) : c.scan = ⟨[], .finish t⟩ := by
  rw [scan]
  split <;> simp_all

theorem scan_of_fault {f : LexicalFault} (h : c.next = .fault f) : c.scan = ⟨[], .fault f⟩ := by
  rw [scan]
  split <;> simp_all

theorem scan_of_token (h : c.next = .token t after) :
    c.scan = ⟨t :: after.scan.tokens, after.scan.ending⟩ := by
  rw [scan]
  split <;> simp_all

theorem rest_skipBlanks (c : Cursor) : c.skipBlanks.rest = c.rest.dropWhile Json.isSpace :=
  drop_length_takeWhile c.rest

/-! ### The lexeme of the end -/

theorem lexeme_of_next_finish (h : c.next = .finish t) : t.lexeme = .finish := by
  cases hr : c.skipBlanks.rest with
  | nil =>
    rw [next_of_nil hr] at h
    cases h
    rfl
  | cons d ds =>
    cases hl : Lexeme.read d ds with
    | error cause =>
      rw [next_of_error hr hl] at h
      cases h
    | ok r =>
      rw [next_of_ok hr hl] at h
      cases h

theorem lexeme_of_next_token (h : c.next = .token t after) : t.lexeme ≠ .finish := by
  cases hr : c.skipBlanks.rest with
  | nil =>
    rw [next_of_nil hr] at h
    cases h
  | cons d ds =>
    cases hl : Lexeme.read d ds with
    | error cause =>
      rw [next_of_error hr hl] at h
      cases h
    | ok r =>
      rw [next_of_ok hr hl] at h
      cases h
      exact Lexeme.read_ne_finish hl

theorem lexeme_of_ending {c : Cursor} {t : Token} (h : c.scan.ending = .finish t) : t.lexeme = .finish := by
  cases hn : c.next with
  | finish t' =>
    rw [scan_of_finish hn] at h
    cases h
    exact lexeme_of_next_finish hn
  | fault f => simp [scan_of_fault hn] at h
  | token t' after =>
    rw [scan_of_token hn] at h
    exact lexeme_of_ending h
termination_by c.rest.length
decreasing_by exact c.length_lt_of_next hn

theorem lexeme_of_mem_tokens {c : Cursor} {t : Token} (h : t ∈ c.scan.tokens) : t.lexeme ≠ .finish := by
  cases hn : c.next with
  | finish t' => simp [scan_of_finish hn] at h
  | fault f => simp [scan_of_fault hn] at h
  | token t' after =>
    rw [scan_of_token hn] at h
    rcases List.mem_cons.1 h with rfl | h
    · exact lexeme_of_next_token hn
    · exact lexeme_of_mem_tokens h
termination_by c.rest.length
decreasing_by exact c.length_lt_of_next hn

/-! ### Cuts -/

/-- A scan that ends without a fault shows how the text is cut. -/
theorem cut_of_scan {c : Cursor} {last : Token} (h : c.scan.ending = .finish last) :
    Cut c.rest (c.scan.tokens.map Token.lexeme) := by
  cases hr : c.skipBlanks.rest with
  | nil =>
    rw [scan_of_finish (next_of_nil hr)]
    exact .nil (c.rest_skipBlanks.symm.trans hr)
  | cons d ds =>
    cases hl : Lexeme.read d ds with
    | error cause =>
      rw [scan_of_fault (next_of_error hr hl)] at h
      cases h
    | ok r =>
      have hnext := next_of_ok hr hl
      have hafter : (c.skipBlanks.advance (r.2 + 1)).rest = ds.drop r.2 := by
        rw [advance, hr]
        rfl
      rw [scan_of_token hnext] at h ⊢
      exact .cons (c.rest_skipBlanks.symm.trans hr) hl (hafter ▸ cut_of_scan h)
termination_by c.rest.length
decreasing_by exact c.length_lt_of_next hnext

/-- How a text is cut shows what its scan gives. -/
theorem scan_of_cut {ls : List Lexeme} {c : Cursor} (h : Cut c.rest ls) :
    ∃ tokens last, c.scan = ⟨tokens, .finish last⟩ ∧ tokens.map Token.lexeme = ls := by
  obtain ⟨cs, hcs⟩ : ∃ cs, cs = c.rest := ⟨_, rfl⟩
  rw [← hcs] at h
  induction h generalizing c with
  | nil hnil =>
    have hr : c.skipBlanks.rest = [] := by rw [rest_skipBlanks, ← hcs]; exact hnil
    exact ⟨[], _, scan_of_finish (next_of_nil hr), rfl⟩
  | @cons cs ds d l n ls hcons hread _ ih =>
    have hr : c.skipBlanks.rest = d :: ds := by rw [rest_skipBlanks, ← hcs]; exact hcons
    have hafter : ds.drop n = (c.skipBlanks.advance (n + 1)).rest := by
      rw [advance, hr]
      rfl
    obtain ⟨tokens, last, hscan, hlexemes⟩ := ih hafter
    exact ⟨⟨l, _, _, _⟩ :: tokens, last, by rw [scan_of_token (next_of_ok hr hread), hscan],
      congrArg (l :: ·) hlexemes⟩

end Cursor

namespace Scan

/-- The lexemes of a scan that ends without a fault. -/
def lexemes? (s : Scan) : Option (List Lexeme) :=
  match s.ending with
  | .finish _ => some (s.tokens.map Token.lexeme)
  | .fault _ => none

theorem ofText_of_cut {cs : List Char} {ls : List Lexeme} (h : Cut cs ls) :
    ∃ tokens last, ofText cs = ⟨tokens, .finish last⟩ ∧ tokens.map Token.lexeme = ls := Cursor.scan_of_cut h

/-- A text is cut into the lexemes of its scan, unless there is a fault. -/
theorem cut_iff {cs : List Char} {ls : List Lexeme} : Cut cs ls ↔ (ofText cs).lexemes? = some ls := by
  constructor
  · intro h
    obtain ⟨tokens, last, hscan, rfl⟩ := ofText_of_cut h
    rw [hscan]
    rfl
  · intro h
    unfold lexemes? at h
    split at h
    next last hending =>
      cases h
      exact Cursor.cut_of_scan (c := .start cs) hending
    next => cases h

end Scan

instance (cs : List Char) (ls : List Lexeme) : Decidable (Cut cs ls) := decidable_of_iff _ Scan.cut_iff.symm

theorem Cut.length_tokens {cs : List Char} {ls : List Lexeme} (h : Cut cs ls) :
    (Scan.ofText cs).tokens.length = ls.length := by
  obtain ⟨tokens, last, hscan, rfl⟩ := Scan.ofText_of_cut h
  rw [hscan, List.length_map]

/-! ### White space -/

theorem Scan.tokens_of_blank {cs : List Char} (h : ∀ c ∈ cs, Text.isBlank c = true) :
    (ofText cs).tokens = [] := by
  have hrest : (Cursor.start cs).skipBlanks.rest = cs.dropWhile Json.isSpace :=
    (Cursor.start cs).rest_skipBlanks
  rw [ofText]
  cases hr : (Cursor.start cs).skipBlanks.rest with
  | nil => rw [Cursor.scan_of_finish (Cursor.next_of_nil hr)]
  | cons d ds =>
    have hd : d ∈ cs := by
      refine (List.dropWhile_sublist Json.isSpace).subset ?_
      rw [← hrest, hr]
      exact List.mem_cons_self
    rw [Cursor.scan_of_fault (Cursor.next_of_error hr (Lexeme.read_of_isBlank (h d hd) ds))]

end JsonQuery
