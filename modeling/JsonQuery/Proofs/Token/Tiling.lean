import JsonQuery.Expr.SyntaxError
import JsonQuery.Proofs.Token.Append
import JsonQuery.Proofs.Token.Spelling
import Mathlib.Data.String.Basic

/-! Tokens and the text that they are cut from. The tokens stand one after the other with nothing but blanks
    around them, up to the end of the text or up to the fault that stops the scan. The fault is that of a number
    which is too long just if more digits stand there than may be read. The offsets of tokens count the bytes of
    the text before them, and the characters of a token by themselves are cut into that token. A cursor is on a
    text if what it has counted agrees with what it has left; one step keeps this, and says what the whole scan
    does. -/

namespace JsonQuery

/-! ### A text cut short -/

theorem takeWhile_take {α : Type} {p : α → Bool} {xs : List α} {k : Nat} (h : (xs.takeWhile p).length ≤ k) :
    (xs.take k).takeWhile p = xs.takeWhile p := by
  rw [← List.take_takeWhile, List.take_of_length_le h]

theorem takeDigits_take {digit? : Char → Option Nat} : ∀ {cs : List Char} {k : Nat},
    (takeDigits digit? cs).1.length ≤ k → (takeDigits digit? (cs.take k)).1 = (takeDigits digit? cs).1 := by
  intro cs
  induction cs with
  | nil => simp
  | cons c cs ih =>
    intro k hk
    cases hc : digit? c with
    | none => cases k <;> simp [takeDigits, hc]
    | some d =>
      simp only [takeDigits, hc, List.length_cons] at hk
      obtain ⟨m, rfl⟩ : ∃ m, k = m + 1 := ⟨k - 1, by omega⟩
      simp [takeDigits, hc, ih (Nat.le_of_succ_le_succ hk)]

namespace Lexeme

theorem body?_take {d : Char} (hd : d ≠ '\\') {cs body : List Char} {k : Nat} (h : body? d cs = some body)
    (hk : body.length < k) : body? d (cs.take k) = some body := by
  obtain ⟨rest, rfl, hp⟩ := pairs_of_body? h
  obtain ⟨m, rfl⟩ : ∃ m, k = body.length + (m + 1) := ⟨k - body.length - 1, by omega⟩
  rw [List.take_length_add_append, List.take_succ_cons]
  exact body?_of_pairs hd _ hp

/-- A lexeme is read alike from a text that is cut short anywhere after it. -/
theorem read_take {c : Char} {cs : List Char} {l : Lexeme} {n k : Nat} (h : read c cs = .ok (l, n))
    (hk : n ≤ k) : read c (cs.take k) = .ok (l, n) := by
  by_cases hbracket : c = '['
  · subst hbracket
    rw [read_lbracket_eq] at h ⊢
    rw [List.head?_take]
    split at h
    · cases h
      simp_all [Nat.ne_of_gt hk]
    · split at h <;> cases h <;> split <;> simp_all
  unfold read at h ⊢
  by_cases hname : isNameStart c = true
  · rw [if_pos hname] at h ⊢
    cases h
    rw [takeWhile_take hk]
  rw [if_neg hname] at h ⊢
  by_cases hdigit : c.isDigit = true
  · rw [if_pos hdigit] at h ⊢
    have hlength := (ofDigits_map_eq_ok_iff.1 h).2.2
    rw [takeDigits_take (hlength ▸ hk)]
    exact h
  rw [if_neg hdigit, if_neg hbracket] at h ⊢
  split at h
  next m _ => exact h
  next p hp =>
    rw [List.head?_take]
    split at h
    next hhead =>
      cases h
      simp [hhead, Nat.ne_of_gt hk]
    next hhead =>
      rw [if_neg]
      · exact h
      · split <;> simp_all
  next q _ _ _ =>
    cases hbody : body? q.delimiter cs with
    | none =>
      rw [hbody] at h
      cases h
    | some body =>
      rw [hbody] at h
      cases hl : ofBody q body with
      | error cause => simp [hl, Except.map] at h
      | ok l' =>
        simp only [hl, Except.map, Except.ok.injEq, Prod.mk.injEq] at h
        obtain ⟨rfl, rfl⟩ := h
        rw [body?_take (delimiter_ne_backslash q) hbody hk]
        simp [hl, Except.map]
  next => cases h

theorem le_length_of_read {c : Char} {cs : List Char} {l : Lexeme} {n : Nat} (h : read c cs = .ok (l, n)) :
    n ≤ cs.length := (@read_append_blank ' ' [] rfl c cs l n h).2

/-! ### Numbers that are too long -/

theorem ofBody_overlong? {q : Quotation} {body : List Char} {cause : LexicalCause}
    (h : ofBody q body = .error cause) : cause.overlong? = none := by
  cases q with
  | name =>
    simp only [ofBody] at h
    split at h <;> cases h
    rfl
  | rawString => cases h
  | literal => cases h

theorem length_digits_of_isDigit {c : Char} (h : c.isDigit = true) (cs : List Char) :
    ((c.toNat - '0'.toNat) :: (takeDigits asciiDigit? cs).1).length = ((c :: cs).takeWhile Char.isDigit).length := by
  rw [List.takeWhile_cons_of_pos h, List.length_cons, List.length_cons, length_takeDigits]

/-- No number is read if more digits come next than may be read. -/
theorem read_overlong {c : Char} {cs : List Char} (h : digitLimit < ((c :: cs).takeWhile Char.isDigit).length) :
    read c cs = .error (.overlong ⟨((c :: cs).takeWhile Char.isDigit).length⟩) := by
  have hdigit : c.isDigit = true := by
    by_contra hdigit
    rw [List.takeWhile_cons_of_neg hdigit] at h
    exact Nat.not_lt_zero _ h
  have hlength := length_digits_of_isDigit hdigit cs
  rw [read_of_isDigit hdigit, ofDigits_of_lt (hlength ▸ h), hlength]
  rfl

/-- If no more digits come next than may be read, it is for something else that no lexeme is read. -/
theorem overlong?_of_read_within {c : Char} {cs : List Char} {cause : LexicalCause}
    (hwithin : ((c :: cs).takeWhile Char.isDigit).length ≤ digitLimit) (h : read c cs = .error cause) :
    cause.overlong? = none := by
  by_cases hdigit : c.isDigit = true
  · rw [read_of_isDigit hdigit, ofDigits_of_le (length_digits_of_isDigit hdigit cs ▸ hwithin)] at h
    cases h
  unfold read at h
  rw [if_neg hdigit] at h
  split at h
  · cases h
  split at h
  · split at h <;> cases h
  split at h
  · cases h
  · split at h
    · cases h
    · split at h <;> cases h
      rfl
  · split at h
    next body hbody =>
      cases hl : ofBody _ body with
      | error cause' =>
        rw [hl] at h
        cases h
        exact ofBody_overlong? hl
      | ok l =>
        rw [hl] at h
        cases h
    next =>
      cases h
      rfl
  · cases h
    rfl

/-- What a lexeme is not read for is a number that is too long, if more digits come next than may be read. -/
theorem overlong?_of_read {c : Char} {cs : List Char} {cause : LexicalCause} (h : read c cs = .error cause) :
    cause.overlong? =
      if digitLimit < ((c :: cs).takeWhile Char.isDigit).length then
        some ⟨((c :: cs).takeWhile Char.isDigit).length⟩
      else none := by
  split
  next hlt =>
    rw [read_overlong hlt] at h
    cases h
    rfl
  next hwithin => exact overlong?_of_read_within (Nat.not_lt.1 hwithin) h

end Lexeme

/-! ### Bytes -/

namespace Text

theorem utf8Length_append : ∀ cs ds : List Char, utf8Length (cs ++ ds) = utf8Length cs + utf8Length ds
  | [], ds => (Nat.zero_add _).symm
  | c :: cs, ds => by
    rw [List.cons_append, utf8Length, utf8Length, utf8Length_append cs ds, Nat.add_assoc]

theorem utf8Length_eq_utf8ByteSize : ∀ cs : List Char, utf8Length cs = (String.ofList cs).utf8ByteSize
  | [] => rfl
  | c :: cs => by
    have ih := utf8Length_eq_utf8ByteSize cs
    rw [String.utf8ByteSize_ofList] at ih ⊢
    rw [utf8Length, String.utf8Len_cons, ih, Nat.add_comm]

end Text

/-! ### Cursors on a text -/

/-- Two positions of a text with nothing but blanks between them. -/
structure BlankBetween (cs : List Char) (p q : Nat) : Prop where
  le : p ≤ q
  le_length : q ≤ cs.length
  blank : ∀ i (h : i < cs.length), p ≤ i → i < q → Json.isSpace cs[i] = true

/-- A cursor that stands in a text: what it has counted is what the text has before it. -/
structure Cursor.On (cs : List Char) (c : Cursor) : Prop where
  le_length : c.position ≤ cs.length
  rest : c.rest = cs.drop c.position
  offset : c.offset = Text.utf8Length (cs.take c.position)

/-- A token that is read from the characters of a text between its positions. -/
def Token.ReadIn (cs : List Char) (t : Token) : Prop :=
  ∃ d ds n, cs.drop t.start = d :: ds ∧ Lexeme.read d ds = .ok (t.lexeme, n) ∧ t.stop = t.start + n + 1

/-- What is found next from a position of a text, after any blanks: the end; a fault; or a token, after which
    the cursor stands. -/
inductive Found.From (cs : List Char) (p : Nat) : Found → Prop
  | finish : BlankBetween cs p cs.length →
    From cs p (.finish ⟨.finish, cs.length, cs.length, Text.utf8Length cs⟩)
  | fault {f : LexicalFault} {d : Char} {ds : List Char} : BlankBetween cs p f.position →
    cs.drop f.position = d :: ds → Lexeme.read d ds = .error f.cause → From cs p (.fault f)
  | token {t : Token} {after : Cursor} : BlankBetween cs p t.start → t.ReadIn cs →
    t.offset = Text.utf8Length (cs.take t.start) → after.On cs → after.position = t.stop →
    From cs p (.token t after)

namespace Cursor

variable {cs : List Char} {c : Cursor}

theorem on_start (cs : List Char) : (start cs).On cs where
  le_length := Nat.zero_le _
  rest := rfl
  offset := rfl

theorem On.advance (hc : c.On cs) {n : Nat} (hn : n ≤ c.rest.length) : (c.advance n).On cs where
  le_length := by
    rw [hc.rest, List.length_drop] at hn
    have := hc.le_length
    show c.position + n ≤ cs.length
    omega
  rest := by
    show c.rest.drop n = cs.drop (c.position + n)
    rw [hc.rest, List.drop_drop]
  offset := by
    show c.offset + Text.utf8Length (c.rest.take n) = Text.utf8Length (cs.take (c.position + n))
    rw [hc.offset, hc.rest, List.take_add, Text.utf8Length_append]

theorem On.skipBlanks (hc : c.On cs) :
    c.skipBlanks.On cs ∧ BlankBetween cs c.position c.skipBlanks.position := by
  have hle := (List.takeWhile_sublist (l := c.rest) Json.isSpace).length_le
  have hon := hc.advance hle
  refine ⟨hon, Nat.le_add_right _ _, hon.le_length, fun i h hp hq => ?_⟩
  have hlt : i - c.position < (c.rest.takeWhile Json.isSpace).length := Nat.sub_lt_left_of_lt_add hp hq
  have hget : (c.rest.takeWhile Json.isSpace)[i - c.position] = cs[i] := by
    rw [(List.takeWhile_prefix Json.isSpace).getElem hlt]
    simp [hc.rest, Nat.add_sub_cancel' hp]
  exact hget ▸ List.mem_takeWhile_imp (List.getElem_mem hlt)

/-- One step from a cursor on a text. -/
theorem next_from (hc : c.On cs) : c.next.From cs c.position := by
  obtain ⟨hon, hblank⟩ := hc.skipBlanks
  cases hr : c.skipBlanks.rest with
  | nil =>
    have hend : c.skipBlanks.position = cs.length :=
      Nat.le_antisymm hon.le_length (List.drop_eq_nil_iff.1 (hon.rest ▸ hr))
    have hoffset : c.skipBlanks.offset = Text.utf8Length cs := by rw [hon.offset, hend, List.take_length]
    rw [next_of_nil hr, hend, hoffset]
    exact .finish (hend ▸ hblank)
  | cons d ds =>
    cases hl : Lexeme.read d ds with
    | error cause =>
      rw [next_of_error hr hl]
      exact .fault hblank (hon.rest ▸ hr) hl
    | ok r =>
      obtain ⟨l, n⟩ := r
      have hn := Lexeme.le_length_of_read hl
      rw [next_of_ok hr hl]
      refine .token hblank ⟨d, ds, n, hon.rest ▸ hr, hl, rfl⟩ hon.offset (hon.advance ?_) rfl
      rw [hr]
      exact Nat.succ_le_succ hn

end Cursor

/-! ### Tokens and their characters -/

namespace Token.ReadIn

variable {cs : List Char} {t : Token} {p : Nat} {ls : List Lexeme}

theorem lt (h : t.ReadIn cs) : t.start < t.stop := by
  obtain ⟨_, _, n, -, -, hstop⟩ := h
  omega

theorem ne_finish (h : t.ReadIn cs) : t.lexeme ≠ .finish := by
  obtain ⟨_, _, _, -, hread, -⟩ := h
  exact Lexeme.read_ne_finish hread

/-- A text that starts with a token is cut into the token and what the rest is cut into, wherever the text
    is cut short. -/
theorem cut (h : t.ReadIn cs) (hp : t.stop ≤ p) (hls : Cut (cs.extract t.stop p) ls) :
    Cut (cs.extract t.start p) (t.lexeme :: ls) := by
  obtain ⟨d, ds, n, hdrop, hread, hstop⟩ := h
  obtain ⟨k, rfl⟩ : ∃ k, p = t.start + (n + 1 + k) := ⟨p - t.stop, by omega⟩
  have hslice : cs.extract t.start (t.start + (n + 1 + k)) = d :: ds.take (n + k) := by
    rw [List.extract_eq_take_drop, hdrop, Nat.add_sub_cancel_left, Nat.add_right_comm, List.take_succ_cons]
  have hrest : cs.extract t.stop (t.start + (n + 1 + k)) = (ds.take (n + k)).drop n := by
    rw [List.extract_eq_take_drop, hstop, Nat.add_assoc t.start n 1, ← List.drop_drop, hdrop,
      List.drop_succ_cons, List.drop_take]
    congr 1
    omega
  have hread := Lexeme.read_take hread (Nat.le_add_right n k)
  rw [hrest] at hls
  rw [hslice]
  exact .cons (List.dropWhile_cons_of_neg (by simp [Lexeme.isSpace_of_read hread])) hread hls

theorem cut_alone (h : t.ReadIn cs) : Cut (cs.extract t.start t.stop) [t.lexeme] :=
  h.cut (Nat.le_refl _) (.nil (by simp [Json.skipSpace]))

end Token.ReadIn

/-! ### Tilings -/

/-- Tokens that stand one after the other between two positions of a text, with nothing but blanks around
    them. -/
structure Tiling (cs : List Char) (first : Nat) (tokens : List Token) (stop : Nat) : Prop where
  length_le : first + tokens.length ≤ stop
  stop_le : stop ≤ cs.length
  nonempty : ∀ t ∈ tokens, t.start < t.stop
  within : ∀ t ∈ tokens, first ≤ t.start ∧ t.stop ≤ stop
  ordered : tokens.Pairwise fun t u => t.stop ≤ u.start
  blank : ∀ i (h : i < cs.length), first ≤ i → i < stop → (∀ t ∈ tokens, i < t.start ∨ t.stop ≤ i) →
    Json.isSpace cs[i] = true

namespace Tiling

variable {cs : List Char} {p q : Nat} {t : Token} {ts : List Token}

theorem nil (h : BlankBetween cs p q) : Tiling cs p [] q where
  length_le := h.le
  stop_le := h.le_length
  nonempty := by simp
  within := by simp
  ordered := .nil
  blank i hi hp hq _ := h.blank i hi hp hq

theorem cons (h : BlankBetween cs p t.start) (ht : t.start < t.stop) (hts : Tiling cs t.stop ts q) :
    Tiling cs p (t :: ts) q where
  length_le := by
    have := h.le
    have := hts.length_le
    simp only [List.length_cons]
    omega
  stop_le := hts.stop_le
  nonempty := List.forall_mem_cons.2 ⟨ht, hts.nonempty⟩
  within := by
    have := h.le
    have := hts.length_le
    refine List.forall_mem_cons.2 ⟨⟨h.le, by omega⟩, fun u hu => ?_⟩
    have := hts.within u hu
    omega
  ordered := .cons (fun u hu => (hts.within u hu).1) hts.ordered
  blank i hi hp hq hoff := by
    obtain ⟨ht, hoff⟩ := List.forall_mem_cons.1 hoff
    rcases ht with ht | ht
    · exact h.blank i hi hp ht
    · exact hts.blank i hi ht hq hoff

end Tiling

/-- The number of bytes of a text before a position. -/
def bytesBefore (text : String) (position : Nat) : Nat :=
  (String.ofList (text.toList.take position)).utf8ByteSize

/-- How many digits a text has in a row from a position on. -/
def digitsAt (text : String) (position : Nat) : Nat := ((text.toList.drop position).takeWhile Char.isDigit).length

/-- Tokens and an ending that account for a whole text from a position on. The tokens tile it up to `stop`;
    there is the end of the text or the first fault, which is a number that is too long if more digits stand
    there than may be read, and otherwise an error of the text. The offsets count bytes, and each token is what
    its own characters are cut into. -/
structure Scan.Covers (text : String) (first : Nat) (s : Scan) (stop : Nat) : Prop where
  tiling : Tiling text.toList first s.tokens stop
  ne_finish : ∀ t ∈ s.tokens, t.lexeme ≠ .finish
  offset : ∀ t ∈ s.tokens, t.offset = bytesBefore text t.start
  alone : ∀ t ∈ s.tokens, (ofText (text.toList.extract t.start t.stop)).lexemes? = some [t.lexeme]
  finish : ∀ t, s.ending = .finish t →
    stop = text.length ∧ t = ⟨.finish, text.length, text.length, text.utf8ByteSize⟩
  fault : ∀ f, s.ending = .fault f → f.position = stop ∧ stop < text.length ∧
    (SyntaxError.lexical f).offset text = bytesBefore text stop ∧
    f.cause.overlong? = if digitLimit < digitsAt text stop then some ⟨digitsAt text stop⟩ else none

theorem bytesBefore_eq (text : String) (p : Nat) :
    bytesBefore text p = Text.utf8Length (text.toList.take p) := (Text.utf8Length_eq_utf8ByteSize _).symm

namespace Scan

variable {text : String} {p q : Nat} {t : Token}

theorem covers_finish (h : BlankBetween text.toList p text.toList.length) : Covers text p
    ⟨[], .finish ⟨.finish, text.toList.length, text.toList.length, Text.utf8Length text.toList⟩⟩
    text.toList.length where
  tiling := .nil h
  ne_finish := by simp
  offset := by simp
  alone := by simp
  finish u hu := by
    cases hu
    rw [Text.utf8Length_eq_utf8ByteSize, String.ofList_toList, String.length_toList]
    exact ⟨rfl, rfl⟩
  fault := by simp

theorem covers_fault {f : LexicalFault} {d : Char} {ds : List Char} (h : BlankBetween text.toList p f.position)
    (hdrop : text.toList.drop f.position = d :: ds) (hread : Lexeme.read d ds = .error f.cause) :
    Covers text p ⟨[], .fault f⟩ f.position where
  tiling := .nil h
  ne_finish := by simp
  offset := by simp
  alone := by simp
  finish := by simp
  fault g hg := by
    cases hg
    have hlt : f.position < text.toList.length := by
      have hlength := congrArg List.length hdrop
      simp only [List.length_drop, List.length_cons] at hlength
      omega
    refine ⟨rfl, String.length_toList ▸ hlt, (bytesBefore_eq text f.position).symm, ?_⟩
    rw [digitsAt, hdrop]
    exact Lexeme.overlong?_of_read hread

theorem covers_token {s : Scan} (h : BlankBetween text.toList p t.start) (ht : t.ReadIn text.toList)
    (hoffset : t.offset = Text.utf8Length (text.toList.take t.start)) (hs : Covers text t.stop s q) :
    Covers text p ⟨t :: s.tokens, s.ending⟩ q where
  tiling := .cons h ht.lt hs.tiling
  ne_finish := List.forall_mem_cons.2 ⟨ht.ne_finish, hs.ne_finish⟩
  offset := List.forall_mem_cons.2 ⟨hoffset.trans (bytesBefore_eq text _).symm, hs.offset⟩
  alone := List.forall_mem_cons.2 ⟨cut_iff.1 ht.cut_alone, hs.alone⟩
  finish := hs.finish
  fault := hs.fault

/-- The scan from a cursor on a text covers what is left of the text. -/
theorem covers_of_on {c : Cursor} (hc : c.On text.toList) : ∃ stop, Covers text c.position c.scan stop := by
  have hfrom := Cursor.next_from hc
  cases hn : c.next with
  | finish t =>
    rw [hn] at hfrom
    cases hfrom with
    | finish hblank => exact ⟨_, Cursor.scan_of_finish hn ▸ covers_finish hblank⟩
  | fault f =>
    rw [hn] at hfrom
    cases hfrom with
    | fault hblank hdrop hread => exact ⟨_, Cursor.scan_of_fault hn ▸ covers_fault hblank hdrop hread⟩
  | token t after =>
    rw [hn] at hfrom
    cases hfrom with
    | token hblank ht hoffset hafter hstop =>
      obtain ⟨stop, hcovers⟩ := covers_of_on hafter
      rw [hstop] at hcovers
      exact ⟨stop, Cursor.scan_of_token hn ▸ covers_token hblank ht hoffset hcovers⟩
termination_by c.rest.length
decreasing_by exact c.length_lt_of_next hn

/-- A text without faults is tiled up to its end. -/
theorem tiling_of_finish {last : Token} (hlast : (ofText text.toList).ending = .finish last) :
    Tiling text.toList 0 (ofText text.toList).tokens text.length ∧
      last = ⟨.finish, text.length, text.length, text.utf8ByteSize⟩ := by
  obtain ⟨stop, hcovers⟩ := covers_of_on (Cursor.on_start text.toList)
  obtain ⟨rfl, hend⟩ := hcovers.finish last hlast
  exact ⟨hcovers.tiling, hend⟩

theorem offset_of_mem (ht : t ∈ (ofText text.toList).tokens) : t.offset = bytesBefore text t.start := by
  obtain ⟨stop, hcovers⟩ := covers_of_on (Cursor.on_start text.toList)
  exact hcovers.offset t ht

theorem digitsAt_length (text : String) : digitsAt text text.length = 0 := by
  rw [digitsAt, ← String.length_toList, List.drop_length]
  rfl

/-- The scan of a text covers it: the tokens tile it up to the end or up to the first fault. The fault is an error of
    the text just if no more digits stand where the scan stops than may be read. -/
theorem ofText_covers (text : String) : ∃ stop, Covers text 0 (ofText text.toList) stop ∧
    ((∀ f, (ofText text.toList).ending = .fault f → f.cause.overlong? = none) ↔
      digitsAt text stop ≤ digitLimit) := by
  obtain ⟨stop, hcovers⟩ := covers_of_on (Cursor.on_start text.toList)
  refine ⟨stop, hcovers, ?_⟩
  cases hending : (ofText text.toList).ending with
  | finish t =>
    have hdigits : digitsAt text stop = 0 := by rw [(hcovers.finish t hending).1, digitsAt_length]
    exact ⟨fun _ => hdigits ▸ Nat.zero_le _, fun _ => nofun⟩
  | fault f =>
    have hcause := (hcovers.fault f hending).2.2.2
    constructor
    · intro h
      by_contra hlong
      rw [h f rfl, if_pos (Nat.not_le.1 hlong)] at hcause
      cases hcause
    · rintro hle _ ⟨⟩
      rw [hcause, if_neg (Nat.not_lt.2 hle)]

/-- A row of digits alone is no number if it is too long. -/
theorem ofText_digits {cs : List Char} (hdigit : ∀ c ∈ cs, c.isDigit = true) (hlength : digitLimit < cs.length) :
    ofText cs = ⟨[], .fault ⟨.overlong ⟨cs.length⟩, 0⟩⟩ := by
  cases cs with
  | nil => exact absurd hlength (Nat.not_lt_zero _)
  | cons c cs =>
    have hc := hdigit c List.mem_cons_self
    have hspace : Json.isSpace c = false := by
      cases hs : Json.isSpace c with
      | false => rfl
      | true => rcases Json.eq_of_isSpace hs with rfl | rfl | rfl | rfl <;> cases hc
    have hskip : (Cursor.start (c :: cs)).skipBlanks = Cursor.start (c :: cs) := by
      simp [Cursor.skipBlanks, Cursor.start, Cursor.advance, hspace, Text.utf8Length]
    have hall : (c :: cs).takeWhile Char.isDigit = c :: cs := List.takeWhile_eq_self_iff.2 hdigit
    have hread := Lexeme.read_overlong (hall.symm ▸ hlength)
    rw [hall] at hread
    have hrest : (Cursor.start (c :: cs)).skipBlanks.rest = c :: cs := by rw [hskip]; rfl
    rw [ofText, Cursor.scan_of_fault (Cursor.next_of_error hrest hread), hskip]
    rfl

/-- A zero more than may be read is neither a number nor an error of the text. -/
theorem ofText_zeros :
    ofText (String.ofList (List.replicate 4301 '0')).toList = ⟨[], .fault ⟨.overlong ⟨4301⟩, 0⟩⟩ ∧
      (LexicalCause.overlong ⟨4301⟩).overlong? ≠ none := by
  refine ⟨?_, nofun⟩
  rw [String.toList_ofList, ofText_digits (fun c hc => List.eq_of_mem_replicate hc ▸ rfl)
    (by rw [List.length_replicate]; decide), List.length_replicate]

end Scan

end JsonQuery
