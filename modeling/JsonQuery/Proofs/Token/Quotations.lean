import JsonQuery.Expr.SyntaxError
import JsonQuery.Proofs.Token.Spelling
import JsonQuery.Proofs.Token.Tiling

/-! Quoted forms in front of a text. How a text is cut into tokens does not depend on where it stands: where a
    cursor has been moved, it finds the same, moved as far. A quoted form ends at its own closing delimiter,
    whatever comes after it. So it is the first token of a text that starts with it, and the other tokens are
    those of the rest, moved by its length; and so is the fault, if there is one. -/

namespace JsonQuery

/-! ### Moving by some characters and bytes -/

/-- A token some characters and bytes further on. -/
def Token.moved (n bytes : Nat) (t : Token) : Token := ⟨t.lexeme, t.start + n, t.stop + n, t.offset + bytes⟩

/-- A fault some characters further on. -/
def LexicalFault.moved (n : Nat) (f : LexicalFault) : LexicalFault := ⟨f.cause, f.position + n⟩

/-- An ending some characters and bytes further on. -/
def Ending.moved (n bytes : Nat) : Ending → Ending
  | .finish t => .finish (t.moved n bytes)
  | .fault f => .fault (f.moved n)

/-- A scan some characters and bytes further on. -/
def Scan.moved (n bytes : Nat) (s : Scan) : Scan := ⟨s.tokens.map (Token.moved n bytes), s.ending.moved n bytes⟩

/-- A cursor some characters and bytes further on, with the same text ahead. -/
def Cursor.moved (n bytes : Nat) (c : Cursor) : Cursor := ⟨c.position + n, c.offset + bytes, c.rest⟩

/-- What is found at a cursor, some characters and bytes further on. -/
def Found.moved (n bytes : Nat) : Found → Found
  | .token t after => .token (t.moved n bytes) (after.moved n bytes)
  | .finish t => .finish (t.moved n bytes)
  | .fault f => .fault (f.moved n)

namespace Cursor

theorem advance_moved (n bytes : Nat) (c : Cursor) (k : Nat) :
    (c.moved n bytes).advance k = (c.advance k).moved n bytes := by
  simp only [moved, advance, Nat.add_right_comm]

theorem skipBlanks_moved (n bytes : Nat) (c : Cursor) : (c.moved n bytes).skipBlanks = c.skipBlanks.moved n bytes :=
  advance_moved n bytes c _

/-- What is found at a cursor that has been moved is what was found before, moved as far. -/
theorem next_moved (n bytes : Nat) (c : Cursor) : (c.moved n bytes).next = c.next.moved n bytes := by
  have hskip := skipBlanks_moved n bytes c
  have hrest : (c.moved n bytes).skipBlanks.rest = c.skipBlanks.rest := by
    rw [hskip]
    rfl
  cases hr : c.skipBlanks.rest with
  | nil =>
    rw [next_of_nil hr, next_of_nil (hrest.trans hr), hskip]
    rfl
  | cons d ds =>
    cases hl : Lexeme.read d ds with
    | error cause =>
      rw [next_of_error hr hl, next_of_error (hrest.trans hr) hl, hskip]
      rfl
    | ok r =>
      rw [next_of_ok hr hl, next_of_ok (hrest.trans hr) hl, hskip, advance_moved]
      simp only [Found.moved, Token.moved, moved, Nat.add_right_comm]

/-- Wherever a text stands it is cut into the same tokens, up to the same fault, moved as far as the text. -/
theorem scan_moved (n bytes : Nat) (c : Cursor) : (c.moved n bytes).scan = c.scan.moved n bytes := by
  have hmoved := next_moved n bytes c
  cases hn : c.next with
  | finish t =>
    rw [scan_of_finish hn, scan_of_finish (hn ▸ hmoved)]
    rfl
  | fault f =>
    rw [scan_of_fault hn, scan_of_fault (hn ▸ hmoved)]
    rfl
  | token t after =>
    rw [scan_of_token hn, scan_of_token (hn ▸ hmoved), scan_moved n bytes after]
    rfl
termination_by c.rest.length
decreasing_by exact c.length_lt_of_next hn

end Cursor

/-! ### Self-delimiting forms -/

/-- The scan of a text before which a lexeme has been written in some form. -/
def Scan.after (form : List Char) (l : Lexeme) (s : Scan) : Scan :=
  let rest := s.moved form.length (Text.utf8Length form)
  ⟨⟨l, 0, form.length, 0⟩ :: rest.tokens, rest.ending⟩

/-- A form that is cut off as a lexeme whatever follows, and leaves what follows as it is. -/
def SelfDelimiting (form : List Char) (l : Lexeme) : Prop :=
  ∀ rest, Scan.ofText (form ++ rest) = (Scan.ofText rest).after form l

theorem Cursor.start_append (form rest : List Char) : (start (form ++ rest)).advance form.length =
    (start rest).moved form.length (Text.utf8Length form) := by
  simp [start, advance, moved]

/-- A form is self-delimiting if it is read as a lexeme whatever follows. -/
theorem selfDelimiting_of_read {c : Char} {cs : List Char} {l : Lexeme}
    (h : ∀ rest, Lexeme.read c (cs ++ rest) = .ok (l, cs.length)) : SelfDelimiting (c :: cs) l := by
  intro rest
  have hskip : (Cursor.start (c :: cs ++ rest)).skipBlanks = .start (c :: cs ++ rest) := by
    have hblank : (c :: (cs ++ rest)).takeWhile Json.isSpace = [] :=
      List.takeWhile_cons_of_neg (by simp [Lexeme.isSpace_of_read (h rest)])
    simp [Cursor.skipBlanks, Cursor.start, Cursor.advance, hblank, Text.utf8Length]
  have hnext := Cursor.next_of_ok (c := .start (c :: cs ++ rest)) (congrArg Cursor.rest hskip) (h rest)
  have hlength : cs.length + 1 = (c :: cs).length := rfl
  rw [hskip, hlength, Cursor.start_append] at hnext
  rw [Scan.ofText, Cursor.scan_of_token hnext, Cursor.scan_moved]
  simp [Scan.after, Scan.ofText, Cursor.start]

/-- A body between delimiters is self-delimiting if the delimiters in it are escaped and it stands for a lexeme. -/
theorem selfDelimiting_of_body {q : Quotation} {body : List Char} {l : Lexeme}
    (hbody : Pairs (· ≠ q.delimiter) (fun _ => True) body) (hl : Lexeme.ofBody q body = .ok l) :
    SelfDelimiting (q.delimiter :: (body ++ [q.delimiter])) l := by
  refine selfDelimiting_of_read fun rest => ?_
  have hclosed := Lexeme.body?_of_pairs (Lexeme.delimiter_ne_backslash q) rest hbody
  rw [List.append_assoc, List.length_append]
  exact Lexeme.read_quotation hclosed hl

theorem selfDelimiting_rawString (s : String) :
    SelfDelimiting ('\x27' :: (s.toList.flatMap Lexeme.escapedRaw ++ ['\x27'])) (.rawString s) := by
  refine selfDelimiting_of_body (q := .rawString) (Lexeme.pairs_escapedRaw s.toList) ?_
  rw [Lexeme.ofBody, Lexeme.unescapeRaw_escaped, String.ofList_toList]

theorem selfDelimiting_quotedName {s : String} {text : List Char} (h : Json.StringText s text) :
    SelfDelimiting text (.quotedName s) := by
  obtain ⟨hbody⟩ := h
  have hpairs := (Lexeme.pairs_charsText hbody).mono (fun _ h => h) fun _ _ => trivial
  exact selfDelimiting_of_body (q := .name) hpairs (Lexeme.ofBody_charsText hbody)

/-- Every string can be written as a raw string and as a quoted name, and both are self-delimiting: a raw string
    with a backslash before each quote and each backslash, and a quoted name in whatever spelling JSON has for
    the string, of which what is printed is one. Where the rest of the text has its tokens and its fault is
    moved by the characters and bytes of the form. -/
theorem quotations_selfDelimiting (s : String) :
    SelfDelimiting ('\x27' :: (s.toList.flatMap Lexeme.escapedRaw ++ ['\x27'])) (.rawString s) ∧
    Json.StringText s (Json.quotedString s) ∧
    (∀ text, Json.StringText s text → SelfDelimiting text (.quotedName s)) ∧
    ∀ (form rest : String) (f : LexicalFault),
      (SyntaxError.lexical (f.moved form.toList.length)).offset (form ++ rest) =
        Text.utf8Length form.toList + (SyntaxError.lexical f).offset rest := by
  refine ⟨selfDelimiting_rawString s, Json.stringText_quoted s, fun _ => selfDelimiting_quotedName, ?_⟩
  intro form rest f
  show Text.offsetAt (form ++ rest).toList (f.position + form.toList.length) = _
  rw [Text.offsetAt, String.toList_append, Nat.add_comm, List.take_length_add_append, Text.utf8Length_append]
  rfl

/-- A name that is spelled with codes, of which two are the halves of one character, before a point and a raw
    string without an end. -/
theorem quotations_selfDelimiting_halves :
    Json.StringText "é😀" "\x22\\u00e9\\ud83d\\uDE00\x22".toList ∧
    Scan.ofText ("\x22\\u00e9\\ud83d\\uDE00\x22".toList ++ ".\x27b".toList) =
      ⟨[⟨.quotedName "é😀", 0, 20, 0⟩, ⟨.mark .dot, 20, 21, 20⟩], .fault ⟨.unterminated .rawString, 21⟩⟩ := by
  have hhalves : Json.CharText '😀' ['\\', 'u', 'd', '8', '3', 'd', '\\', 'u', 'D', 'E', '0', '0'] :=
    have hhigh : Json.hexQuad? 'd' '8' '3' 'd' = some 0xd83d := by decide
    have hlow : Json.hexQuad? 'D' 'E' '0' '0' = some 0xde00 := by decide
    .halves hhigh hlow (by decide) (by decide) (by decide)
  have hcode : Json.CharText 'é' ['\\', 'u', '0', '0', 'e', '9'] := .code (by decide)
  have hchars : Json.CharsText "é😀".toList _ := .cons hcode (.cons hhalves .nil)
  have htext : Json.StringText "é😀" "\x22\\u00e9\\ud83d\\uDE00\x22".toList := .quoted hchars
  refine ⟨htext, ?_⟩
  rw [(quotations_selfDelimiting "é😀").2.2.1 _ htext]
  decide +kernel

end JsonQuery
