import JsonQuery.Proofs.Expr.Places
import Mathlib.Algebra.Ring.Nat

/-! Places shown by lines. The lines of a text are what its line feeds part it into. A position stands in one of them,
    so many characters in; the lines before it, with a line feed after each, and these characters are all that comes
    before the position. The line and the column that a message shows, which are found by looking for the nearest
    line feeds on both sides, are these; and so a position at a line feed is at the end of the line before it. -/

namespace JsonQuery.Text

/-! ### Lines of a text -/

/-- There is one line more than there are line feeds. -/
theorem length_splitOn (cs : List Char) : (cs.splitOn '\n').length = cs.count '\n' + 1 := by
  induction cs with
  | nil => rfl
  | cons c cs ih =>
    rw [List.splitOn_cons_eq_if_modifyHead, List.count_cons]
    by_cases hc : c = '\n'
    · simp [hc, ih]
    · simp [hc, ih]

/-- With a line feed after each line there is one character more than in the text. -/
theorem sum_splitOn (cs : List Char) : ((cs.splitOn '\n').map fun l => l.length + 1).sum = cs.length + 1 := by
  induction cs with
  | nil => rfl
  | cons c cs ih =>
    rw [List.splitOn_cons_eq_if_modifyHead]
    by_cases hc : c = '\n'
    · simp only [hc, beq_self_eq_true, if_true, List.map_cons, List.sum_cons, List.length_nil, ih, List.length_cons]
      omega
    · obtain ⟨l, ls, hls⟩ := List.exists_cons_of_ne_nil (List.splitOn_ne_nil '\n' cs)
      rw [hls] at ih ⊢
      simp only [beq_iff_eq, hc, if_false, List.modifyHead_cons, List.map_cons, List.sum_cons, List.length_cons]
        at ih ⊢
      omega

/-- A text is its first line alone, or goes on after a line feed. -/
theorem firstLine (cs : List Char) : '\n' ∉ cs.takeWhile (· != '\n') ∧
    (cs = cs.takeWhile (· != '\n') ∨ ∃ later, cs = cs.takeWhile (· != '\n') ++ '\n' :: later) := by
  induction cs with
  | nil => exact ⟨List.not_mem_nil, .inl rfl⟩
  | cons c cs ih =>
    by_cases hc : c = '\n'
    · subst hc
      exact ⟨List.not_mem_nil, .inr ⟨cs, rfl⟩⟩
    · obtain ⟨hline, hrest⟩ := ih
      rw [List.takeWhile_cons_of_pos (by simpa using hc)]
      refine ⟨List.not_mem_cons_of_ne_of_not_mem (Ne.symm hc) hline, ?_⟩
      rcases hrest with hrest | ⟨later, hrest⟩
      · exact .inl (congrArg (c :: ·) hrest)
      · exact .inr ⟨later, congrArg (c :: ·) hrest⟩

/-- A text is its last line alone, or other lines come before that. -/
theorem lastLine (cs : List Char) : '\n' ∉ (cs.reverse.takeWhile (· != '\n')).reverse ∧
    (cs = (cs.reverse.takeWhile (· != '\n')).reverse ∨
      ∃ earlier, cs = earlier ++ '\n' :: (cs.reverse.takeWhile (· != '\n')).reverse) := by
  obtain ⟨hline, hrest⟩ := firstLine cs.reverse
  refine ⟨fun h => hline (List.mem_reverse.1 h), ?_⟩
  rcases hrest with hrest | ⟨later, hrest⟩
  · exact .inl (List.reverse_eq_iff.1 hrest)
  · refine .inr ⟨later.reverse, ?_⟩
    have h := List.reverse_eq_iff.1 hrest
    rwa [List.reverse_append, List.reverse_cons, List.append_assoc, List.singleton_append] at h

/-! ### The line of a position -/

/-- A position is in a line, so many lines down and so many characters in. -/
structure Located (cs : List Char) (position number column : Nat) (line : List Char) : Prop where
  line_eq : (cs.splitOn '\n')[number]? = some line
  oneLine : '\n' ∉ line
  column_le : column ≤ line.length
  position_eq : (((cs.splitOn '\n').take number).map fun l => l.length + 1).sum + column = position
  number_eq : number = (cs.take position).count '\n'
  at_end : cs[position]? = some '\n' → column = line.length

variable {cs : List Char} {position : Nat}

/-- The lines before that of a position are whole, whatever comes after the position. -/
theorem exists_earlier (cs : List Char) (position : Nat) : ∃ lines : List (List Char),
    (∀ rest, (cs.take position ++ rest).splitOn '\n' = lines ++ (lineBefore cs position ++ rest).splitOn '\n') ∧
    (lines.map fun l => l.length + 1).sum + columnAt cs position = (cs.take position).length ∧
    lines.length = (cs.take position).count '\n' := by
  obtain ⟨hline, hrest⟩ := lastLine (cs.take position)
  rw [← lineBefore] at hline hrest
  rcases hrest with hrest | ⟨earlier, hrest⟩
  · refine ⟨[], fun rest => by rw [hrest, List.nil_append], ?_, ?_⟩
    · rw [columnAt, ← hrest, List.map_nil, List.sum_nil, Nat.zero_add]
    · rw [hrest, List.count_eq_zero_of_not_mem hline, List.length_nil]
  · refine ⟨earlier.splitOn '\n', fun rest => ?_, ?_, ?_⟩
    · rw [hrest, List.append_assoc, List.cons_append, List.splitOn_append_cons_self]
    · rw [hrest, sum_splitOn, columnAt, List.length_append, List.length_cons]
      omega
    · rw [hrest, length_splitOn, List.count_append, List.count_cons_self, List.count_eq_zero_of_not_mem hline]

/-- The line and the column that are shown for a position are those that it is at. -/
theorem located (h : position ≤ cs.length) :
    Located cs position ((cs.take position).count '\n') (columnAt cs position) (lineAt cs position) := by
  obtain ⟨lines, hsplit, hsum, hcount⟩ := exists_earlier cs position
  obtain ⟨hafter, hrest⟩ := firstLine (cs.drop position)
  rw [← lineAfter] at hafter hrest
  have honeLine : '\n' ∉ lineAt cs position :=
    fun hmem => (List.mem_append.1 hmem).elim (lastLine (cs.take position)).1 hafter
  -- what comes after the position starts with the rest of its line
  have hlines : ∃ later, cs.splitOn '\n' = lines ++ lineAt cs position :: later := by
    have hcs := hsplit (cs.drop position)
    rw [List.take_append_drop] at hcs
    rcases hrest with hrest | ⟨later, hrest⟩
    · refine ⟨[], ?_⟩
      rw [hcs, hrest, ← lineAt, List.splitOn_eq_singleton honeLine]
    · refine ⟨later.splitOn '\n', ?_⟩
      rw [hcs, hrest, ← List.append_assoc, ← lineAt, List.splitOn_append_cons_self_of_not_mem honeLine]
  obtain ⟨later, hlines⟩ := hlines
  refine ⟨?_, honeLine, ?_, ?_, rfl, fun hend => ?_⟩
  · rw [hlines, ← hcount, List.getElem?_append_right (Nat.le_refl _), Nat.sub_self]
    rfl
  · rw [columnAt, lineAt, List.length_append]
    omega
  · rw [hlines, ← hcount, List.take_left, hsum, List.length_take, Nat.min_eq_left h]
  · obtain ⟨hlt, hfeed⟩ := List.getElem?_eq_some_iff.1 hend
    have hnone : lineAfter cs position = [] := by
      rw [lineAfter, List.drop_eq_getElem_cons hlt, hfeed]
      rfl
    rw [columnAt, lineAt, hnone, List.append_nil]

/-! ### Messages -/

/-- A place in words, by the line and the column if there is more than one line. -/
def placeWords (cs : List Char) (position number column : Nat) : String :=
  if (cs.splitOn '\n').length = 1 then "position " ++ toString position
  else "line " ++ toString (number + 1) ++ ", column " ++ toString column
    ++ " (" ++ ("position " ++ toString position) ++ ")"

theorem placeText_eq (cs : List Char) (position : Nat) :
    placeText cs position = placeWords cs position ((cs.take position).count '\n') (columnAt cs position) := by
  rw [placeText, placeWords, length_splitOn]
  by_cases hfeed : '\n' ∈ cs
  · have hcount := List.count_pos_iff.2 hfeed
    rw [if_pos (List.contains_iff_mem.2 hfeed), if_neg (by omega), lineNumberAt]
  · rw [if_neg (by simpa using hfeed), List.count_eq_zero_of_not_mem hfeed, if_pos rfl]

/-- A message gives the reason, the place in words, the line that holds the position, and under it a caret after as
    many blanks as there are characters of the line before the position. -/
theorem pointAt_located (reason : String) {cs : List Char} {position : Nat} (h : position ≤ cs.length) :
    ∃ number column line, Located cs position number column line ∧
      pointAt reason cs position = reason ++ " at " ++ placeWords cs position number column ++ ":\n" ++
        String.ofList line ++ "\n" ++ String.ofList (List.replicate column ' ') ++ "^" :=
  ⟨_, _, _, located h, by rw [pointAt, placeText_eq]⟩

/-- The second of three lines, at its end, where a line feed stands. -/
theorem pointAt_located_feed : 5 ≤ ['a', '\n', '|', '|', ' ', '\n', 'b'].length ∧
    (∃ number column line, Located ['a', '\n', '|', '|', ' ', '\n', 'b'] 5 number column line ∧
      pointAt "R" ['a', '\n', '|', '|', ' ', '\n', 'b'] 5 =
        "R" ++ " at " ++ placeWords ['a', '\n', '|', '|', ' ', '\n', 'b'] 5 number column ++ ":\n" ++
          String.ofList line ++ "\n" ++ String.ofList (List.replicate column ' ') ++ "^") ∧
    pointAt "R" ['a', '\n', '|', '|', ' ', '\n', 'b'] 5 = "R at line 2, column 3 (position 5):\n|| \n   ^" :=
  ⟨by decide, pointAt_located "R" (by decide), by decide +kernel⟩

/-! ### Errors of a text -/

/-- An error of a text is at a position of the text, or at its end. -/
theorem position_le_of_parse {text : String} {limit : Int} {e : SyntaxError} (h : Expr.parse text limit = .error e) :
    e.position ≤ text.toList.length := by
  have hplace := Expr.placedIn_of_parse h
  obtain ⟨stop, hcovers⟩ := Scan.covers_of_on (Cursor.on_start text.toList)
  have hstart : ∀ t ∈ (Scan.ofText text.toList).tokens, t.start ≤ text.toList.length := fun t ht => by
    have hlt := hcovers.tiling.nonempty t ht
    have hle := (hcovers.tiling.within t ht).2
    have hstop := hcovers.tiling.stop_le
    omega
  cases e with
  | lexical f =>
    obtain ⟨hposition, -, -⟩ := hcovers.fault f hplace
    exact Nat.le_trans (Nat.le_of_eq hposition) hcovers.tiling.stop_le
  | grammar cause p =>
    obtain ⟨t, ht, rfl⟩ := hplace
    exact hstart t ht
  | incomplete cause opener p =>
    obtain ⟨last, unclosed, hlast, hunclosed, -, rfl⟩ := hplace
    cases unclosed with
    | nil =>
      obtain ⟨-, rfl⟩ := hcovers.finish last hlast
      exact Nat.le_of_eq String.length_toList.symm
    | cons t outer =>
      exact hstart t (mem_of_unclosed? hunclosed t List.mem_cons_self)

/-- The message of every error of a text shows where in the text the error is. -/
theorem message_located {text : String} {limit : Int} {e : SyntaxError} (h : Expr.parse text limit = .error e) :
    ∃ number column line, Located text.toList e.position number column line ∧
      e.message text = e.reason ++ " at " ++ placeWords text.toList e.position number column ++ ":\n" ++
        String.ofList line ++ "\n" ++ String.ofList (List.replicate column ' ') ++ "^" :=
  ⟨_, _, _, located (position_le_of_parse h), by rw [SyntaxError.message, pointAt, placeText_eq]⟩

end JsonQuery.Text
