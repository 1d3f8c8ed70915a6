import JsonQuery.Proofs.Expr.Lockstep

/-! What the machine records decides nothing. A part of the machine adds to the record and never looks at it: run
    behind an earlier record it comes to the same result, at the same depth, with the same tokens left and the same
    brackets open, and its own record comes after the earlier one. So what holds of a run of which the record starts
    empty holds of every run. -/

namespace JsonQuery.Expr.Descent

/-- The state with an earlier record before its own. -/
def State.behind (s earlier : State) : State :=
  { s with
    taken := earlier.taken ++ s.taken
    entries := earlier.entries ++ s.entries
    turns := earlier.turns ++ s.turns }

/-- The state with nothing recorded. -/
def State.bare (s : State) : State := { s with taken := [], entries := [], turns := [] }

theorem State.bare_behind (s : State) : s.bare.behind s = s := by simp [bare, behind]

/-- A part of the machine that adds to the record and does not look at it. -/
def Records {α : Type} (m : Descent α) : Prop :=
  ∀ s earlier : State, m (s.behind earlier) = ((m s).1, (m s).2.behind earlier)

variable {α β : Type} {m m' : Descent α} {f : α → Descent β} {t : Token}

/-! ### Rules -/

namespace Records

theorem pure (a : α) : Records (Pure.pure a) := fun _ _ => rfl

theorem stall : Records (stall : Descent α) := fun _ _ => rfl

theorem bind (h : Records m) (hf : ∀ a, Records (f a)) : Records (m >>= f) := by
  intro s earlier
  have hrun := h s earlier
  generalize hr : m s = r at hrun
  obtain ⟨_ | a, s'⟩ := r
  · rw [bind_of_error hr, bind_of_error hrun]
  · rw [bind_of_ok hr, bind_of_ok hrun]
    exact hf a s' earlier

theorem ite {c : Prop} [Decidable c] (h : Records m) (h' : Records m') : Records (if c then m else m') := by
  split
  · exact h
  · exact h'

theorem change {f : State → State} (h : ∀ s earlier : State, f (s.behind earlier) = (f s).behind earlier) :
    Records (change f) := fun s earlier => congrArg (Prod.mk _) (h s earlier)

theorem look (p : Context → Parser α) : Records (look p) := by
  intro s earlier
  cases hp : p s.context s.tokens with
  | error e =>
    have hbehind : Descent.look p (s.behind earlier) = (.error (.failed e), s.behind earlier) := look_of_error hp
    rw [hbehind, look_of_error hp]
  | ok r =>
    have hbehind : Descent.look p (s.behind earlier) = (.ok r.1, s.behind earlier) := look_of_ok hp
    rw [hbehind, look_of_ok hp]

/-- A frame counts its own entries, which the record does not change. -/
theorem frame (h : Records m) : Records (frame m) := by
  intro s earlier
  have hrun : m (s.behind earlier).fresh = ((m s.fresh).1, (m s.fresh).2.behind earlier) := h s.fresh earlier
  unfold Descent.frame
  rw [hrun]
  rfl

theorem turn {loop : Loop} (h : Records m) : Records (turn loop m) := by
  intro s earlier
  have hrun := h s earlier
  unfold Descent.turn
  generalize m s = r at hrun ⊢
  rw [hrun]
  obtain ⟨_ | a, s'⟩ := r
  · rfl
  · simp [State.turned, State.behind]

end Records

/-! ### Single tokens -/

theorem records_peek : Records peek := .look _

theorem records_fail {cause : GrammarCause} : Records (fail cause t : Descent α) := .look _

theorem records_advance : Records advance :=
  records_peek.bind fun t => (Records.change fun s earlier => by simp [State.past, State.behind]).bind fun _ => .pure t

theorem records_skip : Records (discard advance : Descent Unit) := records_advance.bind fun _ => .pure ()

theorem records_openBracket {opener : Token} : Records (openBracket opener) := .change fun _ _ => rfl

theorem records_closeBracket : Records closeBracket := .change fun _ _ => rfl

theorem records_checkDepth : Records checkDepth := by
  intro s earlier
  by_cases hover : s.context.limit < s.depth
  · have hbehind : checkDepth (s.behind earlier) = look failDeep (s.behind earlier) := if_pos hover
    rw [hbehind, checkDepth, if_pos hover]
    exact Records.look failDeep s earlier
  · have hbehind : checkDepth (s.behind earlier) = (.ok (), s.behind earlier) := if_neg hover
    rw [hbehind, checkDepth, if_neg hover]

theorem records_enter {entry : Entry} : Records (enter entry) :=
  (Records.change fun s earlier => by simp [State.deeper, State.behind]).bind fun _ => records_checkDepth

theorem records_expect {m : Mark} : Records (expect m) := records_peek.bind fun _ => records_skip.ite records_fail

theorem records_separator {closer : Mark} : Records (separator closer) :=
  records_peek.bind fun _ => records_skip.ite records_fail

theorem records_number : Records number := by
  refine records_peek.bind fun t => ?_
  obtain ⟨l, start, stop, offset⟩ := t
  cases l with
  | number i => exact records_skip.bind fun _ => .pure i
  | _ => exact records_fail

theorem records_integer : Records integer := by
  refine records_peek.bind fun t => .ite ?_ ?_
  · exact records_skip.bind fun _ => records_number.bind fun _ => .pure _
  · exact records_number.bind fun _ => .pure _

theorem records_bound : Records bound :=
  records_peek.bind fun _ => .ite (records_integer.bind fun _ => .pure _) (.pure none)

theorem records_key : Records key := by
  refine records_peek.bind fun t => ?_
  obtain ⟨l, start, stop, offset⟩ := t
  cases l with
  | name k => exact records_skip.bind fun _ => .pure k
  | quotedName k => exact records_skip.bind fun _ => .pure k
  | _ => exact records_fail

/-! ### Loops -/

theorem records_row {loop : Loop} {closer : Mark} {item : Descent α} (h : Records item) :
    ∀ n, Records (row loop closer item n) := by
  intro n
  induction n with
  | zero => exact .stall
  | succ n ih =>
    refine h.turn.bind fun x => records_peek.bind fun t => .ite ?_ ?_
    · exact records_skip.bind fun _ => records_closeBracket.bind fun _ => .pure _
    · exact records_separator.bind fun _ => ih.bind fun _ => .pure _

theorem records_items {loop : Loop} {closer : Mark} {item : Descent α} (h : Records item) :
    Records (items loop closer item) := fun s => records_row h (s.tokens.length + 1) s

theorem records_closeSelector {mayGoOn : Bool} : Records (closeSelector mayGoOn) :=
  records_peek.bind fun _ => .ite (records_skip.bind fun _ => records_closeBracket) records_fail

theorem records_stopFrom : Records stopFrom := records_skip.bind fun _ => records_bound

theorem records_stepFrom : Records stepFrom :=
  records_skip.bind fun _ => records_peek.bind fun _ => records_bound.bind fun _ => .pure _

theorem records_sliceFrom {base : Option Expr} {start : Option Int} : Records (sliceFrom base start) := by
  refine records_stopFrom.turn.bind fun stop => records_peek.bind fun t => .ite ?_ ?_
  · exact records_stepFrom.turn.bind fun _ => records_closeSelector.bind fun _ => .ite records_fail (.pure _)
  · exact records_closeSelector.bind fun _ => .pure _

theorem records_selector {base : Option Expr} : Records (selector base) := by
  refine records_peek.bind fun t => .ite records_sliceFrom ?_
  refine records_integer.bind fun i => records_peek.bind fun t => .ite records_sliceFrom ?_
  exact records_closeSelector.bind fun _ => .pure _

/-! ### Forms that hold subexpressions -/

theorem records_selectorFrom {left : Expr} : Records (selectorFrom left) := by
  refine records_peek.bind fun t => .ite records_selector (.ite ?_ records_fail)
  exact records_skip.bind fun _ => records_expect.bind fun _ => records_closeBracket.bind fun _ => .pure _

section

variable {sub : Nat → Descent Expr} (hsub : ∀ power, Records (sub power))

include hsub

theorem records_multiselectListFrom : Records (multiselectListFrom sub) :=
  (records_items (hsub 0)).bind fun _ => .pure _

theorem records_pair : Records (pair sub) :=
  records_key.bind fun _ => records_expect.bind fun _ => (hsub 0).bind fun _ => .pure _

theorem records_multiselectHashFrom : Records (multiselectHashFrom sub) :=
  (records_items (records_pair hsub)).bind fun _ => .pure _

theorem records_argument : Records (argument sub) :=
  records_peek.bind fun _ => .ite (records_skip.bind fun _ => (hsub 0).bind fun _ => .pure _) (hsub 0)

theorem records_callFrom {function : String} : Records (callFrom sub function) := by
  refine records_peek.bind fun t => .ite ?_ ?_
  · exact records_skip.bind fun _ => records_closeBracket.bind fun _ => .pure _
  · exact (records_items (records_argument hsub)).bind fun _ => .pure _

theorem records_nameFrom {name : String} : Records (nameFrom sub name) := by
  refine records_peek.bind fun t => .ite ?_ (.pure _)
  exact records_skip.bind fun _ => records_openBracket.bind fun _ => records_callFrom hsub

theorem records_filterFrom {source : Option Expr} : Records (filterFrom sub source) :=
  (hsub 0).bind fun _ => records_expect.bind fun _ => records_closeBracket.bind fun _ => .pure _

theorem records_bracketFrom : Records (bracketFrom sub) := by
  have hlist := records_multiselectListFrom hsub
  refine records_peek.bind fun t => .ite records_selector (.ite ?_ hlist)
  refine (Records.look _).bind fun next => .ite ?_ hlist
  exact records_skip.bind fun _ => records_skip.bind fun _ => records_closeBracket.bind fun _ => .pure _

theorem records_operandFrom : Records (operandFrom sub t) := by
  unfold operandFrom
  obtain ⟨l, start, stop, offset⟩ := t
  cases l with
  | literal text => exact .look _
  | name k => exact records_nameFrom hsub
  | quotedName k => exact .look _
  | rawString k => exact .pure _
  | number i => exact records_fail
  | finish => exact records_fail
  | mark m =>
    cases m with
    | current => exact .pure _
    | star => exact .pure _
    | not => exact (hsub _).bind fun _ => .pure _
    | lparen =>
      refine records_openBracket.bind fun _ => (hsub 0).bind fun e => records_expect.bind fun _ => ?_
      exact records_closeBracket.bind fun _ => .pure e
    | lbracket => exact records_openBracket.bind fun _ => records_bracketFrom hsub
    | lbrace => exact records_openBracket.bind fun _ => records_multiselectHashFrom hsub
    | flatten => exact .pure _
    | filter => exact records_openBracket.bind fun _ => records_filterFrom hsub
    | _ => exact records_fail

theorem records_fieldFrom {left : Expr} : Records (fieldFrom sub left) := by
  refine records_peek.bind fun t => ?_
  obtain ⟨l, start, stop, offset⟩ := t
  cases l with
  | name k => exact records_skip.bind fun _ => (records_nameFrom hsub).bind fun _ => .pure _
  | quotedName k => exact records_skip.bind fun _ => (Records.look _).bind fun _ => .pure _
  | mark m =>
    cases m with
    | star => exact records_skip.bind fun _ => .pure _
    | lbracket =>
      refine records_skip.bind fun _ => records_openBracket.bind fun _ => ?_
      exact (records_multiselectListFrom hsub).bind fun _ => .pure _
    | lbrace =>
      refine records_skip.bind fun _ => records_openBracket.bind fun _ => ?_
      exact (records_multiselectHashFrom hsub).bind fun _ => .pure _
    | _ => exact records_fail
  | _ => exact records_fail

theorem records_extendFrom {left : Expr} : Records (extendFrom sub t left) := by
  unfold extendFrom
  obtain ⟨l, start, stop, offset⟩ := t
  cases l with
  | mark m =>
    cases m with
    | dot => exact records_fieldFrom hsub
    | pipe => exact (hsub _).bind fun _ => .pure _
    | or => exact (hsub _).bind fun _ => .pure _
    | and => exact (hsub _).bind fun _ => .pure _
    | comparator op => exact (hsub _).bind fun _ => .pure _
    | flatten => exact .pure _
    | filter => exact records_openBracket.bind fun _ => records_filterFrom hsub
    | lbracket => exact records_openBracket.bind fun _ => records_selectorFrom
    | _ => exact records_fail
  | _ => exact records_fail

end

/-! ### Expressions -/

/-- Neither an expression nor what extends one depends on what has been recorded before. -/
theorem records_expression : ∀ n, (∀ power, Records (expression n power)) ∧
    ∀ power left, Records (extend n power left) := by
  intro n
  -- a sub-parse and the rest of the loop both have the next smaller bound, so the two go together
  induction n with
  | zero =>
    refine ⟨fun power => ?_, fun power left => ?_⟩
    · rw [expression]
      exact .stall
    · rw [extend]
      exact .stall
  | succ n ih =>
    obtain ⟨hexpression, hextend⟩ := ih
    refine ⟨fun power => ?_, fun power left => ?_⟩
    · rw [expression]
      refine (records_enter.bind fun _ => records_advance.bind fun t => ?_).frame
      exact (records_operandFrom hexpression).bind fun left => hextend power left
    · rw [extend]
      refine records_peek.bind fun t => .ite ?_ (.pure _)
      refine records_enter.bind fun _ => records_advance.bind fun t => ?_
      exact (records_extendFrom hexpression).bind fun left => hextend power left

end JsonQuery.Expr.Descent
