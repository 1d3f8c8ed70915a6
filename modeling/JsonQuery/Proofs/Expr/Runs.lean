import JsonQuery.Proofs.Expr.Pairing
import JsonQuery.Proofs.Expr.Soundness

/-! The parser makes its decisions on lexemes alone. So of two runs side by side the second follows the first,
    parser by parser: each does with matching tokens the same, and hands on what is left of both rows. Where the
    first row is cut short it is shown beside that whatever is read at its end fails on account of the end, or
    stops there without having taken anything. -/

namespace JsonQuery.Expr.Pairing

open Token (Leads)

variable {α : Type} {P : Pairing} {stops : Prop} {last : Token} {ctx ctx' : Context} {t t' : Token}
  {ts ts' : List Token} {halt? halt?' : Option Token → Option Nat}

/-! ### The end of a row cut short -/

section
variable (hc : ctx.EndsWith last) (hcut : P.cut)
include hc hcut

theorem silent_number : P.Silent stops (number ctx []) := by
  refine silent_peek hc hcut fun t ht => ?_
  rw [ht]
  exact silent_fail hcut ht

theorem silent_integer : P.Silent stops (integer ctx []) :=
  silent_branch hc hcut (by simp) fun _ _ => Silent.bind_failure (silent_number hc hcut)

theorem silent_bound : P.Silent True (bound ctx []) := by
  refine silent_peek hc hcut fun t ht => ?_
  rw [ht]
  exact ⟨hcut, trivial, rfl⟩

/-- What goes on after the closing bracket of a selector does not matter at the end. -/
theorem silent_closeSelector_bind {mayGoOn : Bool} {f : PUnit → Parser α} :
    P.Silent stops ((closeSelector ctx mayGoOn >>= f) []) :=
  Silent.bind_failure (silent_take hc hcut (by simp) _)

theorem silent_selector {base : Option Expr} : P.Silent stops (selector ctx base []) :=
  silent_branch hc hcut (by simp) fun _ _ => Silent.bind_failure (silent_integer hc hcut)

theorem silent_separator_bind {closer : Mark} {f : PUnit → Parser α} :
    P.Silent stops ((separator ctx closer >>= f) []) :=
  Silent.bind_failure (silent_take hc hcut (by simp) _)

/-- A row whose first item is broken off stays open. -/
theorem silent_row {closer : Mark} {item : Parser α} {n : Nat} (hitem : P.Silent True (item ts)) :
    P.Silent stops (row ctx closer item (n + 1) ts) := by
  refine hitem.bind fun _ _ x => silent_branch hc hcut (by simp) fun _ _ => ?_
  exact silent_separator_bind hc hcut

theorem silent_multiselectListFrom {sub : SubParser} (hitem : P.Silent True (sub ctx 0 ts)) :
    P.Silent stops (multiselectListFrom sub ctx ts) :=
  Silent.bind_failure (silent_row hc hcut hitem)

theorem silent_key : P.Silent stops (key ctx []) := by
  refine silent_peek hc hcut fun t ht => ?_
  rw [ht]
  exact silent_fail hcut ht

theorem silent_argument {sub : SubParser} (hsub : P.Silent True (sub ctx 0 [])) :
    P.Silent True (argument sub ctx []) := silent_branch hc hcut (by simp) fun _ _ => hsub

theorem silent_quotedNameFrom {name : String} : P.Silent True (quotedNameFrom ctx name []) :=
  silent_branch hc hcut (by simp) fun _ _ => ⟨hcut, trivial, rfl⟩

end

section
variable (hc : P.Beside last ctx ctx')
include hc

/-! ### Indices and slices -/

theorem follows_closeSelector {mayGoOn : Bool} (h : P.Rows ts ts') :
    P.Follows stops (closeSelector ctx mayGoOn ts) (closeSelector ctx' mayGoOn ts') :=
  follows_take hc (by simp) _ h

theorem follows_number (h : P.Rows ts ts') : P.Follows stops (number ctx ts) (number ctx' ts') := by
  refine follows_peek hc h (silent_number hc.endsWith) fun t t' hsame ht ht' => ?_
  rw [← P.lexeme_eq hsame]
  cases hl : t.lexeme with
  | number n => exact follows_skip hc h ht hl (by simp) fun us us' h => .inr ⟨rfl, h⟩
  | _ => exact follows_fail hc hsame

theorem follows_integer (h : P.Rows ts ts') : P.Follows stops (integer ctx ts) (integer ctx' ts') := by
  refine follows_branch hc (by simp) h (fun hcut _ _ => ?_) (fun _ _ us us' _ h => ?_) fun _ _ _ => ?_
  · exact Silent.bind_failure (silent_number hc.endsWith hcut)
  · exact (follows_number hc h).map _
  · exact (follows_number hc h).map _

theorem follows_bound (h : P.Rows ts ts') : P.Follows True (bound ctx ts) (bound ctx' ts') := by
  refine follows_peek hc h (silent_bound hc.endsWith) fun t t' hsame ht ht' => ?_
  rw [ite_run, ite_run, ← P.lexeme_eq hsame]
  split
  next => exact (follows_integer hc h).map _
  next => exact .inr ⟨rfl, h⟩

/-- A step of zero is found after the closing bracket, and is then blamed on a token before it. -/
theorem follows_sliceFrom {base : Option Expr} {start : Option Int} (h : P.Rows ts ts')
    (ht : ctx.first ts = .ok t) (hl : t.lexeme = .mark .colon) :
    P.Follows stops (sliceFrom ctx base start ts) (sliceFrom ctx' base start ts') := by
  have hends := hc.endsWith
  refine follows_skip hc h ht hl (by simp) fun us us' h => (follows_bound hc h).bind (fun hcut _ stop => ?_)
    fun stop vs vs' h => ?_
  · exact silent_branch hends hcut (by simp) fun _ _ => silent_closeSelector_bind hends hcut
  refine follows_branch hc (by simp) h (fun hcut _ _ => silent_closeSelector_bind hends hcut)
    (fun _ _ ws ws' _ h => ?_) fun _ _ _ => (follows_closeSelector hc h).map _
  refine follows_peek hc h (fun hcut => ?_) fun v v' hsame _ _ =>
    (follows_bound hc h).bind (fun hcut _ step => ?_) fun step xs xs' h => ?_
  · refine silent_peek hends hcut fun _ _ => (silent_bound hends hcut).bind fun _ _ _ => ?_
    exact silent_closeSelector_bind hends hcut
  · exact silent_closeSelector_bind hends hcut
  refine (follows_closeSelector hc h).bind_firm fun _ ys ys' h => ?_
  rw [ite_run, ite_run]
  split
  next => exact follows_fail hc hsame
  next => exact .inr ⟨rfl, h⟩

theorem follows_selector {base : Option Expr} (h : P.Rows ts ts') :
    P.Follows stops (selector ctx base ts) (selector ctx' base ts') := by
  have hends := hc.endsWith
  refine follows_peek hc h (fun hcut => silent_selector hends hcut) fun t t' hsame ht _ => ?_
  rw [ite_run, ite_run, ← P.lexeme_eq hsame]
  split
  next hl => exact follows_sliceFrom hc h ht hl
  next =>
    refine (follows_integer hc h).bind_firm fun i us us' h => follows_peek hc h (fun hcut => ?_)
      fun u u' hsame hu _ => ?_
    · exact silent_branch hends hcut (by simp) fun _ _ => silent_closeSelector_bind hends hcut
    rw [ite_run, ite_run, ← P.lexeme_eq hsame]
    split
    next hl => exact follows_sliceFrom hc h hu hl
    next => exact (follows_closeSelector hc h).map _

/-! ### Rows of items -/

/-- The counts of the two rows differ if the second holds more, but neither runs out. -/
theorem follows_row {closer : Mark} {item item' : Parser α} {R : List Lexeme → α → Prop}
    (hitem : ∀ {ts ts'}, P.Rows ts ts' → P.Follows True (item ts) (item' ts'))
    (hreads : ∀ {ts us x}, item ts = .ok (x, us) → ∃ ls, R ls x ∧ Leads ts ls us) :
    ∀ {n n' : Nat} {ts ts' : List Token}, ts.length < n → ts'.length < n' → P.Rows ts ts' →
      P.Follows stops (row ctx closer item n ts) (row ctx' closer item' n' ts') := by
  have hends := hc.endsWith
  intro n
  induction n with
  | zero => exact fun hn => absurd hn (Nat.not_lt_zero _)
  | succ n ih =>
    intro n' ts ts' hn hn' h
    obtain ⟨m, rfl⟩ : ∃ m, n' = m + 1 := ⟨n' - 1, by omega⟩
    refine (hitem h).bind_of_run (fun hcut _ x => ?_) fun x us us' hx hus => ?_
    · exact silent_branch hends hcut (by simp) fun _ _ => silent_separator_bind hends hcut
    refine follows_branch hc (by simp) hus (fun hcut _ _ => silent_separator_bind hends hcut)
      (fun _ _ vs vs' _ h => .inr ⟨rfl, h⟩) fun _ _ _ => ?_
    refine (follows_separator hc hus).bind_of_run (fun _ => False.elim) fun _ vs vs' hcomma hvs => ?_
    have hlen : vs.length < n ∧ vs'.length < m := by
      obtain ⟨ls, -, hl⟩ := hreads hx
      have h₁ := hl.length_eq
      have h₂ := ((separator_eq_ok_iff hends).1 hcomma).length_eq
      have h₃ := h.length_eq
      have h₄ := hvs.length_eq
      simp only [List.length_cons, List.length_nil] at h₂
      omega
    exact (ih hlen.1 hlen.2 hvs).map _

theorem follows_items {closer : Mark} {item item' : Parser α} {R : List Lexeme → α → Prop}
    (hitem : ∀ {ts ts'}, P.Rows ts ts' → P.Follows True (item ts) (item' ts'))
    (hreads : ∀ {ts us x}, item ts = .ok (x, us) → ∃ ls, R ls x ∧ Leads ts ls us) (h : P.Rows ts ts') :
    P.Follows stops (items ctx closer item ts) (items ctx' closer item' ts') :=
  follows_row hc hitem hreads (Nat.lt_succ_self _) (Nat.lt_succ_self _) h

end

/-! ### Forms that hold subexpressions -/

/-- Parsers of subexpressions that follow one another. At the end of a row cut short they are silent, and also
    after a wildcard, which is the one token that is looked past. -/
structure Sides (P : Pairing) (last : Token) (sub sub' : SubParser) : Prop where
  sound : Sound last sub
  follows : ∀ {ctx ctx' power ts ts'}, P.Beside last ctx ctx' → P.Rows ts ts' →
    P.Follows True (sub ctx power ts) (sub' ctx' power ts')
  silent_nil : ∀ {ctx : Context} {power : Nat}, ctx.EndsWith last → P.cut → P.Silent True (sub ctx power [])
  silent_star : ∀ {ctx : Context} {t : Token}, ctx.EndsWith last → P.cut → t.lexeme = .mark .star →
    P.Silent True (sub ctx 0 [t])

section
variable {sub sub' : SubParser} (hs : Sides P last sub sub') (hc : P.Beside last ctx ctx')
include hs hc

theorem follows_multiselectListFrom (h : P.Rows ts ts') :
    P.Follows stops (multiselectListFrom sub ctx ts) (multiselectListFrom sub' ctx' ts') :=
  (follows_items hc (hs.follows hc) (hs.sound.pipeline hc.endsWith) h).map _

omit hs in
theorem follows_key (h : P.Rows ts ts') : P.Follows stops (key ctx ts) (key ctx' ts') := by
  refine follows_peek hc h (silent_key hc.endsWith) fun t t' hsame ht _ => ?_
  rw [← P.lexeme_eq hsame]
  cases hl : t.lexeme with
  | name k => exact follows_skip hc h ht hl (by simp) fun us us' h => .inr ⟨rfl, h⟩
  | quotedName k => exact follows_skip hc h ht hl (by simp) fun us us' h => .inr ⟨rfl, h⟩
  | _ => exact follows_fail hc hsame

theorem follows_pair (h : P.Rows ts ts') : P.Follows True (pair sub ctx ts) (pair sub' ctx' ts') := by
  refine (follows_key hc h).bind_firm fun k us us' h => (follows_expect hc h).bind_firm fun _ vs vs' h => ?_
  exact (hs.follows hc h).map _

theorem follows_multiselectHashFrom (h : P.Rows ts ts') :
    P.Follows stops (multiselectHashFrom sub ctx ts) (multiselectHashFrom sub' ctx' ts') :=
  (follows_items hc (follows_pair hs hc) (pair_sound hs.sound hc.endsWith) h).map _

theorem follows_argument (h : P.Rows ts ts') : P.Follows True (argument sub ctx ts) (argument sub' ctx' ts') := by
  refine follows_branch hc (by simp) h (fun hcut _ _ => hs.silent_nil hc.endsWith hcut)
    (fun _ _ us us' _ h => ?_) fun _ _ _ => hs.follows hc h
  exact (hs.follows hc h).map _

theorem follows_callFrom {function : String} (h : P.Rows ts ts') :
    P.Follows stops (callFrom sub ctx function ts) (callFrom sub' ctx' function ts') := by
  refine follows_branch hc (by simp) h (fun hcut _ _ => Silent.bind_failure ?_)
    (fun _ _ us us' _ h => .inr ⟨rfl, h⟩) fun _ _ _ => ?_
  · exact silent_row hc.endsWith hcut (silent_argument hc.endsWith hcut (hs.silent_nil hc.endsWith hcut))
  · exact (follows_items hc (follows_argument hs hc) (argument_sound hs.sound hc.endsWith) h).map _

/-! ### Operands -/

theorem follows_nameFrom {name : String} (h : P.Rows ts ts') :
    P.Follows True (nameFrom sub ctx name ts) (nameFrom sub' ctx' name ts') := by
  refine follows_branch hc (by simp) h (fun hcut _ _ => ⟨hcut, trivial, rfl⟩) (fun t t' us us' hsame h => ?_)
    fun _ _ _ => .inr ⟨rfl, h⟩
  exact follows_callFrom hs (hc.inside hsame) h

omit hs in
theorem follows_quotedNameFrom {name : String} (h : P.Rows ts ts') :
    P.Follows True (quotedNameFrom ctx name ts) (quotedNameFrom ctx' name ts') := by
  refine follows_peek hc h (fun hcut => silent_quotedNameFrom hc.endsWith hcut) fun t t' hsame ht _ => ?_
  rw [ite_run, ite_run, ← P.lexeme_eq hsame]
  split
  next => exact follows_fail hc hsame
  next => exact .inr ⟨rfl, h⟩

theorem follows_filterFrom {source : Option Expr} (h : P.Rows ts ts') :
    P.Follows stops (filterFrom sub ctx source ts) (filterFrom sub' ctx' source ts') := by
  refine (hs.follows hc h).bind (fun hcut _ predicate => ?_) fun predicate us us' h => ?_
  · exact Silent.bind_failure (silent_take hc.endsWith hcut (by simp) _)
  · exact (follows_expect hc h).map _

/-- After a bracket a wildcard is looked past; where the first row ends there, the list it would be the first
    item of is broken off. -/
theorem follows_bracketFrom (h : P.Rows ts ts') :
    P.Follows stops (bracketFrom sub ctx ts) (bracketFrom sub' ctx' ts') := by
  have hends := hc.endsWith
  refine follows_peek hc h (fun hcut => ?_) fun t t' hsame ht ht' => ?_
  · refine silent_peek hends hcut fun t ht => ?_
    rw [ht]
    exact silent_multiselectListFrom hends hcut (hs.silent_nil hends hcut)
  rw [ite_run, ite_run, ite_run, ite_run, ← P.lexeme_eq hsame]
  split
  next => exact follows_selector hc h
  next =>
    split
    next hstar =>
      obtain ⟨us, rfl⟩ := cons_of_first hends ht (by simp [hstar])
      obtain ⟨t', us', rfl, -, hus⟩ := h.cons_inv
      refine follows_peekSecond hc hus (fun hcut => ?_) fun u u' hsame hu _ => ?_
      · refine silent_peekSecond hends hcut fun u hu => ?_
        rw [ite_run, if_neg (by simp [hu])]
        exact silent_multiselectListFrom hends hcut (hs.silent_star hends hcut hstar)
      rw [ite_run, ite_run, ← P.lexeme_eq hsame]
      split
      next hclose =>
        rw [skip_bind_cons, skip_bind_cons]
        exact follows_skip hc hus hu hclose (by simp) fun vs vs' h => .inr ⟨rfl, h⟩
      next => exact follows_multiselectListFrom hs hc h
    next => exact follows_multiselectListFrom hs hc h

omit hs in
theorem follows_literalFrom {text : String} (ht : P.Same t t') (h : P.Rows ts ts') :
    P.Follows stops (literalFrom ctx t text ts) (literalFrom ctx' t' text ts') := by
  unfold literalFrom
  cases Json.read .literal text.toList with
  | ok v => exact .inr ⟨rfl, h⟩
  | error fault => exact follows_fail hc ht

theorem follows_operandFrom (ht : P.Same t t') (h : P.Rows ts ts') :
    P.Follows True (operandFrom sub ctx t ts) (operandFrom sub' ctx' t' ts') := by
  have hinside := hc.inside ht
  unfold operandFrom
  rw [← P.lexeme_eq ht]
  cases hl : t.lexeme with
  | name name => exact follows_nameFrom hs hc h
  | quotedName name => exact follows_quotedNameFrom hc h
  | rawString text => exact .inr ⟨rfl, h⟩
  | literal text => exact follows_literalFrom hc ht h
  | number n => exact follows_fail hc ht
  | finish => exact follows_fail hc ht
  | mark m =>
    cases m with
    | current => exact .inr ⟨rfl, h⟩
    | star => exact .inr ⟨rfl, h⟩
    | flatten => exact .inr ⟨rfl, h⟩
    | not => exact (hs.follows hc h).map _
    | lparen =>
      refine (hs.follows hinside h).bind (fun hcut _ e => ?_) fun e us us' h => ?_
      · exact Silent.bind_failure (silent_take hinside.endsWith hcut (by simp) _)
      · exact (follows_expect hinside h).map _
    | lbracket => exact follows_bracketFrom hs hinside h
    | lbrace => exact follows_multiselectHashFrom hs hinside h
    | filter => exact follows_filterFrom hs hinside h
    | _ => exact follows_fail hc ht

/-! ### Extensions -/

theorem follows_fieldFrom {left : Expr} (h : P.Rows ts ts') :
    P.Follows True (fieldFrom sub ctx left ts) (fieldFrom sub' ctx' left ts') := by
  refine follows_peek hc h (fun hcut => ?_) fun t t' hsame ht _ => ?_
  · refine silent_peek hc.endsWith hcut fun t ht => ?_
    rw [ht]
    exact silent_fail hcut ht
  have hinside := hc.inside hsame
  rw [← P.lexeme_eq hsame]
  cases hl : t.lexeme with
  | name name => exact follows_skip hc h ht hl (by simp) fun us us' h => (follows_nameFrom hs hc h).map _
  | quotedName name => exact follows_skip hc h ht hl (by simp) fun us us' h => (follows_quotedNameFrom hc h).map _
  | mark m =>
    cases m with
    | star => exact follows_skip hc h ht hl (by simp) fun us us' h => .inr ⟨rfl, h⟩
    | lbracket =>
      exact follows_skip hc h ht hl (by simp) fun us us' h => (follows_multiselectListFrom hs hinside h).map _
    | lbrace =>
      exact follows_skip hc h ht hl (by simp) fun us us' h => (follows_multiselectHashFrom hs hinside h).map _
    | _ => exact follows_fail hc hsame
  | _ => exact follows_fail hc hsame

omit hs in
theorem follows_selectorFrom {left : Expr} (h : P.Rows ts ts') :
    P.Follows stops (selectorFrom ctx left ts) (selectorFrom ctx' left ts') := by
  refine follows_peek hc h (fun hcut => ?_) fun t t' hsame ht _ => ?_
  · refine silent_peek hc.endsWith hcut fun t ht => ?_
    rw [ht]
    exact silent_fail hcut ht
  rw [ite_run, ite_run, ite_run, ite_run, ← P.lexeme_eq hsame]
  split
  next => exact follows_selector hc h
  next =>
    split
    next hstar => exact follows_skip hc h ht hstar (by simp) fun us us' h => (follows_expect hc h).map _
    next => exact follows_fail hc hsame

theorem follows_extendFrom {left : Expr} (ht : P.Same t t') (h : P.Rows ts ts') :
    P.Follows True (extendFrom sub ctx t left ts) (extendFrom sub' ctx' t' left ts') := by
  have hinside := hc.inside ht
  unfold extendFrom
  rw [← P.lexeme_eq ht]
  cases hl : t.lexeme with
  | mark m =>
    cases m with
    | dot => exact follows_fieldFrom hs hc h
    | pipe => exact (hs.follows hc h).map _
    | or => exact (hs.follows hc h).map _
    | and => exact (hs.follows hc h).map _
    | comparator op => exact (hs.follows hc h).map _
    | flatten => exact .inr ⟨rfl, h⟩
    | filter => exact follows_filterFrom hs hinside h
    | lbracket => exact follows_selectorFrom hinside h
    | _ => exact follows_fail hc ht
  | _ => exact follows_fail hc ht

end

/-! ### Expressions -/

/-- A depth error says nothing about a run that has more room. -/
theorem silent_tooDeep {limit : Int} (hdeeper : P.deeper) :
    P.Silent stops ((fail ctx (.tooDeep limit) t : Parser α) ts) := by
  show P.Excused (if t.lexeme = .finish then _ else _)
  split
  next => split <;> exact .inr ⟨⟨limit, .inl rfl⟩, hdeeper⟩
  next => exact .inl ⟨⟨limit, .inl rfl⟩, .inr hdeeper⟩

theorem silent_failDeep_of_first (hdeeper : P.deeper) (ht : ctx.first ts = .ok t) :
    P.Silent stops ((failDeep ctx : Parser α) ts) := by
  show P.Silent stops (((ctx.first ts).map _).bind _)
  rw [ht]
  exact silent_tooDeep hdeeper

theorem silent_failDeep (hc : ctx.EndsWith last) (hcut : P.cut) :
    P.Silent stops ((failDeep ctx : Parser α) []) :=
  silent_peek hc hcut fun _ ht => silent_fail hcut ht

theorem follows_failDeep (hc : P.Beside last ctx ctx') (h : P.Rows ts ts') :
    P.Follows stops ((failDeep ctx : Parser α) ts) ((failDeep ctx' : Parser α) ts') := by
  refine follows_peek hc h (silent_failDeep hc.endsWith) fun t t' hsame _ _ => ?_
  rcases hc.limit' with hlimit | hdeeper
  · rw [hc.limit, hlimit]
    exact follows_fail hc hsame
  · exact .inl (silent_tooDeep hdeeper)

/-- A run that has no room is followed by one that has. -/
theorem follows_failDeep_advance {f' : Token → Parser α} (hdeeper : P.deeper) (hc : P.Beside last ctx ctx')
    (h : P.Rows ts ts') : P.Follows stops ((failDeep ctx : Parser α) ts) ((advance ctx' >>= f') ts') := by
  by_cases hnil : P.cut ∧ ts = []
  · obtain ⟨hcut, rfl⟩ := hnil
    exact .inl (silent_failDeep hc.endsWith hcut)
  · refine @follows_first _ P stops last ctx ctx' ts ts' hc ts ts'.tail (fun t => fail ctx (.tooDeep ctx.limit) t) f'
      h (fun hcut hts => hnil ⟨hcut, hts⟩) fun _ _ _ _ _ => .inl (silent_tooDeep hdeeper)

/-- At the end of a row cut short it does not matter that the stack gives out. -/
theorem silent_hold {f : Unit → Parser α} (hcut : P.cut) (hf : P.Silent stops (f () ts)) :
    P.Silent stops ((hold halt? ctx >>= f) ts) := by
  rw [bind_run, hold]
  split
  next => exact .inl ⟨⟨ctx.limit, .inr rfl⟩, .inl hcut⟩
  next => exact hf

/-- Where the stack of the first run does not give out, both runs go on. -/
theorem follows_hold {f f' : Unit → Parser α} (hh : P.Halts halt? halt?') (hc : P.Beside last ctx ctx')
    (h : P.Rows ts ts') (hf : P.Follows stops (f () ts) (f' () ts')) :
    P.Follows stops ((hold halt? ctx >>= f) ts) ((hold halt?' ctx' >>= f') ts') := by
  rw [bind_run, bind_run, hold, hold]
  cases hnext : halt? ts.head? with
  | some p => exact .inl (.inr ⟨congrArg GrammarCause.exhausted hc.limit, hh.halts hnext⟩)
  | none =>
    rw [hh.goesOn h hnext]
    exact hf

/-- Whatever the room, an extension goes by what comes next. -/
theorem extendOn_eq_peek (halt? : Option Token → Option Nat) (room : Nat) (ctx : Context) (power : Nat)
    (left : Expr) : ∃ f : Token → Parser Expr, extendOn halt? room ctx power left =
      peek ctx >>= fun t => if power < t.lexeme.power then f t else pure left := by
  cases room with
  | zero => exact ⟨_, by unfold extendOn; rfl⟩
  | succ room => exact ⟨_, by unfold extendOn; rfl⟩

theorem silent_extendOn {room power : Nat} {left : Expr} (hc : ctx.EndsWith last) (hcut : P.cut) :
    P.Silent True (extendOn halt? room ctx power left []) := by
  obtain ⟨f, hf⟩ := extendOn_eq_peek halt? room ctx power left
  rw [hf]
  refine silent_peek hc hcut fun t ht => ?_
  rw [ite_run, if_neg (by rw [ht]; exact Nat.not_lt_zero power)]
  exact ⟨hcut, trivial, rfl⟩

/-- The rooms of two runs: the same, or if the second may go deeper, one and another that is no less. -/
def Rooms (P : Pairing) (room room' : Nat) : Prop := room = room' ∨ P.deeper ∧ room ≤ room'

theorem Rooms.deeper_of_zero {room : Nat} (h : P.Rooms 0 (room + 1)) : P.deeper := by
  rcases h with ⟨⟨⟩⟩ | ⟨hdeeper, -⟩
  exact hdeeper

theorem Rooms.of_succ {room room' : Nat} (h : P.Rooms (room + 1) room') :
    ∃ m, room' = m + 1 ∧ P.Rooms room m := by
  rcases h with rfl | ⟨hdeeper, hle⟩
  · exact ⟨room, rfl, .inl rfl⟩
  · obtain ⟨m, rfl⟩ : ∃ m, room' = m + 1 := ⟨room' - 1, by omega⟩
    exact ⟨m, rfl, .inr ⟨hdeeper, Nat.le_of_succ_le_succ hle⟩⟩

theorem follows_extendOn : ∀ {room room' : Nat}, P.Rooms room room' →
    (∀ r < room, ∀ {r'}, P.Rooms r r' → Sides P last (expressionOn halt? r) (expressionOn halt?' r')) →
    ∀ {ctx ctx' : Context} {power : Nat} {ts ts' : List Token} {left : Expr}, P.Beside last ctx ctx' →
    P.Rows ts ts' →
    P.Follows True (extendOn halt? room ctx power left ts) (extendOn halt?' room' ctx' power left ts') := by
  intro room
  induction room with
  | zero =>
    intro room' hrooms _ ctx ctx' power ts ts' left hc h
    have hend (hcut : P.cut) := @silent_extendOn P last ctx halt? 0 power left hc.endsWith hcut
    obtain rfl | ⟨hdeeper, -⟩ := hrooms
    · unfold extendOn at hend ⊢
      refine follows_peek hc h hend fun t t' hsame ht _ => ?_
      rw [ite_run, ite_run, ← P.lexeme_eq hsame]
      split
      next => exact follows_failDeep hc h
      next => exact .inr ⟨rfl, h⟩
    · obtain ⟨f', hf'⟩ := extendOn_eq_peek halt?' room' ctx' power left
      rw [hf']
      unfold extendOn at hend ⊢
      refine follows_peek hc h hend fun t t' hsame ht _ => ?_
      rw [ite_run, ite_run, ← P.lexeme_eq hsame]
      split
      next hp => exact .inl (silent_failDeep_of_first hdeeper ht)
      next => exact .inr ⟨rfl, h⟩
  | succ room ih =>
    intro room' hrooms hsub ctx ctx' power ts ts' left hc h
    have hend (hcut : P.cut) := @silent_extendOn P last ctx halt? (room + 1) power left hc.endsWith hcut
    obtain ⟨m, rfl, hlower⟩ := hrooms.of_succ
    unfold extendOn at hend ⊢
    refine follows_peek hc h hend fun t t' hsame ht _ => ?_
    rw [ite_run, ite_run, ← P.lexeme_eq hsame]
    split
    next hp =>
      refine follows_skip hc h ht rfl (ne_finish_of_lt_power hp) fun us us' h => ?_
      refine (follows_extendFrom (hsub room room.lt_succ_self hlower) hc hsame h).bind
        (fun hcut _ left => silent_extendOn hc.endsWith hcut) fun left vs vs' h => ?_
      exact ih hlower (fun r hr _ => hsub r (Nat.lt_succ_of_lt hr)) hc h
    next => exact .inr ⟨rfl, h⟩

/-- No operand starts with the end. -/
theorem silent_operandFrom_nil {sub : SubParser} {f : Expr → Parser α} (hc : ctx.EndsWith last) (hcut : P.cut) :
    P.Silent stops ((advance ctx >>= fun t => operandFrom sub ctx t >>= f) []) := by
  refine silent_first hc hcut fun t ht => Silent.bind_failure ?_
  unfold operandFrom
  rw [ht]
  exact silent_fail hcut ht

theorem silent_expressionOn_nil {room power : Nat} (hc : ctx.EndsWith last) (hcut : P.cut) :
    P.Silent stops (expressionOn halt? room ctx power []) := by
  cases room with
  | zero =>
    unfold expressionOn
    exact silent_hold hcut (silent_failDeep hc hcut)
  | succ room =>
    unfold expressionOn
    exact silent_hold hcut (silent_operandFrom_nil hc hcut)

theorem silent_expressionOn_star {room : Nat} (hc : ctx.EndsWith last) (hcut : P.cut)
    (ht : t.lexeme = .mark .star) : P.Silent True (expressionOn halt? room ctx 0 [t]) := by
  cases room with
  | zero =>
    unfold expressionOn
    refine silent_hold hcut ?_
    show P.Excused (if t.lexeme = .finish then _ else _)
    rw [if_neg (by simp [ht])]
    exact .inl ⟨⟨ctx.limit, .inl rfl⟩, .inl hcut⟩
  | succ room =>
    unfold expressionOn
    refine silent_hold hcut ?_
    rw [advance_bind_cons]
    unfold operandFrom
    rw [ht]
    exact silent_extendOn hc hcut

theorem expressionOn_sides (hh : P.Halts halt? halt?') (last : Token) :
    ∀ room {room'}, P.Rooms room room' → Sides P last (expressionOn halt? room) (expressionOn halt?' room')
  | 0, room', hrooms => ⟨expressionOn_sound halt? last 0, fun {ctx ctx' power ts ts'} hc h => by
    cases room' with
    | zero =>
      unfold expressionOn
      exact follows_hold hh hc h (follows_failDeep hc h)
    | succ m =>
      unfold expressionOn
      exact follows_hold hh hc h (follows_failDeep_advance hrooms.deeper_of_zero hc h),
      silent_expressionOn_nil, silent_expressionOn_star⟩
  | room + 1, room', hrooms => ⟨expressionOn_sound halt? last (room + 1), fun {ctx ctx' power ts ts'} hc h => by
    obtain ⟨m, rfl, hlower⟩ := hrooms.of_succ
    have hsub : ∀ r < room + 1, ∀ {r'}, P.Rooms r r' →
        Sides P last (expressionOn halt? r) (expressionOn halt?' r') :=
      fun r hr _ => expressionOn_sides hh last r
    unfold expressionOn
    refine follows_hold hh hc h (follows_advance hc h (silent_operandFrom_nil hc.endsWith)
      fun t t' hsame htail => ?_)
    refine (follows_operandFrom (hsub room room.lt_succ_self hlower) hc hsame htail).bind
      (fun hcut _ left => silent_extendOn hc.endsWith hcut) fun left us us' h => ?_
    exact follows_extendOn hlower (fun r hr _ => hsub r (Nat.lt_succ_of_lt hr)) hc h,
      silent_expressionOn_nil, silent_expressionOn_star⟩
termination_by room => room

/-- A run that reads one expression and the end is followed by any that stands beside it. -/
theorem follows_wholeOn {room room' : Nat} (hh : P.Halts halt? halt?') (hrooms : P.Rooms room room')
    (hc : P.Beside last ctx ctx') (h : P.Rows ts ts') :
    P.Follows True (wholeOn halt? room ctx ts) (wholeOn halt?' room' ctx' ts') := by
  have hfinish {e : Expr} (hcut : P.cut) : P.Silent True ((do
      let t ← peek ctx
      if t.lexeme = .finish then return e else fail ctx (.trailing t.lexeme) t : Parser Expr) []) := by
    refine silent_peek hc.endsWith hcut fun t ht => ?_
    rw [if_pos ht]
    exact ⟨hcut, trivial, rfl⟩
  refine ((expressionOn_sides hh last room hrooms).follows hc h).bind (fun hcut _ e => hfinish hcut)
    fun e us us' h => ?_
  refine follows_peek hc h hfinish fun t t' hsame _ _ => ?_
  rw [ite_run, ite_run, ← P.lexeme_eq hsame]
  split
  next => exact .inr ⟨rfl, h⟩
  next => exact follows_fail hc hsame

/-- With stack enough for both. -/
theorem follows_whole {room room' : Nat} (hrooms : P.Rooms room room') (hc : P.Beside last ctx ctx')
    (h : P.Rows ts ts') : P.Follows True (whole room ctx ts) (whole room' ctx' ts') :=
  follows_wholeOn .never hrooms hc h

end JsonQuery.Expr.Pairing
