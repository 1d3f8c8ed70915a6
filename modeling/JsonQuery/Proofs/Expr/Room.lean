import JsonQuery.Proofs.Expr.Reasons

/-! Room for the tokens that are left. What a parser reads inside an expression or an extension comes after a
    token that was taken with one unit of the room. So where there is more room than there are tokens it never
    runs out: at the latest the end is reached before, and then the failure is about the end. -/

namespace JsonQuery.Expr

/-- Neither a failure for the depth nor more tokens left than a certain number. -/
def Kept {α : Type} (n : Nat) : Except SyntaxError (α × List Token) → Prop
  | .ok (_, us) => us.length ≤ n
  | .error e => ¬ e.IsDepth

/-- A parser that does not fail for the depth on so many tokens at most, nor leaves more of them. -/
def Roomy {α : Type} (n : Nat) (p : Parser α) : Prop := ∀ ts, ts.length ≤ n → Kept n (p ts)

variable {α β : Type} {n m : Nat} {ctx : Context} {last : Token}

theorem Kept.mono {r : Except SyntaxError (α × List Token)} (h : Kept m r) (hle : m ≤ n) : Kept n r := by
  cases r with
  | ok r => exact Nat.le_trans h hle
  | error e => exact h

theorem Kept.bind {p : Parser α} {f : α → Parser β} {ts : List Token} (h : Kept n (p ts))
    (hf : ∀ x us, us.length ≤ n → Kept n (f x us)) : Kept n ((p >>= f) ts) := by
  rw [bind_run]
  cases hp : p ts with
  | ok r =>
    rw [hp] at h
    exact hf r.1 r.2 h
  | error e =>
    rw [hp] at h
    exact h

theorem kept_fail {cause : GrammarCause} {t : Token} {ts : List Token} (h : ¬ IsDepth cause) :
    Kept n ((fail ctx cause t : Parser α) ts) := by
  show ¬ SyntaxError.IsDepth (if t.lexeme = .finish then _ else _)
  split
  next => split <;> exact h
  next => exact h

/-! ### Rules -/

namespace Roomy

theorem pure (x : α) : Roomy n (pure x : Parser α) := fun _ h => h

theorem bind {p : Parser α} {f : α → Parser β} (hp : Roomy n p) (hf : ∀ x, Roomy n (f x)) :
    Roomy n (p >>= f) := fun ts h => (hp ts h).bind hf

theorem map {p : Parser α} (h : Roomy n p) (f : α → β) : Roomy n (do return f (← p)) :=
  h.bind fun x => .pure (f x)

theorem fail {cause : GrammarCause} {t : Token} (h : ¬ IsDepth cause) :
    Roomy n (fail ctx cause t : Parser α) := fun _ _ => kept_fail h

end Roomy

/-- Looking at the end of the tokens finds their end or a lexical fault. -/
theorem kept_first (ctx : Context) {ts us : List Token} (h : us.length ≤ n) :
    Kept n ((ctx.first ts).map fun t => (t, us)) := by
  cases hfirst : ctx.first ts with
  | ok t => exact h
  | error e =>
    cases ts with
    | cons t ts => cases hfirst
    | nil =>
      simp only [Context.first, Context.last] at hfirst
      split at hfirst <;> cases hfirst
      exact id

/-- At the end there is the token of the end to go by, or a fault. -/
theorem kept_at_end {f : Token → Parser α} (hc : ctx.EndsWith last) (hf : Kept n (f last [])) :
    Kept n (((ctx.first []).map fun t => (t, [])).bind fun r => f r.1 r.2) := by
  have hend : Kept n ((ctx.first []).map fun t => (t, [])) := kept_first ctx (Nat.zero_le n)
  cases hfirst : ctx.first [] with
  | ok t =>
    cases eq_front_of_first hc hfirst
    exact hf
  | error e =>
    rw [hfirst] at hend
    exact hend

theorem kept_peek_end {f : Token → Parser α} (hc : ctx.EndsWith last) (hf : Kept n (f last [])) :
    Kept n ((peek ctx >>= f) []) := kept_at_end hc hf

theorem kept_advance_end {f : Token → Parser α} (hc : ctx.EndsWith last) (hf : Kept n (f last [])) :
    Kept n ((advance ctx >>= f) []) := kept_at_end hc hf

theorem roomy_peek (ctx : Context) : Roomy n (peek ctx) := fun _ h => kept_first ctx h

theorem roomy_peekSecond (ctx : Context) : Roomy n (peekSecond ctx) := fun _ h => kept_first ctx h

theorem roomy_advance (ctx : Context) : Roomy n (advance ctx) := fun ts h =>
  kept_first ctx (Nat.le_trans (by simp) h)

theorem roomy_skip (ctx : Context) : Roomy n (discard (advance ctx)) :=
  (roomy_advance ctx).bind fun _ => .pure _

/-- A parser that goes by whether a certain lexeme comes next, and takes it if so. -/
theorem roomy_branch (ctx : Context) {l : Lexeme} {p q : Token → Parser α} (hp : ∀ t, Roomy n (p t))
    (hq : ∀ t, Roomy n (q t)) : Roomy n (peek ctx >>= fun t =>
      if t.lexeme = l then discard (advance ctx) >>= fun _ => p t else q t) := by
  refine (roomy_peek ctx).bind fun t => ?_
  split
  next => exact (roomy_skip ctx).bind fun _ => hp t
  next => exact hq t

/-- A parser of one lexeme takes it or fails. -/
theorem roomy_take (ctx : Context) {l : Lexeme} {cause : Token → GrammarCause} (h : ∀ t, ¬ IsDepth (cause t)) :
    Roomy n (do
      let t ← peek ctx
      if t.lexeme = l then discard (advance ctx) else Expr.fail ctx (cause t) t : Parser Unit) := by
  refine (roomy_peek ctx).bind fun t => ?_
  split
  next => exact roomy_skip ctx
  next => exact .fail (h t)

theorem roomy_expect (m : Mark) : Roomy n (expect ctx m) := roomy_take ctx fun _ => nofun

theorem roomy_separator (closer : Mark) : Roomy n (separator ctx closer) := roomy_take ctx fun _ => nofun

/-! ### Indices and slices -/

theorem roomy_closeSelector (mayGoOn : Bool) : Roomy n (closeSelector ctx mayGoOn) :=
  roomy_take ctx fun _ => nofun

theorem roomy_number : Roomy n (number ctx) := by
  refine (roomy_peek ctx).bind fun t => ?_
  split
  next => exact (roomy_skip ctx).bind fun _ => .pure _
  next => exact .fail nofun

theorem roomy_integer : Roomy n (integer ctx) :=
  roomy_branch ctx (fun _ => roomy_number.map _) fun _ => roomy_number.map _

theorem roomy_bound : Roomy n (bound ctx) := by
  refine (roomy_peek ctx).bind fun t => ?_
  split
  next => exact roomy_integer.map _
  next => exact .pure none

theorem roomy_sliceFrom (base : Option Expr) (start : Option Int) : Roomy n (sliceFrom ctx base start) := by
  refine (roomy_skip ctx).bind fun _ => roomy_bound.bind fun stop => ?_
  refine roomy_branch ctx (fun _ => ?_) fun _ => (roomy_closeSelector true).map _
  refine (roomy_peek ctx).bind fun t => roomy_bound.bind fun step => (roomy_closeSelector false).bind fun _ => ?_
  split
  next => exact .fail nofun
  next => exact .pure _

theorem roomy_selector (base : Option Expr) : Roomy n (selector ctx base) := by
  refine (roomy_peek ctx).bind fun t => ?_
  split
  next => exact roomy_sliceFrom base none
  next =>
    refine roomy_integer.bind fun i => (roomy_peek ctx).bind fun u => ?_
    split
    next => exact roomy_sliceFrom base (some i)
    next => exact (roomy_closeSelector true).map _

/-! ### Forms that hold subexpressions -/

theorem roomy_row (closer : Mark) {item : Parser α} (h : Roomy n item) :
    ∀ count, Roomy n (row ctx closer item count) := by
  intro count
  induction count with
  | zero => exact .pure []
  | succ count ih =>
    refine h.bind fun x => roomy_branch ctx (fun _ => .pure [x]) fun _ => ?_
    exact (roomy_separator closer).bind fun _ => ih.map _

theorem roomy_items (closer : Mark) {item : Parser α} (h : Roomy n item) : Roomy n (items ctx closer item) :=
  fun ts => roomy_row closer h (ts.length + 1) ts

/-- A parser of subexpressions that has room for so many tokens. -/
def RoomFor (last : Token) (n : Nat) (sub : SubParser) : Prop :=
  ∀ ⦃ctx : Context⦄ ⦃power : Nat⦄, ctx.EndsWith last → Roomy n (sub ctx power)

section
variable {sub : SubParser} (hs : RoomFor last n sub) (hc : ctx.EndsWith last)
include hs hc

theorem roomy_multiselectListFrom : Roomy n (multiselectListFrom sub ctx) :=
  (roomy_items .rbracket (hs hc)).map _

omit hs hc in
theorem roomy_key : Roomy n (key ctx) := by
  refine (roomy_peek ctx).bind fun t => ?_
  split
  next => exact (roomy_skip ctx).bind fun _ => .pure _
  next => exact (roomy_skip ctx).bind fun _ => .pure _
  next => exact .fail nofun

theorem roomy_multiselectHashFrom : Roomy n (multiselectHashFrom sub ctx) :=
  (roomy_items .rbrace (roomy_key.bind fun _ => (roomy_expect .colon).bind fun _ => (hs hc).map _)).map _

theorem roomy_argument : Roomy n (argument sub ctx) :=
  roomy_branch ctx (fun _ => (hs hc).map _) fun _ => hs hc

theorem roomy_callFrom (function : String) : Roomy n (callFrom sub ctx function) :=
  roomy_branch ctx (fun _ => .pure _) fun _ => (roomy_items .rparen (roomy_argument hs hc)).map _

theorem roomy_nameFrom (name : String) : Roomy n (nameFrom sub ctx name) :=
  roomy_branch ctx (fun t => roomy_callFrom hs (hc.inside t) name) fun _ => .pure _

omit hs hc in
theorem roomy_quotedNameFrom (name : String) : Roomy n (quotedNameFrom ctx name) := by
  refine (roomy_peek ctx).bind fun t => ?_
  split
  next => exact .fail nofun
  next => exact .pure _

theorem roomy_filterFrom (source : Option Expr) : Roomy n (filterFrom sub ctx source) :=
  (hs hc).bind fun _ => (roomy_expect .rbracket).map _

theorem roomy_bracketFrom : Roomy n (bracketFrom sub ctx) := by
  have hlist := roomy_multiselectListFrom hs hc
  refine (roomy_peek ctx).bind fun t => ?_
  split
  next => exact roomy_selector none
  next =>
    split
    next =>
      refine (roomy_peekSecond ctx).bind fun u => ?_
      split
      next => exact (roomy_skip ctx).bind fun _ => (roomy_skip ctx).bind fun _ => .pure _
      next => exact hlist
    next => exact hlist

omit hs hc in
theorem roomy_literalFrom (t : Token) (text : String) : Roomy n (literalFrom ctx t text) := by
  unfold literalFrom
  split
  next => exact .pure _
  next => exact .fail nofun

theorem roomy_operandFrom (t : Token) : Roomy n (operandFrom sub ctx t) := by
  have hinside := hc.inside t
  unfold operandFrom
  cases t.lexeme with
  | name name => exact roomy_nameFrom hs hc name
  | quotedName name => exact roomy_quotedNameFrom name
  | rawString text => exact .pure _
  | literal text => exact roomy_literalFrom t text
  | mark m =>
    cases m with
    | current => exact .pure _
    | star => exact .pure _
    | flatten => exact .pure _
    | not => exact (hs hc).map _
    | lparen => exact (hs hinside).bind fun e => (roomy_expect .rparen).bind fun _ => .pure e
    | lbracket => exact roomy_bracketFrom hs hinside
    | lbrace => exact roomy_multiselectHashFrom hs hinside
    | filter => exact roomy_filterFrom hs hinside none
    | _ => exact .fail nofun
  | _ => exact .fail nofun

theorem roomy_fieldFrom (left : Expr) : Roomy n (fieldFrom sub ctx left) := by
  refine (roomy_peek ctx).bind fun t => ?_
  have hinside := hc.inside t
  cases t.lexeme with
  | name name => exact (roomy_skip ctx).bind fun _ => (roomy_nameFrom hs hc name).map _
  | quotedName name => exact (roomy_skip ctx).bind fun _ => (roomy_quotedNameFrom name).map _
  | mark m =>
    cases m with
    | star => exact (roomy_skip ctx).bind fun _ => .pure _
    | lbracket => exact (roomy_skip ctx).bind fun _ => (roomy_multiselectListFrom hs hinside).map _
    | lbrace => exact (roomy_skip ctx).bind fun _ => (roomy_multiselectHashFrom hs hinside).map _
    | _ => exact .fail nofun
  | _ => exact .fail nofun

omit hs hc in
theorem roomy_selectorFrom (left : Expr) : Roomy n (selectorFrom ctx left) := by
  refine (roomy_peek ctx).bind fun t => ?_
  split
  next => exact roomy_selector (some left)
  next =>
    split
    next => exact (roomy_skip ctx).bind fun _ => (roomy_expect .rbracket).map _
    next => exact .fail nofun

theorem roomy_extendFrom (t : Token) (left : Expr) : Roomy n (extendFrom sub ctx t left) := by
  have hinside := hc.inside t
  unfold extendFrom
  cases t.lexeme with
  | mark m =>
    cases m with
    | dot => exact roomy_fieldFrom hs hc left
    | pipe => exact (hs hc).map _
    | or => exact (hs hc).map _
    | and => exact (hs hc).map _
    | comparator op => exact (hs hc).map _
    | flatten => exact .pure _
    | filter => exact roomy_filterFrom hs hinside (some left)
    | lbracket => exact roomy_selectorFrom left
    | _ => exact .fail nofun
  | _ => exact .fail nofun

end

/-! ### Expressions -/

theorem roomy_extend : ∀ {room : Nat}, (∀ r < room, ∀ m < r, RoomFor last m (expression r)) →
    ∀ {n power : Nat} {ctx : Context} {left : Expr}, n < room → ctx.EndsWith last →
      Roomy n (extend room ctx power left) := by
  intro room
  induction room with
  | zero => exact fun _ _ _ _ _ hn => absurd hn (Nat.not_lt_zero _)
  | succ room ih =>
    intro hsub n power ctx left hn hc ts hts
    rw [extend_add_one]
    cases ts with
    | nil =>
      refine kept_peek_end hc ?_
      rw [ite_run, if_neg (by rw [hc.lexeme]; exact Nat.not_lt_zero power)]
      exact hts
    | cons t us =>
      rw [peek_bind_cons, ite_run]
      split
      next =>
        obtain ⟨m, rfl⟩ : ∃ m, n = m + 1 := ⟨n - 1, by simp only [List.length_cons] at hts; omega⟩
        have hus : us.length ≤ m := Nat.le_of_succ_le_succ hts
        have hm : m < room := Nat.lt_of_succ_lt_succ hn
        have hextend := roomy_extendFrom (hsub room room.lt_succ_self m hm) hc t left us hus
        refine Kept.mono (hextend.bind fun left vs hvs => ?_) m.le_succ
        exact ih (fun r hr => hsub r (Nat.lt_succ_of_lt hr)) hm hc vs hvs
      next => exact hts

/-- With room for more than the tokens there is no depth error: the token that an expression starts with leaves
    one token less for what follows and one unit less of the room. -/
theorem expression_roomFor (last : Token) : ∀ room, ∀ n < room, RoomFor last n (expression room)
  | 0, _, hn => absurd hn (Nat.not_lt_zero _)
  | room + 1, n, hn => fun ctx power hc ts hts => by
    have hsub : ∀ r < room + 1, ∀ m < r, RoomFor last m (expression r) := fun r hr => expression_roomFor last r
    rw [expression_add_one]
    cases ts with
    | nil =>
      refine kept_advance_end hc ?_
      have hfail : Kept n ((fail ctx (.notAnExpression .finish) last : Parser Expr) []) := kept_fail nofun
      unfold operandFrom
      rw [hc.lexeme]
      exact hfail
    | cons t us =>
      obtain ⟨m, rfl⟩ : ∃ m, n = m + 1 := ⟨n - 1, by simp only [List.length_cons] at hts; omega⟩
      have hus : us.length ≤ m := Nat.le_of_succ_le_succ hts
      have hm : m < room := Nat.lt_of_succ_lt_succ hn
      have hoperand := roomy_operandFrom (hsub room room.lt_succ_self m hm) hc t us hus
      refine Kept.mono (hoperand.bind fun left vs hvs => ?_) m.le_succ
      exact roomy_extend (fun r hr => hsub r (Nat.lt_succ_of_lt hr)) hm hc vs hvs
termination_by room => room

/-- A parser of one expression and the end does not fail for the depth where there is more room than tokens. -/
theorem roomy_whole {room : Nat} (hn : n < room) (hc : ctx.EndsWith last) : Roomy n (whole room ctx) := by
  rw [whole_eq]
  refine (expression_roomFor last room n hn hc).bind fun e => (roomy_peek ctx).bind fun t => ?_
  split
  next => exact .pure e
  next => exact .fail nofun

end JsonQuery.Expr
