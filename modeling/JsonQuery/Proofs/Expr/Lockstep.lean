import JsonQuery.Proofs.Expr.Descent
import JsonQuery.Proofs.Expr.Places

/-! The machine keeps step with the parser. From a state of a descent into a scan, the run of a part of the machine and
    that of a parser come to the same result or to the same error, and the tokens left are the same; the machine does
    not stall, as long as fewer tokens are left than its bound. What a part keeps is said of it once and for all: the
    depth and the entries of the frame are as they were, the brackets that are open are known before and after, and the
    record is in order, in which every entry goes with a token that was taken. Rules for sequences, choices, brackets
    and turns take this from one token up to an expression; there the entries and the room are weighed against each
    other, and the depth is taken back as the frame is left. -/

namespace JsonQuery.Expr.Descent

variable {α β : Type}

/-! ### Runs of the machine -/

variable {s s' : Descent.State} {m : Descent α} {f : α → Descent β} {p : Context → Parser α}

theorem look_of_ok {a : α} {ts : List Token} (h : p s.context s.tokens = .ok (a, ts)) : look p s = (.ok a, s) := by
  rw [look, h]

theorem look_of_error {e : SyntaxError} (h : p s.context s.tokens = .error e) :
    look p s = (.error (.failed e), s) := by
  rw [look, h]

theorem peek_of_first {ctx : Context} {ts : List Token} {t : Token} (h : ctx.first ts = .ok t) :
    Expr.peek ctx ts = .ok (t, ts) := congrArg (Except.map _) h

theorem peek_of_first_error {ctx : Context} {ts : List Token} {e : SyntaxError} (h : ctx.first ts = .error e) :
    Expr.peek ctx ts = .error e := congrArg (Except.map _) h

theorem advance_of_ok {t : Token} (h : s.context.first s.tokens = .ok t) : advance s = (.ok t, s.past) :=
  bind_of_ok (look_of_ok (peek_of_first h))

theorem advance_of_error {e : SyntaxError} (h : s.context.first s.tokens = .error e) :
    advance s = (.error (.failed e), s) := bind_of_error (look_of_error (peek_of_first_error h))

/-! ### Runs of both -/

/-- A run of the machine comes to what a run of the parser comes to. The state in the end is good, or bad after an
    error. -/
inductive Meets (good bad : State → Prop) : Except Halt α × State → Except SyntaxError (α × List Token) → Prop
  | ok {a : α} {s : State} : good s → Meets good bad (.ok a, s) (.ok (a, s.tokens))
  | failed {e : SyntaxError} {s : State} : bad s → Meets good bad (.error (.failed e), s) (.error e)

/-- What is recorded of a descent into a scan; some entries may not have taken a token. -/
structure Recorded (scan : Scan) (spare : Nat) (s : State) : Prop where
  tokens : s.taken ++ s.tokens = scan.tokens
  entries : s.entries.length ≤ s.taken.length + spare
  turns : ∀ turn ∈ s.turns, turn.after < turn.before

/-- The context in a scan with certain brackets open. -/
abbrev within (scan : Scan) (limit : Int) (unclosed : List Token) : Context := ⟨limit, scan.ending, unclosed⟩

/-- The state of a descent into a scan, at a depth and with certain brackets open. -/
structure At (scan : Scan) (limit d : Int) (unclosed : List Token) (s : State) : Prop where
  context : s.context = within scan limit unclosed
  depth : s.depth = d
  recorded : Recorded scan 0 s

/-- From a state the machine meets the parser. The depth and the entries of the frame are then as before; without an
    error some number of tokens has been taken, and certain brackets are open. -/
def InStep (scan : Scan) (limit d : Int) (unclosed : List Token) (least : Nat) (s : State) :
    Except Halt α × State → Except SyntaxError (α × List Token) → Prop :=
  Meets (fun s' => At scan limit d unclosed s' ∧ s'.entered = s.entered ∧ s'.tokens.length + least ≤ s.tokens.length)
    fun s' => Recorded scan 1 s' ∧ s'.depth = d ∧ s'.entered = s.entered

/-- A part of the machine keeps step with a parser wherever fewer than `n` tokens are left. -/
def Mirrors (scan : Scan) (limit d : Int) (n : Nat) (before after : List Token) (least : Nat) (m : Descent α)
    (p : Parser α) : Prop :=
  ∀ s, At scan limit d before s → s.tokens.length < n → InStep scan limit d after least s (m s) (p s.tokens)

variable {scan : Scan} {limit d : Int} {n j k : Nat} {u v w us : List Token} {t : Token} {p : Parser α}
  {g : α → Parser β} {good bad good' bad' : State → Prop}

theorem Recorded.spared (h : Recorded scan 0 s) : Recorded scan 1 s :=
  ⟨h.tokens, Nat.le_succ_of_le h.entries, h.turns⟩

theorem Meets.bind {ts : List Token} (h : Meets good bad (m s) (p ts))
    (hf : ∀ a s', p ts = .ok (a, s'.tokens) → good s' → Meets good' bad' (f a s') (g a s'.tokens))
    (hbad : ∀ s', bad s' → bad' s') : Meets good' bad' ((m >>= f) s) ((p >>= g) ts) := by
  rw [bind_run]
  generalize hm : m s = r at h
  generalize hp : p ts = q at h
  cases h with
  | ok hs =>
    rw [bind_of_ok hm]
    exact hf _ _ hp hs
  | failed hs =>
    rw [bind_of_error hm]
    exact .failed (hbad _ hs)

theorem InStep.bind (h : InStep scan limit d v j s (m s) (p s.tokens))
    (hf : ∀ a s', p s.tokens = .ok (a, s'.tokens) → At scan limit d v s' → s'.tokens.length + j ≤ s.tokens.length →
      InStep scan limit d w k s' (f a s') (g a s'.tokens)) :
    InStep scan limit d w (j + k) s ((m >>= f) s) ((p >>= g) s.tokens) := by
  refine Meets.bind h (fun a s' hp hs' => ?_) fun _ => id
  obtain ⟨hat, hentered, hlength⟩ := hs'
  have hrest := hf a s' hp hat hlength
  generalize f a s' = r at hrest ⊢
  generalize g a s'.tokens = q at hrest ⊢
  cases hrest with
  | ok hs => exact .ok ⟨hs.1, hs.2.1.trans hentered, by have := hs.2.2; omega⟩
  | failed hs => exact .failed ⟨hs.1, hs.2.1, hs.2.2.trans hentered⟩

theorem InStep.weaken {r : Except Halt α × State} {q : Except SyntaxError (α × List Token)}
    (h : InStep scan limit d v j s r q) (hk : k ≤ j) : InStep scan limit d v k s r q := by
  cases h with
  | ok hs => exact .ok ⟨hs.1, hs.2.1, by have := hs.2.2; omega⟩
  | failed hs => exact .failed hs

/-- Two parts in step one after the other; what the first takes is left out of account. -/
theorem InStep.next (h : InStep scan limit d v j s (m s) (p s.tokens))
    (hf : ∀ a s', p s.tokens = .ok (a, s'.tokens) → At scan limit d v s' →
      InStep scan limit d w k s' (f a s') (g a s'.tokens)) :
    InStep scan limit d w k s ((m >>= f) s) ((p >>= g) s.tokens) :=
  (h.bind fun a s' hp hs' _ => hf a s' hp hs').weaken (Nat.le_add_left k j)

/-! ### Rules -/

namespace Mirrors

theorem here (h : Mirrors scan limit d (s.tokens.length + 1) u v k m p) (hs : At scan limit d u s) :
    InStep scan limit d v k s (m s) (p s.tokens) := h s hs (Nat.lt_succ_self _)

theorem mono {n' : Nat} (h : Mirrors scan limit d n u v k m p) (hn : n' ≤ n) : Mirrors scan limit d n' u v k m p :=
  fun s hs hlength => h s hs (Nat.lt_of_lt_of_le hlength hn)

theorem pure (a : α) : Mirrors scan limit d n u u 0 (Pure.pure a) (Pure.pure a) :=
  fun _ hs _ => .ok ⟨hs, rfl, Nat.le_refl _⟩

theorem bind (h : Mirrors scan limit d n u v j m p) (hf : ∀ a, Mirrors scan limit d n v w k (f a) (g a)) :
    Mirrors scan limit d n u w k (m >>= f) (p >>= g) := by
  refine fun s hs hlength => InStep.weaken (InStep.bind (h s hs hlength) fun a s' _ hs' hle => ?_) (Nat.le_add_left k j)
  exact hf a s' hs' (by omega)

/-- What the first of two parts takes is taken. -/
theorem bindFirst (h : Mirrors scan limit d n u v j m p) (hf : ∀ a, Mirrors scan limit d n v w k (f a) (g a)) :
    Mirrors scan limit d n u w j (m >>= f) (p >>= g) := by
  refine fun s hs hlength =>
    InStep.weaken (InStep.bind (h s hs hlength) fun a s' _ hs' hle => ?_) (Nat.le_add_right j k)
  exact hf a s' hs' (by omega)

/-- After a token has been taken, fewer are left. -/
theorem bindShorter (h : Mirrors scan limit d (n + 1) u v 1 m p)
    (hf : ∀ a, Mirrors scan limit d n v w k (f a) (g a)) : Mirrors scan limit d (n + 1) u w k (m >>= f) (p >>= g) := by
  refine fun s hs hlength => InStep.weaken (InStep.bind (h s hs hlength) fun a s' _ hs' hle => ?_) (Nat.le_add_left k 1)
  exact hf a s' hs' (by omega)

theorem ite {c : Prop} [Decidable c] {m' : Descent α} {p' : Parser α} (h : Mirrors scan limit d n u v k m p)
    (h' : Mirrors scan limit d n u v k m' p') :
    Mirrors scan limit d n u v k (if c then m else m') (if c then p else p') := by
  split
  · exact h
  · exact h'

theorem opening {m : Descent α} (opener : Token) (h : Mirrors scan limit d n (opener :: u) v k m p) :
    Mirrors scan limit d n u v k (openBracket opener >>= fun _ => m) p := by
  intro s hs hlength
  have hopened : At scan limit d (opener :: u) { s with context := s.context.inside opener } :=
    ⟨by rw [hs.context]; rfl, hs.depth, hs.recorded.tokens, hs.recorded.entries, hs.recorded.turns⟩
  exact h _ hopened hlength

theorem closing {m : Descent α} {opener : Token} (h : Mirrors scan limit d n u v k m p) :
    Mirrors scan limit d n (opener :: u) v k (closeBracket >>= fun _ => m) p := by
  intro s hs hlength
  have hclosed : At scan limit d u { s with context := { s.context with unclosed := s.context.unclosed.tail } } :=
    ⟨by rw [hs.context]; rfl, hs.depth, hs.recorded.tokens, hs.recorded.entries, hs.recorded.turns⟩
  exact h _ hclosed hlength

end Mirrors

theorem cons_of_first (hscan : scan.WellEnded) (h : (within scan limit u).first us = .ok t)
    (hne : t.lexeme ≠ .finish) : ∃ vs, us = t :: vs := by
  obtain ⟨last, hlast⟩ : ∃ last, (within scan limit u).EndsWith last := endsWith_of_wellEnded hscan rfl
  exact Expr.cons_of_first hlast h hne

theorem first_of_lookahead {ctx : Context} {ts vs us : List Token}
    (h : ((ctx.first vs).map fun t => (t, ts)) = .ok (t, us)) : ctx.first vs = .ok t ∧ us = ts := by
  cases hfirst : ctx.first vs with
  | error e =>
    rw [hfirst] at h
    cases h
  | ok t' =>
    rw [hfirst] at h
    cases h
    exact ⟨rfl, rfl⟩

theorem first_of_peek {ctx : Context} {ts us : List Token} (h : Expr.peek ctx ts = .ok (t, us)) :
    ctx.first ts = .ok t ∧ us = ts := first_of_lookahead h

/-- A look at the tokens leaves all as it is. -/
theorem mirrors_look {p : Context → Parser α} (hp : ∀ ctx ts a us, p ctx ts = .ok (a, us) → us = ts) :
    Mirrors scan limit d n u u 0 (look p) (p (within scan limit u)) := by
  intro s hs _
  unfold look
  rw [hs.context]
  cases hq : p (within scan limit u) s.tokens with
  | error e => exact .failed ⟨hs.recorded.spared, hs.depth, rfl⟩
  | ok r =>
    obtain ⟨a, us⟩ := r
    obtain rfl := hp _ _ _ _ hq
    exact .ok ⟨hs, rfl, Nat.le_refl _⟩

theorem mirrors_peek : Mirrors scan limit d n u u 0 peek (Expr.peek (within scan limit u)) :=
  mirrors_look fun _ _ _ _ h => (first_of_peek h).2

theorem mirrors_peekSecond : Mirrors scan limit d n u u 0 peekSecond (Expr.peekSecond (within scan limit u)) :=
  mirrors_look fun _ _ _ _ h => (first_of_lookahead h).2

/-- A lookahead at a state, with what it finds there. -/
theorem meets_peek {ctx : Context} {f : Token → Descent α} {g : Token → Parser α} (hs : s.context = ctx)
    (hf : ∀ t, ctx.first s.tokens = .ok t → Meets good bad (f t s) (g t s.tokens)) (hbad : bad s) :
    Meets good bad ((peek >>= f) s) ((Expr.peek ctx >>= g) s.tokens) := by
  subst hs
  cases hfirst : s.context.first s.tokens with
  | error e =>
    have hpeek : Expr.peek s.context s.tokens = .error e := peek_of_first_error hfirst
    have hlook : peek s = (.error (.failed e), s) := look_of_error hpeek
    rw [bind_of_error hlook, bind_run, hpeek]
    exact .failed hbad
  | ok t =>
    have hpeek : Expr.peek s.context s.tokens = .ok (t, s.tokens) := peek_of_first hfirst
    have hlook : peek s = (.ok t, s) := look_of_ok hpeek
    rw [bind_of_ok hlook, bind_run_of_ok hpeek]
    exact hf t hfirst

theorem inStep_peek {f : Token → Descent α} {g : Token → Parser α} (hs : At scan limit d u s)
    (hf : ∀ t, (within scan limit u).first s.tokens = .ok t → InStep scan limit d v k s (f t s) (g t s.tokens)) :
    InStep scan limit d v k s ((peek >>= f) s) ((Expr.peek (within scan limit u) >>= g) s.tokens) :=
  meets_peek hs.context hf ⟨hs.recorded.spared, hs.depth, rfl⟩

theorem mirrors_fail {cause : GrammarCause} :
    Mirrors scan limit d n u v k (fail cause t : Descent α) (Expr.fail (within scan limit u) cause t) := by
  intro s hs _
  unfold fail look
  rw [hs.context]
  exact .failed ⟨hs.recorded.spared, hs.depth, rfl⟩

/-! ### Single tokens -/

theorem State.past_of_nil (h : s.tokens = []) : s.past = s := by
  obtain ⟨context, tokens, depth, entered, taken, entries, turns⟩ := s
  obtain rfl : tokens = [] := h
  simp [State.past]

theorem At.past (hs : At scan limit d u s) : At scan limit d u s.past := by
  have hrecorded := hs.recorded
  refine ⟨hs.context, hs.depth, ?_, ?_, hrecorded.turns⟩
  · rw [← hrecorded.tokens]
    cases htokens : s.tokens <;> simp [State.past, htokens]
  · have hle : s.taken.length ≤ s.past.taken.length := by simp [State.past]
    exact Nat.le_trans hrecorded.entries hle

/-- Taking the next token takes a token, unless none is left. -/
theorem inStep_advance (hs : At scan limit d u s) (hk : s.tokens.tail.length + k ≤ s.tokens.length) :
    InStep scan limit d u k s (advance s) (Expr.advance (within scan limit u) s.tokens) := by
  unfold Expr.advance
  rw [← hs.context]
  cases hfirst : s.context.first s.tokens with
  | error e =>
    rw [advance_of_error hfirst]
    exact .failed ⟨hs.recorded.spared, hs.depth, rfl⟩
  | ok t =>
    rw [advance_of_ok hfirst]
    exact Meets.ok (s := s.past) ⟨hs.past, rfl, hk⟩

theorem inStep_skip (hs : At scan limit d u s) (hk : s.tokens.tail.length + k ≤ s.tokens.length) :
    InStep scan limit d u k s ((discard advance : Descent Unit) s)
      ((discard (Expr.advance (within scan limit u)) : Parser Unit) s.tokens) :=
  InStep.bind (k := 0) (f := fun _ => Pure.pure ()) (g := fun _ => Pure.pure ()) (inStep_advance hs hk)
    fun _ _ _ hs' _ => Meets.ok ⟨hs', rfl, Nat.le_refl _⟩

theorem mirrors_skip : Mirrors scan limit d n u u 0 (discard advance : Descent Unit)
    (discard (Expr.advance (within scan limit u))) :=
  fun s hs _ => inStep_skip hs (by rw [List.length_tail]; omega)

theorem mirrors_expect {m : Mark} : Mirrors scan limit d n u u 0 (expect m) (Expr.expect (within scan limit u) m) :=
  mirrors_peek.bind fun _ => mirrors_skip.ite mirrors_fail

theorem mirrors_separator {closer : Mark} :
    Mirrors scan limit d n u u 0 (separator closer) (Expr.separator (within scan limit u) closer) :=
  mirrors_peek.bind fun _ => mirrors_skip.ite mirrors_fail

theorem mirrors_number : Mirrors scan limit d n u u 0 number (Expr.number (within scan limit u)) := by
  refine mirrors_peek.bind fun t => ?_
  obtain ⟨l, start, stop, offset⟩ := t
  cases l with
  | number i => exact mirrors_skip.bind fun _ => .pure i
  | _ => exact mirrors_fail

theorem mirrors_integer : Mirrors scan limit d n u u 0 integer (Expr.integer (within scan limit u)) := by
  refine mirrors_peek.bind fun t => .ite ?_ ?_
  · exact mirrors_skip.bind fun _ => mirrors_number.bind fun _ => .pure _
  · exact mirrors_number.bind fun _ => .pure _

theorem mirrors_bound : Mirrors scan limit d n u u 0 bound (Expr.bound (within scan limit u)) :=
  mirrors_peek.bind fun _ => .ite (mirrors_integer.bind fun _ => .pure _) (.pure none)

theorem mirrors_key : Mirrors scan limit d n u u 0 key (Expr.key (within scan limit u)) := by
  refine mirrors_peek.bind fun t => ?_
  obtain ⟨l, start, stop, offset⟩ := t
  cases l with
  | name k => exact mirrors_skip.bind fun _ => .pure k
  | quotedName k => exact mirrors_skip.bind fun _ => .pure k
  | _ => exact mirrors_fail

theorem mirrors_closeSelector {opener : Token} {mayGoOn : Bool} : Mirrors scan limit d n (opener :: u) u 0
    (closeSelector mayGoOn) (Expr.closeSelector (within scan limit (opener :: u)) mayGoOn) := by
  have hclose : Mirrors scan limit d n (opener :: u) u 0 closeBracket (Pure.pure ()) := .closing (.pure ())
  refine mirrors_peek.bind fun t => .ite ?_ mirrors_fail
  rw [← bind_pure (discard (Expr.advance _))]
  exact mirrors_skip.bind fun _ => hclose

/-! ### Loops -/

theorem At.turned {loop : Loop} {before : Nat} (hs : At scan limit d u s) (h : s.tokens.length < before) :
    At scan limit d u (s.turned loop before) := by
  refine ⟨hs.context, hs.depth, hs.recorded.tokens, hs.recorded.entries, fun turn hturn => ?_⟩
  rcases List.mem_append.1 hturn with hturn | hturn
  · exact hs.recorded.turns turn hturn
  · obtain rfl := List.mem_singleton.1 hturn
    exact h

/-- A turn that takes a token is recorded with fewer tokens left after it. -/
theorem InStep.turn {loop : Loop} {q : Except SyntaxError (α × List Token)}
    (h : InStep scan limit d v (k + 1) s (m s) q) : InStep scan limit d v (k + 1) s (Descent.turn loop m s) q := by
  unfold Descent.turn
  generalize m s = r at h ⊢
  cases h with
  | failed hs => exact .failed hs
  | @ok a s' hs =>
    obtain ⟨hat, hentered, hlength⟩ := hs
    have hless : s'.tokens.length < s.tokens.length := by omega
    exact Meets.ok (s := s'.turned loop s.tokens.length) ⟨hat.turned hless, hentered, hlength⟩

theorem Mirrors.turn {loop : Loop} (h : Mirrors scan limit d n u v (k + 1) m p) :
    Mirrors scan limit d n u v (k + 1) (Descent.turn loop m) p := fun s hs hlength => (h s hs hlength).turn

/-- A row ends with the bracket that closes it, and the bound is enough for as many items as there are tokens. -/
theorem mirrors_row {loop : Loop} {closer : Mark} {opener : Token} {item : Descent α} {item' : Parser α}
    (hitem : Mirrors scan limit d n (opener :: u) (opener :: u) 1 item item') : ∀ c ≤ n,
    Mirrors scan limit d c (opener :: u) u 0 (row loop closer item c)
      (Expr.row (within scan limit (opener :: u)) closer item' c) := by
  intro c
  induction c with
  | zero => exact fun _ s _ hlength => absurd hlength (Nat.not_lt_zero _)
  | succ c ih =>
    intro hc
    refine (Mirrors.turn (hitem.mono hc)).bindShorter fun x => mirrors_peek.bind fun t => .ite ?_ ?_
    · exact mirrors_skip.bind fun _ => .closing (.pure [x])
    · exact mirrors_separator.bind fun _ => (ih (Nat.le_of_succ_le hc)).bind fun _ => .pure _

theorem mirrors_items {loop : Loop} {closer : Mark} {opener : Token} {item : Descent α} {item' : Parser α}
    (hitem : Mirrors scan limit d n (opener :: u) (opener :: u) 1 item item') :
    Mirrors scan limit d n (opener :: u) u 0 (items loop closer item)
      (Expr.items (within scan limit (opener :: u)) closer item') :=
  fun s hs hlength => mirrors_row hitem (s.tokens.length + 1) hlength s hs (Nat.lt_succ_self _)

/-! ### Indices and slices -/

/-- What the parser takes in the first turn of a slice. -/
def stopOf (ctx : Context) : Parser (Option Int) := do
  discard (Expr.advance ctx)
  Expr.bound ctx

/-- What the parser takes in the second turn of a slice. -/
def stepOf (ctx : Context) : Parser (Token × Option Int) := do
  discard (Expr.advance ctx)
  let t ← Expr.peek ctx
  let step ← Expr.bound ctx
  return (t, step)

theorem sliceFrom_turns (ctx : Context) (base : Option Expr) (start : Option Int) : Expr.sliceFrom ctx base start = do
    let stop ← stopOf ctx
    let t ← Expr.peek ctx
    if t.lexeme = .mark .colon then
      let r ← stepOf ctx
      Expr.closeSelector ctx false
      if r.2 = some 0 then
        Expr.fail ctx .zeroStep r.1
      else
        return .slice base start stop r.2
    else
      Expr.closeSelector ctx true
      return .slice base start stop none := by
  simp only [Expr.sliceFrom, stopOf, stepOf, bind_assoc, pure_bind]

/-- Only failing at the end depends on the brackets that are open. -/
theorem fail_of_ne_finish {ctx ctx' : Context} {cause : GrammarCause} (h : t.lexeme ≠ .finish) :
    (Expr.fail ctx cause t : Parser α) = Expr.fail ctx' cause t := by
  unfold Expr.fail
  rw [if_neg h, if_neg h]

/-- A token with which a step begins is not the one at the end. -/
theorem ne_finish_of_stepOf {ctx : Context} {ts us : List Token} {i : Int}
    (h : stepOf ctx ts = .ok ((t, some i), us)) : t.lexeme ≠ .finish := by
  intro hfinish
  obtain ⟨_, vs, -, h⟩ := bind_eq_ok.1 h
  obtain ⟨t', ws, hpeek, h⟩ := bind_eq_ok.1 h
  obtain ⟨b, xs, hbound, h⟩ := bind_eq_ok.1 h
  cases h
  obtain ⟨t', ys, hpeek', h⟩ := bind_eq_ok.1 hbound
  obtain ⟨hfirst, rfl⟩ := first_of_peek hpeek
  obtain ⟨hfirst', rfl⟩ := first_of_peek hpeek'
  cases hfirst.symm.trans hfirst'
  rw [ite_run, hfinish] at h
  cases h

theorem inStep_stopFrom (hs : At scan limit d u s) (htokens : s.tokens = t :: us) :
    InStep scan limit d u 1 s (stopFrom s) (stopOf (within scan limit u) s.tokens) := by
  have hskip : InStep scan limit d u 1 s _ _ := inStep_skip hs (by simp [htokens])
  refine InStep.bind (k := 0) hskip fun _ s' _ hs' _ => ?_
  exact mirrors_bound.here hs'

theorem inStep_stepFrom (hs : At scan limit d u s) (htokens : s.tokens = t :: us) :
    InStep scan limit d u 1 s (stepFrom s) (stepOf (within scan limit u) s.tokens) := by
  have hskip : InStep scan limit d u 1 s _ _ := inStep_skip hs (by simp [htokens])
  refine InStep.bind (k := 0) hskip fun _ s' _ hs' _ => ?_
  exact (mirrors_peek.bind fun t => mirrors_bound.bind fun _ => .pure _).here hs'

/-- A slice goes on from a colon; a step of zero is refused after the closing bracket has been taken. -/
theorem inStep_sliceFrom (hscan : scan.WellEnded) {opener : Token} {base : Option Expr} {start : Option Int}
    (hs : At scan limit d (opener :: u) s) (ht : (within scan limit (opener :: u)).first s.tokens = .ok t)
    (hcolon : t.lexeme = .mark .colon) : InStep scan limit d u 0 s (sliceFrom base start s)
      (Expr.sliceFrom (within scan limit (opener :: u)) base start s.tokens) := by
  rw [sliceFrom_turns]
  obtain ⟨us, htokens⟩ := cons_of_first hscan ht (by simp [hcolon])
  refine (inStep_stopFrom hs htokens).turn.next fun stop s _ hs => inStep_peek hs fun t ht => ?_
  by_cases hcolon : t.lexeme = .mark .colon
  · rw [if_pos hcolon, if_pos hcolon]
    obtain ⟨us, htokens⟩ := cons_of_first hscan ht (by simp [hcolon])
    refine (inStep_stepFrom hs htokens).turn.next fun r s hr hs => ?_
    refine (mirrors_closeSelector.here hs).next fun _ s _ hs => ?_
    obtain ⟨t, step⟩ := r
    by_cases hzero : step = some 0
    · have hne := ne_finish_of_stepOf (hzero ▸ hr)
      rw [if_pos hzero, if_pos hzero, fail_of_ne_finish hne]
      exact mirrors_fail.here hs
    · rw [if_neg hzero, if_neg hzero]
      exact (Mirrors.pure _).here hs
  · rw [if_neg hcolon, if_neg hcolon]
    exact (mirrors_closeSelector.bind fun _ => .pure _).here hs

theorem mirrors_selector (hscan : scan.WellEnded) {opener : Token} {base : Option Expr} :
    Mirrors scan limit d n (opener :: u) u 0 (selector base)
      (Expr.selector (within scan limit (opener :: u)) base) := by
  refine fun s hs _ => inStep_peek hs fun t ht => ?_
  by_cases hcolon : t.lexeme = .mark .colon
  · rw [if_pos hcolon, if_pos hcolon]
    exact inStep_sliceFrom hscan hs ht hcolon
  · rw [if_neg hcolon, if_neg hcolon]
    refine (mirrors_integer.here hs).next fun i s _ hs => inStep_peek hs fun t ht => ?_
    by_cases hcolon : t.lexeme = .mark .colon
    · rw [if_pos hcolon, if_pos hcolon]
      exact inStep_sliceFrom hscan hs ht hcolon
    · rw [if_neg hcolon, if_neg hcolon]
      exact (mirrors_closeSelector.bind fun _ => .pure _).here hs

/-! ### Forms that hold subexpressions -/

theorem mirrors_quotedNameFrom {name : String} : Mirrors scan limit d n u u 0
    (look fun ctx => quotedNameFrom ctx name) (quotedNameFrom (within scan limit u) name) := by
  refine mirrors_look fun ctx ts e us h => ?_
  obtain ⟨t, vs, hpeek, hrest⟩ := bind_eq_ok.1 h
  obtain ⟨-, rfl⟩ := first_of_peek hpeek
  rw [ite_run] at hrest
  split at hrest
  next => cases hrest
  next =>
    cases hrest
    rfl

theorem mirrors_literalFrom {text : String} : Mirrors scan limit d n u u 0
    (look fun ctx => literalFrom ctx t text) (literalFrom (within scan limit u) t text) := by
  refine mirrors_look fun ctx ts e us h => ?_
  unfold literalFrom at h
  cases hread : Json.read .literal text.toList with
  | ok v =>
    rw [hread] at h
    cases h
    rfl
  | error fault =>
    rw [hread] at h
    cases h

theorem mirrors_selectorFrom (hscan : scan.WellEnded) {opener : Token} {left : Expr} :
    Mirrors scan limit d n (opener :: u) u 0 (selectorFrom left)
      (Expr.selectorFrom (within scan limit (opener :: u)) left) := by
  refine mirrors_peek.bind fun t => .ite (mirrors_selector hscan) (.ite ?_ mirrors_fail)
  exact mirrors_skip.bind fun _ => mirrors_expect.bind fun _ => .closing (.pure _)

/-- A part for subexpressions keeps step with a parser of them, whatever brackets are open, and takes a token. -/
def MirrorsSub (scan : Scan) (limit d : Int) (n : Nat) (sub : Nat → Descent Expr) (sub' : SubParser) : Prop :=
  ∀ u power, Mirrors scan limit d n u u 1 (sub power) (sub' (within scan limit u) power)

section

variable {sub : Nat → Descent Expr} {sub' : SubParser} (hsub : MirrorsSub scan limit d n sub sub') {opener : Token}

include hsub

theorem mirrors_multiselectListFrom : Mirrors scan limit d n (opener :: u) u 0 (multiselectListFrom sub)
    (Expr.multiselectListFrom sub' (within scan limit (opener :: u))) :=
  (mirrors_items (hsub _ 0)).bind fun _ => .pure _

theorem mirrors_pair : Mirrors scan limit d n u u 1 (pair sub) (Expr.pair sub' (within scan limit u)) :=
  mirrors_key.bind fun _ => mirrors_expect.bind fun _ => (hsub u 0).bindFirst fun _ => .pure _

theorem mirrors_multiselectHashFrom : Mirrors scan limit d n (opener :: u) u 0 (multiselectHashFrom sub)
    (Expr.multiselectHashFrom sub' (within scan limit (opener :: u))) :=
  (mirrors_items (mirrors_pair hsub)).bind fun _ => .pure _

theorem mirrors_argument : Mirrors scan limit d n u u 1 (argument sub) (Expr.argument sub' (within scan limit u)) := by
  refine mirrors_peek.bind fun t => .ite ?_ (hsub u 0)
  exact mirrors_skip.bind fun _ => (hsub u 0).bindFirst fun _ => .pure _

theorem mirrors_callFrom {function : String} : Mirrors scan limit d n (opener :: u) u 0 (callFrom sub function)
    (Expr.callFrom sub' (within scan limit (opener :: u)) function) := by
  refine mirrors_peek.bind fun t => .ite ?_ ?_
  · exact mirrors_skip.bind fun _ => .closing (.pure _)
  · exact (mirrors_items (mirrors_argument hsub)).bind fun _ => .pure _

theorem mirrors_nameFrom {name : String} :
    Mirrors scan limit d n u u 0 (nameFrom sub name) (Expr.nameFrom sub' (within scan limit u) name) := by
  refine mirrors_peek.bind fun t => .ite ?_ (.pure _)
  exact mirrors_skip.bind fun _ => .opening t (mirrors_callFrom hsub)

theorem mirrors_filterFrom {source : Option Expr} : Mirrors scan limit d n (opener :: u) u 0 (filterFrom sub source)
    (Expr.filterFrom sub' (within scan limit (opener :: u)) source) :=
  (hsub _ 0).bind fun _ => mirrors_expect.bind fun _ => .closing (.pure _)

theorem mirrors_bracketFrom (hscan : scan.WellEnded) : Mirrors scan limit d n (opener :: u) u 0 (bracketFrom sub)
    (Expr.bracketFrom sub' (within scan limit (opener :: u))) := by
  refine mirrors_peek.bind fun t => .ite (mirrors_selector hscan) (.ite ?_ (mirrors_multiselectListFrom hsub))
  refine mirrors_peekSecond.bind fun t' => .ite ?_ (mirrors_multiselectListFrom hsub)
  exact mirrors_skip.bind fun _ => mirrors_skip.bind fun _ => .closing (.pure _)

theorem mirrors_operandFrom (hscan : scan.WellEnded) : Mirrors scan limit d n u u 0 (operandFrom sub t)
    (Expr.operandFrom sub' (within scan limit u) t) := by
  unfold operandFrom Expr.operandFrom
  obtain ⟨l, start, stop, offset⟩ := t
  cases l with
  | literal text => exact mirrors_literalFrom
  | name k => exact mirrors_nameFrom hsub
  | quotedName k => exact mirrors_quotedNameFrom
  | rawString k => exact .pure _
  | number i => exact mirrors_fail
  | finish => exact mirrors_fail
  | mark m =>
    cases m with
    | current => exact .pure _
    | star => exact .pure _
    | not => exact (hsub u _).bind fun _ => .pure _
    | lparen =>
      exact .opening _ ((hsub _ 0).bind fun _ => mirrors_expect.bind fun _ => .closing (.pure _))
    | lbracket => exact .opening _ (mirrors_bracketFrom hsub hscan)
    | lbrace => exact .opening _ (mirrors_multiselectHashFrom hsub)
    | flatten => exact .pure _
    | filter => exact .opening _ (mirrors_filterFrom hsub)
    | _ => exact mirrors_fail

theorem mirrors_fieldFrom {left : Expr} : Mirrors scan limit d n u u 0 (fieldFrom sub left)
    (Expr.fieldFrom sub' (within scan limit u) left) := by
  refine mirrors_peek.bind fun t => ?_
  obtain ⟨l, start, stop, offset⟩ := t
  cases l with
  | name k =>
    exact mirrors_skip.bind fun _ => (mirrors_nameFrom hsub).bind fun _ => .pure _
  | quotedName k =>
    exact mirrors_skip.bind fun _ => mirrors_quotedNameFrom.bind fun _ => .pure _
  | mark m =>
    cases m with
    | star => exact mirrors_skip.bind fun _ => .pure _
    | lbracket =>
      exact mirrors_skip.bind fun _ =>
        .opening _ ((mirrors_multiselectListFrom hsub).bind fun _ => .pure _)
    | lbrace =>
      exact mirrors_skip.bind fun _ =>
        .opening _ ((mirrors_multiselectHashFrom hsub).bind fun _ => .pure _)
    | _ => exact mirrors_fail
  | _ => exact mirrors_fail

theorem mirrors_extendFrom (hscan : scan.WellEnded) {left : Expr} : Mirrors scan limit d n u u 0
    (extendFrom sub t left) (Expr.extendFrom sub' (within scan limit u) t left) := by
  unfold extendFrom Expr.extendFrom
  obtain ⟨l, start, stop, offset⟩ := t
  cases l with
  | mark m =>
    cases m with
    | dot => exact mirrors_fieldFrom hsub
    | pipe => exact (hsub u _).bind fun _ => .pure _
    | or => exact (hsub u _).bind fun _ => .pure _
    | and => exact (hsub u _).bind fun _ => .pure _
    | comparator op => exact (hsub u _).bind fun _ => .pure _
    | flatten => exact .pure _
    | filter => exact .opening _ (mirrors_filterFrom hsub)
    | lbracket => exact .opening _ (mirrors_selectorFrom hscan)
    | _ => exact mirrors_fail
  | _ => exact mirrors_fail

end

/-! ### Expressions -/

/-- In a frame that was entered at a certain depth the machine meets the parser. The entries of the frame are then what
    the depth is over that; without an error a number of the tokens has been taken, and certain brackets are open. -/
def InFrame (scan : Scan) (limit ground : Int) (unclosed : List Token) (least total : Nat) :
    Except Halt α × State → Except SyntaxError (α × List Token) → Prop :=
  Meets (fun s' => s'.context = within scan limit unclosed ∧ s'.depth - s'.entered = ground ∧ Recorded scan 0 s' ∧
      s'.tokens.length + least ≤ total)
    fun s' => Recorded scan 1 s' ∧ s'.depth - s'.entered = ground

theorem InFrame.weaken {ground : Int} {total total' : Nat} {r : Except Halt α × State}
    {q : Except SyntaxError (α × List Token)} (h : InFrame scan limit ground u j total r q)
    (hle : total + k ≤ total' + j) : InFrame scan limit ground u k total' r q := by
  cases h with
  | ok hs => exact .ok ⟨hs.1, hs.2.1, hs.2.2.1, by have := hs.2.2.2; omega⟩
  | failed hs => exact .failed hs

/-- When a frame is left the depth is what it was when it was entered. -/
theorem InFrame.frame {body : Descent α} {q : Except SyntaxError (α × List Token)} {ground : Int}
    (h : InFrame scan limit ground u k s.tokens.length (body s.fresh) q) (hground : ground = d) :
    InStep scan limit d u k s (Descent.frame body s) q := by
  subst hground
  unfold Descent.frame
  generalize body s.fresh = r at h
  cases h with
  | @ok a s' hs =>
    obtain ⟨hcontext, hground, hrecorded, hlength⟩ := hs
    exact Meets.ok (s := { s' with depth := s'.depth - s'.entered, entered := s.entered })
      ⟨⟨hcontext, hground, hrecorded.tokens, hrecorded.entries, hrecorded.turns⟩, rfl, hlength⟩
  | failed hs => exact .failed ⟨⟨hs.1.tokens, hs.1.entries, hs.1.turns⟩, hs.2, rfl⟩

/-- After a part that keeps the depth, the frame goes on. -/
theorem InStep.bindFrame {total : Nat} (h : InStep scan limit d v j s (m s) (p s.tokens))
    (hf : ∀ a s', At scan limit d v s' → s'.entered = s.entered → s'.tokens.length ≤ s.tokens.length →
      InFrame scan limit (d - s.entered) w k total (f a s') (g a s'.tokens)) :
    InFrame scan limit (d - s.entered) w k total ((m >>= f) s) ((p >>= g) s.tokens) := by
  refine Meets.bind h (fun a s' _ hs' => ?_) fun s' hs' => ⟨hs'.1, by rw [hs'.2.1, hs'.2.2]⟩
  exact hf a s' hs'.1 hs'.2.1 (by have := hs'.2.2; omega)

theorem Recorded.deeper {entry : Entry} (h : Recorded scan 0 s) : Recorded scan 1 (s.deeper entry) := by
  refine ⟨h.tokens, ?_, h.turns⟩
  have := h.entries
  simp only [State.deeper, List.length_append, List.length_singleton]
  omega

/-- An entry and the token after it are counted alike. -/
theorem At.deeper_past {entry : Entry} (hs : At scan limit d u s) (htokens : s.tokens = t :: us) :
    At scan limit (d + 1) u (s.deeper entry).past := by
  refine ⟨hs.context, by rw [← hs.depth]; rfl, ?_, ?_, hs.recorded.turns⟩
  · have := hs.recorded.tokens
    rw [htokens] at this
    simp [State.past, State.deeper, htokens, this]
  · have := hs.recorded.entries
    simp only [State.past, State.deeper, htokens, List.head?_cons, Option.toList_some, List.length_append,
      List.length_singleton]
    omega

theorem fail_error (ctx : Context) (cause : GrammarCause) (t : Token) :
    ∃ e, ∀ α ts, (Expr.fail ctx cause t : Parser α) ts = .error e := ⟨_, fun _ _ => rfl⟩

theorem failDeep_error (ctx : Context) (ts : List Token) : ∃ e, ∀ α, (failDeep ctx : Parser α) ts = .error e := by
  cases hfirst : ctx.first ts with
  | error e => exact ⟨e, fun α => by rw [failDeep, bind_run, peek_of_first_error hfirst]; rfl⟩
  | ok t => exact ⟨_, fun α => by rw [failDeep, bind_run_of_ok (peek_of_first hfirst)]; rfl⟩

theorem enter_of_le {entry : Entry} {e : SyntaxError} (hs : At scan limit d u s) (h : limit ≤ d)
    (he : (failDeep (within scan limit u) : Parser Unit) s.tokens = .error e) :
    enter entry s = (.error (.failed e), s.deeper entry) := by
  have hover : (s.deeper entry).context.limit < (s.deeper entry).depth := by
    show s.context.limit < s.depth + 1
    rw [hs.context, hs.depth]
    exact Int.lt_add_one_of_le h
  have hcheck : enter entry s = checkDepth (s.deeper entry) := rfl
  rw [hcheck, checkDepth, if_pos hover]
  exact look_of_error (hs.context ▸ he)

theorem enter_of_lt {entry : Entry} (hs : At scan limit d u s) (h : d < limit) :
    enter entry s = (.ok (), s.deeper entry) := by
  have hwithin : ¬ (s.deeper entry).context.limit < (s.deeper entry).depth := by
    show ¬ s.context.limit < s.depth + 1
    rw [hs.context, hs.depth]
    exact Int.not_lt.2 h
  have hcheck : enter entry s = checkDepth (s.deeper entry) := rfl
  rw [hcheck, checkDepth, if_neg hwithin]

theorem ground_deeper {entry : Entry} (hs : At scan limit d u s) :
    (s.deeper entry).depth - (s.deeper entry).entered = d - s.entered := by
  show s.depth + 1 - (s.entered + 1) = d - s.entered
  rw [hs.depth]
  omega

/-- An entry is too deep for the machine where the parser has no room. -/
theorem inFrame_tooDeep {entry : Entry} {total : Nat} {f : Unit → Descent Expr} (hs : At scan limit d u s)
    (h : limit ≤ d) : InFrame scan limit (d - s.entered) u k total ((enter entry >>= f) s)
      (failDeep (within scan limit u) s.tokens) := by
  obtain ⟨e, he⟩ := failDeep_error (within scan limit u) s.tokens
  rw [bind_of_error (enter_of_le hs h (he Unit)), he Expr]
  exact .failed ⟨hs.recorded.deeper, ground_deeper hs⟩

/-- An operand that is entered at the end fails, with nothing taken. -/
theorem inFrame_atEnd (hscan : scan.WellEnded) {entry : Entry} {total : Nat} {sub : Nat → Descent Expr}
    {sub' : SubParser} {f : Expr → Descent Expr} {g : Expr → Parser Expr} (hs : At scan limit d u s) (h : d < limit)
    (htokens : s.tokens = []) : InFrame scan limit (d - s.entered) u k total
      ((do
        enter entry
        let t ← advance
        let left ← operandFrom sub t
        f left : Descent Expr) s)
      ((do
        let t ← Expr.advance (within scan limit u)
        let left ← Expr.operandFrom sub' (within scan limit u) t
        g left : Parser Expr) []) := by
  rw [bind_of_ok (enter_of_lt hs h)]
  have hstate : (s.deeper entry).context.first (s.deeper entry).tokens = (within scan limit u).first [] := by
    rw [← hs.context, ← htokens]
    rfl
  cases hfirst : (within scan limit u).first [] with
  | error e =>
    have hadvance : Expr.advance (within scan limit u) [] = .error e := congrArg (Except.map _) hfirst
    rw [bind_of_error (advance_of_error (hstate.trans hfirst)), bind_run, hadvance]
    exact .failed ⟨hs.recorded.deeper, ground_deeper hs⟩
  | ok t =>
    have hfinish : t.lexeme = .finish := by
      by_contra hne
      obtain ⟨us, hus⟩ := cons_of_first hscan hfirst hne
      cases hus
    have hadvance : Expr.advance (within scan limit u) [] = .ok (t, []) := congrArg (Except.map _) hfirst
    have hpast : (s.deeper entry).past = s.deeper entry := State.past_of_nil htokens
    rw [bind_of_ok (advance_of_ok (hstate.trans hfirst)), bind_run_of_ok hadvance, hpast]
    have hfail : operandFrom sub t = fail (.notAnExpression .finish) t := by
      unfold operandFrom
      rw [hfinish]
    have hfail' : Expr.operandFrom sub' (within scan limit u) t =
        Expr.fail (within scan limit u) (.notAnExpression .finish) t := by
      unfold Expr.operandFrom
      rw [hfinish]
    obtain ⟨e, he⟩ := fail_error (within scan limit u) (.notAnExpression .finish) t
    have hlook : (fail (.notAnExpression .finish) t : Descent Expr) (s.deeper entry) =
        (.error (.failed e), s.deeper entry) := look_of_error (by rw [← hs.context] at he; exact he Expr _)
    rw [hfail, hfail', bind_of_error hlook, bind_run, he Expr]
    exact .failed ⟨hs.recorded.deeper, ground_deeper hs⟩

/-- After an entry and its token there is a part that keeps step, and then what extends it. -/
theorem inFrame_entry {entry : Entry} {room power : Nat} {part : Token → Descent Expr} {part' : Parser Expr}
    (hs : At scan limit d u s) (h : d < limit) (htokens : s.tokens = t :: us) (hlength : us.length < n)
    (hk : k ≤ 1) (hpart : Mirrors scan limit (d + 1) n u u 0 (part t) part')
    (hextend : ∀ left s', At scan limit (d + 1) u s' → s'.tokens.length < n →
      InFrame scan limit (d + 1 - s'.entered) u 0 s'.tokens.length (extend n power left s')
        (Expr.extend room (within scan limit u) power left s'.tokens)) :
    InFrame scan limit (d - s.entered) u k (t :: us).length
      ((do
        enter entry
        let t ← advance
        let left ← part t
        extend n power left : Descent Expr) s)
      ((part' >>= Expr.extend room (within scan limit u) power) us) := by
  have hfirst : (s.deeper entry).context.first (s.deeper entry).tokens = .ok t := by
    show s.context.first s.tokens = .ok t
    rw [htokens]
    rfl
  rw [bind_of_ok (enter_of_lt hs h), bind_of_ok (advance_of_ok hfirst)]
  have hs' : At scan limit (d + 1) u (s.deeper entry).past := hs.deeper_past htokens
  have hus : (s.deeper entry).past.tokens = us := by
    show s.tokens.tail = us
    rw [htokens]
    rfl
  have hground : d - s.entered = d + 1 - (s.deeper entry).past.entered := by
    show d - s.entered = d + 1 - (s.entered + 1)
    omega
  generalize (s.deeper entry).past = s' at hs' hus hground ⊢
  subst hus
  rw [hground]
  have hframe : InFrame scan limit (d + 1 - s'.entered) u 0 s'.tokens.length
      ((part t >>= extend n power) s') ((part' >>= Expr.extend room (within scan limit u) power) s'.tokens) := by
    refine (hpart s' hs' hlength).bindFrame fun left s'' hs'' hentered hle => ?_
    have hrest := hextend left s'' hs'' (Nat.lt_of_le_of_lt hle hlength)
    rw [hentered] at hrest
    exact hrest.weaken (Nat.add_le_add_right hle 0)
  exact hframe.weaken (Nat.add_le_add_left hk _)

/-- What the parser does with a token by which an expression is extended. -/
def extendedBy (room : Nat) (ctx : Context) (power : Nat) (left : Expr) (t : Token) : Parser Expr :=
  match room with
  | 0 => failDeep ctx
  | room + 1 => do
    discard (Expr.advance ctx)
    let left ← Expr.extendFrom (Expr.expression room) ctx t left
    Expr.extend room ctx power left

theorem extend_eq_extendedBy (room : Nat) (ctx : Context) (power : Nat) (left : Expr) :
    Expr.extend room ctx power left = Expr.peek ctx >>= fun t =>
      if power < t.lexeme.power then extendedBy room ctx power left t else pure left := by
  cases room with
  | zero => unfold Expr.extend; rfl
  | succ room => unfold Expr.extend; rfl

/-- Fewer tokens than the bound are left, and so a descent does not stall. The room of the parser is what the depth
    leaves of the limit. -/
theorem expression_mirrors (hscan : scan.WellEnded) (limit : Int) : ∀ n,
    (∀ d, MirrorsSub scan limit d n (expression n) (Expr.expression (limit - d).toNat)) ∧
    ∀ d u power left s, At scan limit d u s → s.tokens.length < n →
      InFrame scan limit (d - s.entered) u 0 s.tokens.length (extend n power left s)
        (Expr.extend (limit - d).toNat (within scan limit u) power left s.tokens) := by
  intro n
  induction n with
  | zero =>
    exact ⟨fun _ _ _ _ _ hlength => absurd hlength (Nat.not_lt_zero _),
      fun _ _ _ _ _ _ hlength => absurd hlength (Nat.not_lt_zero _)⟩
  | succ n ih =>
    obtain ⟨hexpression, hextend⟩ := ih
    constructor
    · intro d u power s hs hlength
      have hs₀ : At scan limit d u s.fresh :=
        ⟨hs.context, hs.depth, hs.recorded.tokens, hs.recorded.entries, hs.recorded.turns⟩
      rw [expression]
      refine InFrame.frame ?_ (Int.sub_zero d)
      cases hroom : (limit - d).toNat with
      | zero => exact inFrame_tooDeep hs₀ (by omega)
      | succ room =>
        obtain rfl : (limit - (d + 1)).toNat = room := by omega
        rw [expression_add_one]
        cases htokens : s.tokens with
        | nil => exact inFrame_atEnd hscan hs₀ (by omega) htokens
        | cons t us =>
          rw [htokens] at hlength
          exact inFrame_entry hs₀ (by omega) htokens (Nat.lt_of_succ_lt_succ hlength) (Nat.le_refl 1)
            (mirrors_operandFrom (hexpression (d + 1)) hscan) (hextend (d + 1) u power)
    · intro d u power left s hs hlength
      rw [extend, extend_eq_extendedBy]
      have hground : s.depth - s.entered = d - s.entered := by rw [hs.depth]
      refine meets_peek hs.context (fun t ht => ?_) ⟨hs.recorded.spared, hground⟩
      by_cases hpower : power < t.lexeme.power
      · rw [if_pos hpower, if_pos hpower]
        obtain ⟨us, htokens⟩ := cons_of_first hscan ht (ne_finish_of_lt_power hpower)
        cases hroom : (limit - d).toNat with
        | zero => exact inFrame_tooDeep hs (by omega)
        | succ room =>
          obtain rfl : (limit - (d + 1)).toNat = room := by omega
          rw [htokens] at hlength ⊢
          exact inFrame_entry hs (by omega) htokens (Nat.lt_of_succ_lt_succ hlength) (Nat.zero_le 1)
            (mirrors_extendFrom (hexpression (d + 1)) hscan) (hextend (d + 1) u power)
      · rw [if_neg hpower, if_neg hpower]
        exact .ok ⟨hs.context, hground, hs.recorded, Nat.le_refl _⟩

end JsonQuery.Expr.Descent
