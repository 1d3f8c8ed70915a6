import JsonQuery.Proofs.Expr.Guided

/-! What is offered in an expression. A token that is taken as the first of an operand, as an operator or after a point
    is either refused, or what goes on after it guides whatever goes on after the same lexeme. -/

namespace JsonQuery.Expr

open Token (nextLexeme Leads)

variable {α β : Type} {ctx : Context} {last t : Token} {ts us : List Token} {e : SyntaxError} {w : Expectation}
  {now : Expectation → Prop}

/-- What goes on after a token refuses it, and of what would have been accepted instead `now` is so; or it guides what
    goes on after tokens of the same lexeme. -/
inductive Onward (now : Expectation → Prop) (ctx : Context) (t : Token) (p : Parser α)
    (p' : FaultFree → Token → Parser α) : Prop
  | refuses (cause : GrammarCause) (expects : ∀ w ∈ cause.expectations, now w) (run : p = fail ctx cause t)
  | guides (ne_finish : t.lexeme ≠ .finish) (guides : ∀ us, Guides (fun _ => True) p
      (fun i : {i : FaultFree × Token // i.2.lexeme = t.lexeme} => p' i.1.1 i.1.2) us)

namespace Onward

/-- What goes on after a lexeme does so in one way, but for the token. -/
theorem of_guides {κ : Type} {l : Lexeme} {start stop offset : Nat} {p : Parser α} {p' : FaultFree → Token → Parser α}
    {q' : κ → Parser α} {now' : Expectation → Prop} (hl : l ≠ .finish) (h : ∀ us, Guides now' p q' us)
    (hp' : ∀ c start stop offset, ∃ k, p' c ⟨l, start, stop, offset⟩ = q' k) :
    Onward now ctx ⟨l, start, stop, offset⟩ p p' := by
  refine .guides hl fun us => ((h us).mono fun _ _ => trivial).among ?_
  rintro ⟨⟨c, l', start, stop, offset⟩, ht⟩
  cases ht
  exact hp' c start stop offset

theorem bind {p : Parser α} {p' : FaultFree → Token → Parser α} {f : α → Parser β} {f' : FaultFree → α → Parser β}
    (h : Onward now ctx t p p') (hf : ∀ x us, Guides (fun _ => False) (f x) (fun c => f' c x) us) :
    Onward now ctx t (p >>= f) (fun c t => p' c t >>= f' c) := by
  cases h with
  | refuses cause expects run =>
    refine .refuses cause expects ?_
    rw [run]
    rfl
  | guides hne h =>
    exact .guides hne fun us => (h us).bind (fun x us => (hf x us).among fun i => ⟨i.1.1, rfl⟩)
      (fun _ => False.elim) (fun _ => id) fun _ _ _ _ => trivial

end Onward

section
variable {p : Parser α} {p' : FaultFree → Parser α} {q : Token → Parser α} {q' : FaultFree → Token → Parser α}
  (hc : ctx.EndsWith last) (hends : ∀ c, Settled (p' c []))
include hc hends

/-- A parser that goes on after the token it finds. -/
theorem Onward.guides_cons (h : Onward now ctx t (q t) q') (hrun : p (t :: us) = q t us)
    (hrun' : ∀ {c t' us'}, t'.lexeme = t.lexeme → p' c (t' :: us') = q' c t' us')
    (hmet : ∀ {w c tail}, now w → w.MetBy (tail.map Token.lexeme) → Settled (p' c tail)) :
    Guides now p p' (t :: us) := by
  refine .of_firstStep ?_ hmet hends
  cases h with
  | refuses cause expects run =>
    have hrefuses : ∃ e, p (t :: us) = .error e ∧ ∀ w ∈ e.expectations, e.AtFirst (t :: us) ∧ w ∈ cause.expectations :=
      refuses_of_run (.inl hrun) cause hc (congrFun run us)
    obtain ⟨e, he, hoffers⟩ := hrefuses
    exact .fails he fun w hw => ⟨(hoffers w hw).1, expects w (hoffers w hw).2⟩
  | guides hne h =>
    refine .takes ⟨rfl, Leads.nil_iff.2 rfl⟩ hrun (h us) fun {c ts' us'} hl' => ?_
    obtain ⟨t', vs, rfl, ht', hv⟩ := Leads.cons_iff.1 hl'
    cases Leads.nil_iff.1 hv
    exact ⟨⟨(c, t'), ht'⟩, hrun' ht'⟩

/-- Parsers that take a token and go on after it. -/
theorem Guides.onward (h : ∀ t, Onward now ctx t (q t) q') (hrun : p = advance ctx >>= q)
    (hrun' : ∀ c, p' c = advance c.ctx >>= q' c)
    (hmet : ∀ {w c t}, now w → w.MetBy [t.lexeme] → Settled (q' c t [])) : Guides now p p' ts := by
  have hmet {w : Expectation} {c : FaultFree} {tail : List Token} (hw : now w)
      (hm : w.MetBy (tail.map Token.lexeme)) : Settled (p' c tail) := by
    cases tail with
    | nil => exact hends c
    | cons t us =>
      cases tail_eq_nil_of_metBy hm
      rw [hrun', advance_bind_cons]
      exact hmet hw hm
  cases ts with
  | nil =>
    cases h last with
    | refuses cause expects run =>
      have hrefuses : ∃ e, (advance ctx >>= q) [] = .error e ∧
          ∀ w ∈ e.expectations, e.AtFirst [] ∧ w ∈ cause.expectations :=
        refuses_of_run (advance_bind_or hc q []) cause hc (congrFun run [])
      obtain ⟨e, he, hoffers⟩ := hrefuses
      refine .of_firstStep (.fails (hrun ▸ he) fun w hw => ?_) hmet hends
      exact ⟨(hoffers w hw).1, expects w (hoffers w hw).2⟩
    | guides hne => exact absurd hc.lexeme hne
  | cons t us =>
    refine (h t).guides_cons hc hends (hrun ▸ advance_bind_cons q t us) (fun {c t' us'} _ => ?_) hmet
    rw [hrun', advance_bind_cons]

end

theorem Guides.settled {ι : Type} {p : Parser α} {p' : ι → Parser α} (h : ∀ ts, Guides now p p' ts) (i : ι) :
    Settled (p' i []) := (h []).ends i

/-! ### What comes after a point -/

/-- What goes on after the token that comes after a point. -/
def fieldOf (sub : SubParser) (ctx : Context) (left : Expr) (t : Token) : Parser Expr :=
  match t.lexeme with
  | .mark .star => return .objectWildcard (some left)
  | .name s => return .subexpression left (← nameFrom sub ctx s)
  | .quotedName s => return .subexpression left (← quotedNameFrom ctx s)
  | .mark .lbracket => return .subexpression left (← multiselectListFrom sub (ctx.inside t))
  | .mark .lbrace => return .subexpression left (← multiselectHashFrom sub (ctx.inside t))
  | found => fail ctx (.notAField found) t

section
variable {sub : SubParser} {left : Expr}

theorem fieldFrom_eq : fieldFrom sub ctx left = advance ctx >>= fieldOf sub ctx left := by
  funext ts
  unfold fieldFrom
  rw [bind_run, bind_run, peek, advance]
  cases hfirst : ctx.first ts with
  | error e => rfl
  | ok t =>
    have hskip {α : Type} (f : PUnit → Parser α) : (discard (advance ctx) >>= f) ts = f ⟨⟩ ts.tail := by
      refine bind_run_of_ok ?_
      show (advance ctx >>= fun _ => (pure ⟨⟩ : Parser PUnit)) ts = _
      rw [bind_run, advance, hfirst]
      rfl
    obtain ⟨l, start, stop, offset⟩ := t
    cases l with
    | mark m => cases m <;> first | exact hskip _ | rfl
    | _ => first | exact hskip _ | rfl

variable (hs : Guiding sub) (hc : ctx.EndsWith last)
include hs hc

theorem onward_fieldOf : Onward (· ∈ [.identifier, .mark .star, .mark .lbracket, .mark .lbrace]) ctx t
    (fieldOf sub ctx left t) (fun c => fieldOf sub c.ctx left) := by
  obtain ⟨l, start, stop, offset⟩ := t
  cases l with
  | name s => exact .of_guides (by simp) (fun _ => (guides_nameFrom hs hc).map _) fun c _ _ _ => ⟨c, rfl⟩
  | quotedName s => exact .of_guides (by simp) (fun _ => (guides_quotedNameFrom hc).map _) fun c _ _ _ => ⟨c, rfl⟩
  | mark m =>
    cases m with
    | star => exact .of_guides (by simp) (fun _ => .pure _) fun c _ _ _ => ⟨c, rfl⟩
    | lbracket =>
      exact .of_guides (by simp) (fun _ => (guides_multiselectListFrom hs (hc.inside _)).map _)
        fun c _ _ _ => ⟨c.inside _, rfl⟩
    | lbrace =>
      exact .of_guides (by simp) (fun _ => (guides_multiselectHashFrom hs (hc.inside _)).map _)
        fun c _ _ _ => ⟨c.inside _, rfl⟩
    | _ => exact .refuses (.notAField _) (fun _ => id) rfl
  | _ => exact .refuses (.notAField _) (fun _ => id) rfl

theorem guides_fieldFrom : Guides (· ∈ [.identifier, .mark .star, .mark .lbracket, .mark .lbrace])
    (fieldFrom sub ctx left) (fun c : FaultFree => fieldFrom sub c.ctx left) ts := by
  refine .onward hc (fun c => ?_) (fun t => onward_fieldOf hs hc) fieldFrom_eq (fun c => fieldFrom_eq)
    fun {w c t} hw hmet => ?_
  · unfold fieldFrom
    rw [peek_bind c.finishes, front, c.finishes.lexeme]
    exact settled_fail c.finishes.lexeme
  · have hc := c.finishes.endsWith
    simp only [List.mem_cons, List.not_mem_nil, or_false] at hw
    unfold fieldOf
    rcases hw with rfl | rfl | rfl | rfl
    · obtain ⟨_, k, hl, hkey⟩ := hmet
      rw [(List.cons.inj hl).1]
      cases hkey with
      | name => exact Guides.settled (fun _ => (guides_nameFrom hs hc).map _) c
      | quotedName => exact Guides.settled (fun _ => (guides_quotedNameFrom hc).map _) c
    · rw [(List.cons.inj hmet).1]
      rfl
    · rw [(List.cons.inj hmet).1]
      exact Guides.settled (fun _ => (guides_multiselectListFrom hs (hc.inside t)).map _) (c.inside t)
    · rw [(List.cons.inj hmet).1]
      exact Guides.settled (fun _ => (guides_multiselectHashFrom hs (hc.inside t)).map _) (c.inside t)
/-! ### Operands and extensions -/

theorem onward_operandFrom : Onward (· = .expression) ctx t (operandFrom sub ctx t)
    (fun c => operandFrom sub c.ctx) := by
  obtain ⟨l, start, stop, offset⟩ := t
  cases l with
  | name s => exact .of_guides (by simp) (fun _ => guides_nameFrom hs hc) fun c _ _ _ => ⟨c, rfl⟩
  | quotedName s => exact .of_guides (by simp) (fun _ => guides_quotedNameFrom hc) fun c _ _ _ => ⟨c, rfl⟩
  | rawString s => exact .of_guides (by simp) (fun _ => .pure _) fun c _ _ _ => ⟨c, rfl⟩
  | literal text =>
    cases hread : Json.read .literal text.toList with
    | ok v =>
      have hvalue (ctx : Context) (t : Token) : literalFrom ctx t text = pure (.literal v) := by
        unfold literalFrom
        rw [hread]
      rw [show operandFrom sub ctx ⟨.literal text, start, stop, offset⟩ = pure (.literal v) from hvalue ctx _]
      exact .of_guides (by simp) (fun _ => .pure _) fun c _ _ _ => ⟨c, hvalue _ _⟩
    | error fault =>
      refine .refuses (.badLiteral text fault) nofun ?_
      show literalFrom _ _ text = _
      unfold literalFrom
      rw [hread]
  | number n => exact .refuses .strayNumber nofun rfl
  | finish => exact .refuses (.notAnExpression .finish) (fun _ => List.mem_singleton.1) rfl
  | mark m =>
    cases m with
    | current | star | flatten => exact .of_guides (by simp) (fun _ => .pure _) fun c _ _ _ => ⟨c, rfl⟩
    | not => exact .of_guides (by simp) (fun _ => (hs.guides hc).map _) fun c _ _ _ => ⟨c, rfl⟩
    | lparen =>
      refine .of_guides (by simp) (fun _ => (hs.guides (hc.inside _)).bind_advances (hs.advances (hc.inside _))
        (fun e _ => (guides_take (hc.inside _) fun _ => rfl).map fun _ => e) ?_) fun c _ _ _ => ⟨c.inside _, rfl⟩
      rintro w rfl
      exact metQuietly_mark ⟨rfl, rfl⟩
    | lbracket =>
      exact .of_guides (by simp) (fun _ => guides_bracketFrom hs (hc.inside _)) fun c _ _ _ => ⟨c.inside _, rfl⟩
    | lbrace =>
      exact .of_guides (by simp) (fun _ => guides_multiselectHashFrom hs (hc.inside _))
        fun c _ _ _ => ⟨c.inside _, rfl⟩
    | filter =>
      exact .of_guides (by simp) (fun _ => guides_filterFrom hs (hc.inside _)) fun c _ _ _ => ⟨c.inside _, rfl⟩
    | reference => exact .refuses .strayReference nofun rfl
    | _ => exact .refuses (.notAnExpression _) (fun _ => List.mem_singleton.1) rfl

theorem onward_extendFrom : Onward (fun _ => False) ctx t (extendFrom sub ctx t left)
    (fun c t => extendFrom sub c.ctx t left) := by
  obtain ⟨l, start, stop, offset⟩ := t
  cases l with
  | mark m =>
    cases m with
    | dot => exact .of_guides (by simp) (fun _ => guides_fieldFrom hs hc) fun c _ _ _ => ⟨c, rfl⟩
    | pipe | or | and | comparator op =>
      exact .of_guides (by simp) (fun _ => (hs.guides hc).map _) fun c _ _ _ => ⟨c, rfl⟩
    | flatten => exact .of_guides (by simp) (fun _ => .pure _) fun c _ _ _ => ⟨c, rfl⟩
    | filter =>
      exact .of_guides (by simp) (fun _ => guides_filterFrom hs (hc.inside _)) fun c _ _ _ => ⟨c.inside _, rfl⟩
    | lbracket =>
      exact .of_guides (by simp) (fun _ => guides_selectorFrom (hc.inside _)) fun c _ _ _ => ⟨c.inside _, rfl⟩
    | lparen => exact .refuses .callWithoutName nofun rfl
    | _ => exact .refuses (.notAnOperator _) nofun rfl
  | _ => exact .refuses (.notAnOperator _) nofun rfl

end

/-! ### Expressions -/

theorem guides_failDeep (hc : ctx.EndsWith last) : Guides (fun _ => False) (failDeep ctx : Parser α)
    (fun c : FaultFree => failDeep c.ctx) ts := by
  have hends (c : FaultFree) : Settled ((failDeep c.ctx : Parser α) []) := by
    unfold failDeep
    rw [peek_bind c.finishes]
    exact settled_fail c.finishes.lexeme
  have hrefuses := refuses_of_run (peek_bind_or hc (fail (α := α) ctx (.tooDeep ctx.limit)) ts) _ hc rfl
  obtain ⟨e, he, hoffers⟩ := hrefuses
  exact .of_firstStep (.fails he fun w hw => by cases (hoffers w hw).2) (fun h => h.elim) hends

section
variable {room power : Nat} {left : Expr}

theorem extend_of_not_lt (hc : ctx.EndsWith last) (hp : ¬ power < (nextLexeme ts).power) :
    extend room ctx power left ts = .ok (left, ts) ∨
      ∃ e, extend room ctx power left ts = .error e ∧ e.expectations = [] := by
  cases room with
  | zero =>
    rw [extend_zero]
    refine Or.elim (peek_bind_or hc _ ts) (fun hrun => .inl ?_) .inr
    rw [hrun, ite_run, lexeme_front hc, if_neg hp]
    rfl
  | succ room =>
    rw [extend_add_one]
    refine Or.elim (peek_bind_or hc _ ts) (fun hrun => .inl ?_) .inr
    rw [hrun, ite_run, lexeme_front hc, if_neg hp]
    rfl

theorem extend_zero_cons (hp : power < t.lexeme.power) :
    extend 0 ctx power left (t :: ts) = (failDeep ctx : Parser Expr) (t :: ts) := by
  rw [extend_zero, peek_bind_cons, ite_run, if_pos hp]

theorem extend_succ_cons (hp : power < t.lexeme.power) : extend (room + 1) ctx power left (t :: ts) =
    (extendFrom (expression room) ctx t left >>= extend room ctx power) ts := by
  rw [extend_add_one, peek_bind_cons, ite_run, if_pos hp, skip_bind_cons]

theorem settled_extend (c : FaultFree) : Settled (extend room c.ctx power left []) := by
  rw [extend_stop c.finishes (Nat.zero_le _)]
  rfl

/-- What stops before some lexeme does so before a quiet one. -/
theorem guides_extend_of_not_lt (hc : ctx.EndsWith last) (hp : ¬ power < (nextLexeme ts).power) :
    Guides (fun _ => False) (extend room ctx power left) (fun c : FaultFree => extend room c.ctx power left) ts := by
  refine ⟨fun hx => ?_, fun he hw => ?_, fun c => ?_⟩
  · cases ok_of_run (extend_of_not_lt hc hp) hx
    refine ⟨[], Leads.nil_iff.2 rfl, fun {c} _ _ hl hcalm => ?_⟩
    cases Leads.nil_iff.1 hl
    refine extend_stop c.finishes ?_ left
    rcases hcalm with hsame | hquiet
    · rw [hsame]
      omega
    · rw [hquiet.1]
      omega
  · cases error_of_run (extend_of_not_lt hc hp) he hw
  · exact settled_extend c

theorem guides_extend : ∀ {room : Nat}, (∀ r < room, Guiding (expression r)) →
    ∀ {ctx : Context} {last : Token} {power : Nat} {ts : List Token} {left : Expr}, ctx.EndsWith last →
    Guides (fun _ => False) (extend room ctx power left) (fun c : FaultFree => extend room c.ctx power left) ts := by
  intro room
  induction room with
  | zero =>
    intro _ ctx last power ts left hc
    by_cases hp : power < (nextLexeme ts).power
    · obtain ⟨t, us, rfl, -⟩ := cons_of_nextLexeme rfl (ne_finish_of_lt_power hp)
      refine (guides_failDeep hc).enter (.inl (extend_zero_cons hp)) (fun _ _ h => absurd h (failDeep_ne_ok hc))
        (fun {c _} hsame => ?_) (fun h => h.elim) settled_extend
      obtain ⟨t', us', rfl, ht'⟩ := cons_of_nextLexeme hsame (ne_finish_of_lt_power hp)
      exact extend_zero_cons (ht' ▸ hp)
    · exact guides_extend_of_not_lt hc hp
  | succ room ih =>
    intro hsub ctx last power ts left hc
    by_cases hp : power < (nextLexeme ts).power
    · obtain ⟨t, us, rfl, -⟩ := cons_of_nextLexeme rfl (ne_finish_of_lt_power hp)
      have hgoes : Onward (fun _ => False) ctx t (extendFrom (expression room) ctx t left >>= extend room ctx power)
          (fun c t => extendFrom (expression room) c.ctx t left >>= extend room c.ctx power) :=
        (onward_extendFrom (hsub room room.lt_succ_self) hc).bind fun left us =>
          ih (fun r hr => hsub r (Nat.lt_succ_of_lt hr)) hc
      exact hgoes.guides_cons (q := fun t => _) hc settled_extend (extend_succ_cons hp)
        (fun ht' => extend_succ_cons (ht' ▸ hp)) fun h => h.elim
    · exact guides_extend_of_not_lt hc hp

theorem settled_expression (c : FaultFree) : Settled (expression room c.ctx power []) := by
  cases room with
  | zero =>
    rw [expression_zero, failDeep, peek_bind c.finishes]
    exact settled_fail c.finishes.lexeme
  | succ room =>
    rw [expression_add_one, bind_run, advance, first_eq c.finishes]
    refine Settled.bind ?_ fun e => settled_extend c
    unfold operandFrom
    rw [front, c.finishes.lexeme]
    exact settled_fail c.finishes.lexeme

/-- Expressions are read within less room inside, and go on within less. -/
theorem expression_guiding : ∀ room, Guiding (expression room)
  | 0 => by
    refine ⟨fun last => expression_sound last 0, fun hc => ?_⟩
    rw [expression_zero]
    exact (guides_failDeep hc).mono fun _ => False.elim
  | room + 1 => by
    have hsub : ∀ r < room + 1, Guiding (expression r) := fun r hr => expression_guiding r
    have hs := hsub room room.lt_succ_self
    refine ⟨fun last => expression_sound last (room + 1), fun {ctx last power ts} hc => ?_⟩
    have hafter (t : Token) : Onward (· = .expression) ctx t
        (operandFrom (expression room) ctx t >>= extend room ctx power)
        (fun c t => operandFrom (expression room) c.ctx t >>= extend room c.ctx power) :=
      (onward_operandFrom hs hc).bind fun left us => guides_extend (fun r hr => hsub r (Nat.lt_succ_of_lt hr)) hc
    refine .onward hc settled_expression hafter (expression_add_one room ctx power)
      (fun c => expression_add_one room c.ctx power) fun {w c t} hw hmet => ?_
    refine Settled.bind ?_ fun e => settled_extend c
    subst hw
    obtain ⟨_, k, hl, hkey⟩ := hmet
    unfold operandFrom
    rw [(List.cons.inj hl).1]
    cases hkey with
    | name => exact Guides.settled (fun _ => guides_nameFrom hs c.finishes.endsWith) c
    | quotedName => exact Guides.settled (fun _ => guides_quotedNameFrom c.finishes.endsWith) c
termination_by room => room

/-- What a whole expression offers, after the tokens before it, settles the rest. -/
theorem whole_offers (hc : ctx.EndsWith last) (h : whole room ctx ts = .error e) (hw : w ∈ e.expectations) :
    ∃ ls us, Leads ts ls us ∧ e.AtFirst us ∧ ∀ {c : FaultFree} {ts' tail}, Leads ts' ls tail →
      w.MetBy (tail.map Token.lexeme) → Met e w (whole room c.ctx ts') := by
  have hguides : Guides (· = .expression) (expression room ctx 0) (fun c : FaultFree => expression room c.ctx 0) ts :=
    (expression_guiding room).guides hc
  obtain h | ⟨x, us, hx, h⟩ := bind_eq_error.1 h
  · obtain ⟨ls, us, hl, hat, -, hmet⟩ := hguides.offered h hw
    refine ⟨ls, us, hl, hat, fun {c} _ _ hl' hw' => (hmet hl' hw').bind fun x => ?_⟩
    rw [peek_bind c.finishes, ite_run, front, if_pos c.finishes.lexeme]
    rfl
  · obtain ⟨ls, hl, hgo⟩ := hguides.taken hx
    have h := of_peek_bind_error hc hw h
    rw [ite_run] at h
    split at h
    next => cases h
    next =>
      rw [SyntaxError.expectations_of_cause (cause_of_fail h)] at hw
      obtain rfl := List.mem_singleton.1 hw
      refine ⟨ls, us, hl, atFirst_of_fail hc h, fun {c ts' tail} hl' hw' => .inl ?_⟩
      obtain rfl := List.map_eq_nil_iff.1 hw'
      rw [whole_eq, bind_run_of_ok (hgo hl' (.inr ⟨rfl, rfl⟩)), peek_bind c.finishes, ite_run, front,
        if_pos c.finishes.lexeme]
      rfl

end

end JsonQuery.Expr
