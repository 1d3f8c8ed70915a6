import JsonQuery.Proofs.Expr.Parse
import JsonQuery.Proofs.Token.Brackets
import JsonQuery.Proofs.Token.Tiling

/-! Where the errors of the parser are. A parser stands before some tokens of a scan if its context knows how
    the scan ends and which brackets the tokens before leave open. From there it either stands before other
    tokens of the scan in the end, or it fails: at a fault of the text, at a token of the scan, or on account
    of the end, and then the whole scan has been matched and the innermost bracket left open is the place. -/

namespace JsonQuery

open Token (Leads)

/-- The error of an outcome, if it is one. -/
def failure? {ε α : Type} : Except ε α → Option ε
  | .ok _ => none
  | .error e => some e

theorem eq_error_of_failure? {ε α : Type} {r : Except ε α} {e : ε} (h : failure? r = some e) : r = .error e := by
  cases r <;> cases h
  rfl

/-- Only the token of the end, which is not among the others, has the lexeme of the end. -/
structure Scan.WellEnded (s : Scan) : Prop where
  ne_finish : ∀ t ∈ s.tokens, t.lexeme ≠ .finish
  finish : ∀ t, s.ending = .finish t → t.lexeme = .finish

/-- An error is at the fault of the text, at a token, or, because of the end, at the innermost of the brackets
    that the tokens leave open; at the end if they leave none open. -/
def SyntaxError.PlacedIn (s : Scan) : SyntaxError → Prop
  | .lexical f => s.ending = .fault f
  | .grammar _ p => ∃ t ∈ s.tokens, t.start = p
  | .incomplete _ opener p => ∃ last unclosed, s.ending = .finish last ∧ unclosed? s.tokens = some unclosed ∧
    opener = unclosed.head?.map Token.lexeme ∧ p = (unclosed.head?.getD last).start

namespace Expr

/-- A parser in a context stands before some tokens of a scan: the context knows how the scan ends, and the
    brackets that the tokens before leave open. -/
structure Stands (s : Scan) (ctx : Context) (ts : List Token) : Prop where
  ended : s.WellEnded
  ending : ctx.ending = s.ending
  taken : ∃ taken, s.tokens = taken ++ ts ∧ unclosed? taken = some ctx.unclosed

/-- A result of a parser of some scan: in the end it stands before some tokens in the given context, or its
    error is placed in the scan. -/
def Placed {α : Type} (s : Scan) (ctx : Context) : Except SyntaxError (α × List Token) → Prop
  | .ok (_, us) => Stands s ctx us
  | .error e => e.PlacedIn s

variable {α β : Type} {s : Scan} {ctx ctx' : Context} {opener t : Token} {ts us : List Token}

/-! ### From token to token -/

theorem endsWith_of_wellEnded (hs : s.WellEnded) (hending : ctx.ending = s.ending) : ∃ last, ctx.EndsWith last := by
  cases hlast : s.ending with
  | finish last =>
    refine ⟨last, fun t ht => ?_, hs.finish last hlast⟩
    rw [hending, hlast] at ht
    cases ht
    rfl
  | fault f =>
    refine ⟨⟨.finish, 0, 0, 0⟩, fun t ht => ?_, rfl⟩
    rw [hending, hlast] at ht
    cases ht

namespace Stands

theorem move (h : Stands s ctx (t :: us)) (hending : ctx'.ending = ctx.ending)
    (hmatched : Token.matched? ctx.unclosed t = some ctx'.unclosed) : Stands s ctx' us where
  ended := h.ended
  ending := hending.trans h.ending
  taken := by
    obtain ⟨taken, htokens, hunclosed⟩ := h.taken
    exact ⟨taken ++ [t], by simp [htokens], (unclosed?_concat hunclosed t).trans hmatched⟩

theorem plain {l : Lexeme} (h : Stands s ctx (t :: us)) (ht : t.lexeme = l) (hopens : l.closer? = none)
    (hcloses : l.closes = false) : Stands s ctx us :=
  h.move rfl (matched?_plain (ht ▸ hopens) (ht ▸ hcloses))

theorem enter {l : Lexeme} {closer : Mark} (h : Stands s ctx (t :: us)) (ht : t.lexeme = l)
    (hopens : l.closer? = some closer) : Stands s (ctx.inside t) us :=
  h.move rfl (matched?_opener (ht ▸ hopens))

theorem leave {closer : Mark} (h : Stands s (ctx.inside opener) (t :: us))
    (hopener : opener.lexeme.closer? = some closer) (ht : t.lexeme = .mark closer) : Stands s ctx us :=
  h.move rfl (matched?_closer hopener ht)

theorem mem (h : Stands s ctx (t :: us)) : t ∈ s.tokens := by
  obtain ⟨taken, htokens, -⟩ := h.taken
  simp [htokens]

/-- What is found next is a token of the scan, or the end. -/
theorem of_first (h : Stands s ctx ts) (ht : ctx.first ts = .ok t) :
    t.lexeme ≠ .finish ∧ (∃ us, ts = t :: us) ∨ t.lexeme = .finish ∧ ts = [] ∧ s.ending = .finish t := by
  cases ts with
  | cons u us =>
    cases ht
    exact .inl ⟨h.ended.ne_finish t h.mem, us, rfl⟩
  | nil =>
    have hlast : s.ending = .finish t := by
      rw [← h.ending]
      simp only [Context.first, Context.last] at ht
      split at ht <;> simp_all
    exact .inr ⟨h.ended.finish t hlast, rfl, hlast⟩

theorem endsWith (h : Stands s ctx ts) : ∃ last, ctx.EndsWith last :=
  endsWith_of_wellEnded h.ended h.ending

theorem cons_of_first {l : Lexeme} (h : Stands s ctx ts) (ht : ctx.first ts = .ok t) (hl : t.lexeme = l)
    (hne : l ≠ .finish) : ∃ us, ts = t :: us := by
  obtain ⟨last, hc⟩ := h.endsWith
  exact Expr.cons_of_first hc ht (by rwa [hl])

end Stands

/-! ### Runs of the primitive parsers -/

theorem Placed.bind_of_run {p : Parser α} {f : α → Parser β} (h : Placed s ctx (p ts))
    (hf : ∀ x us, p ts = .ok (x, us) → Stands s ctx us → Placed s ctx' (f x us)) :
    Placed s ctx' ((p >>= f) ts) := by
  rw [bind_run]
  cases hp : p ts with
  | error e =>
    rw [hp] at h
    exact h
  | ok r =>
    rw [hp] at h
    exact hf r.1 r.2 hp h

theorem Placed.bind {p : Parser α} {f : α → Parser β} (h : Placed s ctx (p ts))
    (hf : ∀ x us, Stands s ctx us → Placed s ctx' (f x us)) : Placed s ctx' ((p >>= f) ts) :=
  h.bind_of_run fun x us _ => hf x us

/-- What comes of a lookahead, if it finds a token or the end. -/
theorem placed_first {us vs : List Token} {f : Token → Parser α} (h : Stands s ctx ts)
    (hf : ∀ t, ctx.first us = .ok t → Placed s ctx' (f t vs)) :
    Placed s ctx' (((ctx.first us).map fun t => (t, vs)).bind fun r => f r.1 r.2) := by
  cases hfirst : ctx.first us with
  | ok t => exact hf t hfirst
  | error e =>
    show e.PlacedIn s
    cases us with
    | cons u us => cases hfirst
    | nil =>
      simp only [Context.first, Context.last] at hfirst
      split at hfirst
      next => cases hfirst
      next f hfault =>
        cases hfirst
        exact h.ending.symm.trans hfault

theorem placed_peek {f : Token → Parser α} (h : Stands s ctx ts)
    (hf : ∀ t, ctx.first ts = .ok t → Placed s ctx' (f t ts)) : Placed s ctx' ((peek ctx >>= f) ts) :=
  placed_first h hf

theorem placed_peekSecond {f : Token → Parser α} (h : Stands s ctx ts)
    (hf : ∀ t, ctx.first ts.tail = .ok t → Placed s ctx' (f t ts)) :
    Placed s ctx' ((peekSecond ctx >>= f) ts) := placed_first h hf

theorem placed_advance {f : Token → Parser α} (h : Stands s ctx ts)
    (hf : ∀ t, ctx.first ts = .ok t → Placed s ctx' (f t ts.tail)) : Placed s ctx' ((advance ctx >>= f) ts) :=
  placed_first h hf

theorem placed_fail_mem {cause : GrammarCause} (hs : s.WellEnded) (ht : t ∈ s.tokens) :
    Placed s ctx' ((fail ctx cause t : Parser α) ts) := by
  have hne := hs.ne_finish t ht
  show SyntaxError.PlacedIn s (if t.lexeme = .finish then _ else _)
  rw [if_neg hne]
  exact ⟨t, ht, rfl⟩

/-- Failing at what comes next is failing at a token, or on account of the end. -/
theorem placed_fail {cause : GrammarCause} (h : Stands s ctx ts) (ht : ctx.first ts = .ok t) :
    Placed s ctx' ((fail ctx cause t : Parser α) ts) := by
  rcases h.of_first ht with ⟨hne, us, rfl⟩ | ⟨hfin, rfl, hlast⟩
  · exact placed_fail_mem h.ended h.mem
  · show SyntaxError.PlacedIn s (if t.lexeme = .finish then _ else _)
    rw [if_pos hfin]
    obtain ⟨taken, htokens, hunclosed⟩ := h.taken
    rw [List.append_nil] at htokens
    rw [← htokens] at hunclosed
    split
    next hnil => exact ⟨t, [], hlast, hnil ▸ hunclosed, rfl, rfl⟩
    next opener outer hcons => exact ⟨t, opener :: outer, hlast, hcons ▸ hunclosed, rfl, rfl⟩

/-- A parser of one lexeme takes it or fails at what comes next. -/
theorem placed_take {l : Lexeme} (hl : l ≠ .finish) (cause : Token → GrammarCause) (h : Stands s ctx ts)
    (hmove : ∀ t us, t.lexeme = l → Stands s ctx (t :: us) → Stands s ctx' us) :
    Placed s ctx' ((do
      let t ← peek ctx
      if t.lexeme = l then discard (advance ctx) else fail ctx (cause t) t : Parser Unit) ts) := by
  refine placed_peek h fun t ht => ?_
  rw [ite_run]
  split
  next hlexeme =>
    obtain ⟨us, rfl⟩ := h.cons_of_first ht hlexeme hl
    exact hmove t us hlexeme h
  next => exact placed_fail h ht

theorem placed_skip {l : Lexeme} {f : PUnit → Parser α} (h : Stands s ctx ts) (ht : ctx.first ts = .ok t)
    (hlexeme : t.lexeme = l) (hl : l ≠ .finish)
    (hf : ∀ us, Stands s ctx (t :: us) → Placed s ctx' (f ⟨⟩ us)) :
    Placed s ctx' ((discard (advance ctx) >>= f) ts) := by
  obtain ⟨us, rfl⟩ := h.cons_of_first ht hlexeme hl
  exact hf us h

/-- A parser that goes by whether a certain lexeme comes next, and takes it if so. -/
theorem placed_branch {l : Lexeme} (hl : l ≠ .finish) {p q : Token → Parser α} (h : Stands s ctx ts)
    (hp : ∀ t us, t.lexeme = l → Stands s ctx (t :: us) → Placed s ctx' (p t us))
    (hq : ∀ t, ctx.first ts = .ok t → Placed s ctx' (q t ts)) :
    Placed s ctx' ((peek ctx >>= fun t =>
      if t.lexeme = l then discard (advance ctx) >>= fun _ => p t else q t) ts) := by
  refine placed_peek h fun t ht => ?_
  rw [ite_run]
  split
  next hlexeme => exact placed_skip h ht hlexeme hl fun us h => hp t us hlexeme h
  next => exact hq t ht

theorem placed_expect {m : Mark} (h : Stands s ctx ts) (hopens : m.closer? = none) (hcloses : m.closes = false) :
    Placed s ctx (expect ctx m ts) :=
  placed_take (by simp) _ h fun _ _ ht h => h.plain ht hopens hcloses

theorem placed_close {closer : Mark} (h : Stands s (ctx.inside opener) ts)
    (hopener : opener.lexeme.closer? = some closer) : Placed s ctx (expect (ctx.inside opener) closer ts) :=
  placed_take (by simp) _ h fun _ _ ht h => h.leave hopener ht

theorem placed_separator {closer : Mark} (h : Stands s ctx ts) : Placed s ctx (separator ctx closer ts) :=
  placed_take (by simp) _ h fun _ _ ht h => h.plain ht rfl rfl

/-! ### Indices and slices -/

theorem placed_closeSelector {mayGoOn : Bool} (h : Stands s (ctx.inside opener) ts)
    (hopener : opener.lexeme.closer? = some .rbracket) :
    Placed s ctx (closeSelector (ctx.inside opener) mayGoOn ts) :=
  placed_take (by simp) _ h fun _ _ ht h => h.leave hopener ht

theorem placed_number (h : Stands s ctx ts) : Placed s ctx (number ctx ts) := by
  refine placed_peek h fun t ht => ?_
  cases hl : t.lexeme with
  | number n => exact placed_skip h ht hl (by simp) fun us h => h.plain hl rfl rfl
  | _ => exact placed_fail h ht

theorem placed_integer (h : Stands s ctx ts) : Placed s ctx (integer ctx ts) := by
  refine placed_branch (by simp) h (fun t us hl h => ?_) fun _ _ => (placed_number h).bind fun n vs h => h
  exact (placed_number (h.plain hl rfl rfl)).bind fun n vs h => h

theorem placed_bound (h : Stands s ctx ts) : Placed s ctx (bound ctx ts) := by
  refine placed_peek h fun t ht => ?_
  rw [ite_run]
  split
  next => exact (placed_integer h).bind fun i vs h => h
  next => exact h

/-- A step of zero is refused at its first token, after the closing bracket has been taken. -/
theorem placed_sliceFrom {base : Option Expr} {start : Option Int} (h : Stands s (ctx.inside opener) ts)
    (hopener : opener.lexeme.closer? = some .rbracket) (ht : (ctx.inside opener).first ts = .ok t)
    (hl : t.lexeme = .mark .colon) : Placed s ctx (sliceFrom (ctx.inside opener) base start ts) := by
  refine placed_skip h ht hl (by simp) fun us h => ?_
  refine (placed_bound (h.plain hl rfl rfl)).bind fun stop vs h =>
    placed_branch (by simp) h (fun u ws hl h => ?_) fun _ _ => ?_
  · have h := h.plain hl rfl rfl
    refine placed_peek h fun v hv => ?_
    rcases h.of_first hv with ⟨-, xs, rfl⟩ | ⟨hfin, rfl, -⟩
    · have hmem := h.mem
      refine (placed_bound h).bind fun step ys h => (placed_closeSelector h hopener).bind fun _ zs h => ?_
      rw [ite_run]
      split
      next => exact placed_fail_mem h.ended hmem
      next => exact h
    · -- at the end there is no bound, and so no step that could be zero
      have hnone : bound (ctx.inside opener) [] = .ok (none, []) := by
        show (((ctx.inside opener).first []).map _).bind _ = _
        rw [hv]
        simp only [Except.map, Except.bind, hfin]
        rfl
      rw [bind_run_of_ok hnone]
      exact (placed_closeSelector h hopener).bind fun _ zs h => h
  · exact (placed_closeSelector h hopener).bind fun _ ws h => h

theorem placed_selector {base : Option Expr} (h : Stands s (ctx.inside opener) ts)
    (hopener : opener.lexeme.closer? = some .rbracket) :
    Placed s ctx (selector (ctx.inside opener) base ts) := by
  refine placed_peek h fun t ht => ?_
  rw [ite_run]
  split
  next hl => exact placed_sliceFrom h hopener ht hl
  next =>
    refine (placed_integer h).bind fun i us h => placed_peek h fun u hu => ?_
    rw [ite_run]
    split
    next hl => exact placed_sliceFrom h hopener hu hl
    next => exact (placed_closeSelector h hopener).bind fun _ vs h => h

/-! ### Rows -/

/-- A row ends with the bracket that closes it: the count is enough for as many items as there are tokens. -/
theorem placed_row {closer : Mark} {item : Parser α} {R : List Lexeme → α → Prop}
    (hopener : opener.lexeme.closer? = some closer)
    (hitem : ∀ {ts}, Stands s (ctx.inside opener) ts → Placed s (ctx.inside opener) (item ts))
    (hreads : ∀ {ts us x}, item ts = .ok (x, us) → ∃ ls, R ls x ∧ Leads ts ls us) :
    ∀ {n : Nat} {ts : List Token}, ts.length < n → Stands s (ctx.inside opener) ts →
      Placed s ctx (row (ctx.inside opener) closer item n ts) := by
  intro n
  induction n with
  | zero => exact fun hn => absurd hn (Nat.not_lt_zero _)
  | succ n ih =>
    intro ts hn h
    refine (hitem h).bind_of_run fun x us hx h =>
      placed_branch (by simp) h (fun t vs hl h => h.leave hopener hl) fun _ _ => ?_
    refine (placed_separator h).bind_of_run fun _ vs hcomma h => ?_
    obtain ⟨last, hc⟩ := h.endsWith
    obtain ⟨ls, -, hl⟩ := hreads hx
    have hlen₁ := hl.length_eq
    have hlen₂ := ((separator_eq_ok_iff hc).1 hcomma).length_eq
    simp only [List.length_cons, List.length_nil] at hlen₂
    exact (ih (by omega) h).bind fun xs ws h => h

/-- A parser of subexpressions whose errors are in their places. -/
structure Places (s : Scan) (sub : SubParser) : Prop where
  sound : ∀ last, Sound last sub
  placed : ∀ {ctx power ts}, Stands s ctx ts → Placed s ctx (sub ctx power ts)

variable {sub : SubParser}

theorem placed_multiselectListFrom (hs : Places s sub) (h : Stands s (ctx.inside opener) ts)
    (hopener : opener.lexeme.closer? = some .rbracket) :
    Placed s ctx (multiselectListFrom sub (ctx.inside opener) ts) := by
  obtain ⟨last, hc⟩ := h.endsWith
  have hrow := placed_row hopener (fun h => hs.placed h) ((hs.sound last).pipeline hc) (Nat.lt_succ_self _) h
  exact Placed.bind hrow fun es us h => h

theorem placed_key (h : Stands s ctx ts) : Placed s ctx (key ctx ts) := by
  refine placed_peek h fun t ht => ?_
  cases hl : t.lexeme with
  | name k => exact placed_skip h ht hl (by simp) fun us h => h.plain hl rfl rfl
  | quotedName k => exact placed_skip h ht hl (by simp) fun us h => h.plain hl rfl rfl
  | _ => exact placed_fail h ht

theorem placed_pair (hs : Places s sub) (h : Stands s ctx ts) : Placed s ctx (pair sub ctx ts) := by
  refine (placed_key h).bind fun k us h => (placed_expect h rfl rfl).bind fun _ vs h => ?_
  exact (hs.placed h).bind fun e ws h => h

theorem placed_multiselectHashFrom (hs : Places s sub) (h : Stands s (ctx.inside opener) ts)
    (hopener : opener.lexeme.closer? = some .rbrace) :
    Placed s ctx (multiselectHashFrom sub (ctx.inside opener) ts) := by
  obtain ⟨last, hc⟩ := h.endsWith
  have hrow := placed_row hopener (placed_pair hs) (pair_sound (hs.sound last) hc) (Nat.lt_succ_self _) h
  exact Placed.bind hrow fun ps us h => h

theorem placed_argument (hs : Places s sub) (h : Stands s ctx ts) : Placed s ctx (argument sub ctx ts) := by
  refine placed_branch (by simp) h (fun t us hl h => ?_) fun _ _ => hs.placed h
  exact (hs.placed (h.plain hl rfl rfl)).bind fun e vs h => h

theorem placed_callFrom {function : String} (hs : Places s sub) (h : Stands s (ctx.inside opener) ts)
    (hopener : opener.lexeme.closer? = some .rparen) :
    Placed s ctx (callFrom sub (ctx.inside opener) function ts) := by
  refine placed_branch (by simp) h (fun t us hl h => h.leave hopener hl) fun _ _ => ?_
  obtain ⟨last, hc⟩ := h.endsWith
  have hrow := placed_row hopener (placed_argument hs) (argument_sound (hs.sound last) hc) (Nat.lt_succ_self _) h
  exact Placed.bind hrow fun args us h => h

/-! ### Operands -/

theorem placed_nameFrom {name : String} (hs : Places s sub) (h : Stands s ctx ts) :
    Placed s ctx (nameFrom sub ctx name ts) := by
  refine placed_branch (by simp) h (fun t us hl h => ?_) fun _ _ => h
  exact placed_callFrom hs (h.enter hl rfl) (hl ▸ rfl)

theorem placed_quotedNameFrom {name : String} (h : Stands s ctx ts) :
    Placed s ctx (quotedNameFrom ctx name ts) := by
  refine placed_peek h fun t ht => ?_
  rw [ite_run]
  split
  next => exact placed_fail h ht
  next => exact h

theorem placed_filterFrom {source : Option Expr} (hs : Places s sub) (h : Stands s (ctx.inside opener) ts)
    (hopener : opener.lexeme.closer? = some .rbracket) :
    Placed s ctx (filterFrom sub (ctx.inside opener) source ts) :=
  (hs.placed h).bind fun _ _ h => (placed_close h hopener).bind fun _ _ h => h

theorem placed_bracketFrom (hs : Places s sub) (h : Stands s (ctx.inside opener) ts)
    (hopener : opener.lexeme.closer? = some .rbracket) :
    Placed s ctx (bracketFrom sub (ctx.inside opener) ts) := by
  refine placed_peek h fun t ht => ?_
  rw [ite_run, ite_run]
  split
  next => exact placed_selector h hopener
  next =>
    split
    next hstar =>
      obtain ⟨us, rfl⟩ := h.cons_of_first ht hstar (by simp)
      refine placed_peekSecond h fun u hu => ?_
      rw [ite_run]
      split
      next hclose =>
        rw [skip_bind_cons]
        exact placed_skip (h.plain hstar rfl rfl) hu hclose (by simp) fun vs h => h.leave hopener hclose
      next => exact placed_multiselectListFrom hs h hopener
    next => exact placed_multiselectListFrom hs h hopener

theorem placed_literalFrom {text : String} (ht : t ∈ s.tokens) (h : Stands s ctx ts) :
    Placed s ctx (literalFrom ctx t text ts) := by
  unfold literalFrom
  cases Json.read .literal text.toList with
  | ok v => exact h
  | error fault => exact placed_fail_mem h.ended ht

theorem placed_operandFrom (hs : Places s sub) (h : Stands s ctx (t :: ts)) :
    Placed s ctx (operandFrom sub ctx t ts) := by
  have fails {cause : GrammarCause} : Placed s ctx ((fail ctx cause t : Parser Expr) ts) :=
    placed_fail_mem h.ended h.mem
  unfold operandFrom
  cases ht : t.lexeme with
  | name name => exact placed_nameFrom hs (h.plain ht rfl rfl)
  | quotedName name => exact placed_quotedNameFrom (h.plain ht rfl rfl)
  | rawString text => exact h.plain ht rfl rfl
  | literal text => exact placed_literalFrom h.mem (h.plain ht rfl rfl)
  | number n => exact fails
  | finish => exact fails
  | mark m =>
    cases m with
    | current => exact h.plain ht rfl rfl
    | star => exact h.plain ht rfl rfl
    | flatten => exact h.plain ht rfl rfl
    | not => exact (hs.placed (h.plain ht rfl rfl)).bind fun e us h => h
    | lparen =>
      refine (hs.placed (h.enter ht rfl)).bind fun e us h => ?_
      exact (placed_close h (ht ▸ rfl)).bind fun _ vs h => h
    | lbracket => exact placed_bracketFrom hs (h.enter ht rfl) (ht ▸ rfl)
    | lbrace => exact placed_multiselectHashFrom hs (h.enter ht rfl) (ht ▸ rfl)
    | filter => exact placed_filterFrom hs (h.enter ht rfl) (ht ▸ rfl)
    | _ => exact fails

/-! ### Extensions -/

theorem placed_fieldFrom {left : Expr} (hs : Places s sub) (h : Stands s ctx ts) :
    Placed s ctx (fieldFrom sub ctx left ts) := by
  refine placed_peek h fun t ht => ?_
  cases hl : t.lexeme with
  | name name =>
    refine placed_skip h ht hl (by simp) fun us h => ?_
    exact (placed_nameFrom hs (h.plain hl rfl rfl)).bind fun e vs h => h
  | quotedName name =>
    refine placed_skip h ht hl (by simp) fun us h => ?_
    exact (placed_quotedNameFrom (h.plain hl rfl rfl)).bind fun e vs h => h
  | mark m =>
    cases m with
    | star => exact placed_skip h ht hl (by simp) fun us h => h.plain hl rfl rfl
    | lbracket =>
      refine placed_skip h ht hl (by simp) fun us h => ?_
      exact (placed_multiselectListFrom hs (h.enter hl rfl) (hl ▸ rfl)).bind fun e vs h => h
    | lbrace =>
      refine placed_skip h ht hl (by simp) fun us h => ?_
      exact (placed_multiselectHashFrom hs (h.enter hl rfl) (hl ▸ rfl)).bind fun e vs h => h
    | _ => exact placed_fail h ht
  | _ => exact placed_fail h ht

theorem placed_selectorFrom {left : Expr} (h : Stands s (ctx.inside opener) ts)
    (hopener : opener.lexeme.closer? = some .rbracket) :
    Placed s ctx (selectorFrom (ctx.inside opener) left ts) := by
  refine placed_peek h fun t ht => ?_
  rw [ite_run, ite_run]
  split
  next => exact placed_selector h hopener
  next =>
    split
    next hstar =>
      refine placed_skip h ht hstar (by simp) fun us h => ?_
      exact (placed_close (h.plain hstar rfl rfl) hopener).bind fun _ vs h => h
    next => exact placed_fail h ht

theorem placed_extendFrom {left : Expr} (hs : Places s sub) (h : Stands s ctx (t :: ts)) :
    Placed s ctx (extendFrom sub ctx t left ts) := by
  have fails {cause : GrammarCause} : Placed s ctx ((fail ctx cause t : Parser Expr) ts) :=
    placed_fail_mem h.ended h.mem
  unfold extendFrom
  cases ht : t.lexeme with
  | mark m =>
    cases m with
    | dot => exact placed_fieldFrom hs (h.plain ht rfl rfl)
    | pipe => exact (hs.placed (h.plain ht rfl rfl)).bind fun e us h => h
    | or => exact (hs.placed (h.plain ht rfl rfl)).bind fun e us h => h
    | and => exact (hs.placed (h.plain ht rfl rfl)).bind fun e us h => h
    | comparator op => exact (hs.placed (h.plain ht rfl rfl)).bind fun e us h => h
    | flatten => exact h.plain ht rfl rfl
    | filter => exact placed_filterFrom hs (h.enter ht rfl) (ht ▸ rfl)
    | lbracket => exact placed_selectorFrom (h.enter ht rfl) (ht ▸ rfl)
    | _ => exact fails
  | _ => exact fails

/-! ### Expressions -/

theorem placed_failDeep (h : Stands s ctx ts) : Placed s ctx' ((failDeep ctx : Parser α) ts) :=
  placed_peek h fun _ ht => placed_fail h ht

theorem placed_extend : ∀ {room : Nat}, (∀ r < room, Places s (expression r)) →
    ∀ {ctx : Context} {power : Nat} {ts : List Token} {left : Expr}, Stands s ctx ts →
    Placed s ctx (extend room ctx power left ts) := by
  intro room
  induction room with
  | zero =>
    intro _ ctx power ts left h
    rw [extend_zero]
    refine placed_peek h fun t ht => ?_
    rw [ite_run]
    split
    next => exact placed_failDeep h
    next => exact h
  | succ room ih =>
    intro hsub ctx power ts left h
    rw [extend_add_one]
    refine placed_peek h fun t ht => ?_
    rw [ite_run]
    split
    next hp =>
      refine placed_skip h ht rfl (ne_finish_of_lt_power hp) fun us h => ?_
      refine (placed_extendFrom (hsub room room.lt_succ_self) h).bind fun left vs h => ?_
      exact ih (fun r hr => hsub r (Nat.lt_succ_of_lt hr)) h
    next => exact h

theorem expression_places (s : Scan) : ∀ room, Places s (expression room)
  | 0 => ⟨fun last => expression_sound last 0, fun h => by
    rw [expression_zero]
    exact placed_failDeep h⟩
  | room + 1 => ⟨fun last => expression_sound last (room + 1), fun {ctx power ts} h => by
    have hsub : ∀ r < room + 1, Places s (expression r) := fun r hr => expression_places s r
    rw [expression_add_one]
    refine placed_advance h fun t ht => ?_
    have hoperand : Placed s ctx (operandFrom (expression room) ctx t ts.tail) := by
      rcases h.of_first ht with ⟨-, us, rfl⟩ | ⟨hfin, rfl, -⟩
      · exact placed_operandFrom (hsub room room.lt_succ_self) h
      · unfold operandFrom
        rw [hfin]
        exact placed_fail h ht
    exact hoperand.bind fun left vs h => placed_extend (fun r hr => hsub r (Nat.lt_succ_of_lt hr)) h⟩
termination_by room => room

/-! ### Texts -/

theorem placed_whole {room : Nat} (h : Stands s ctx ts) : Placed s ctx (whole room ctx ts) := by
  refine ((expression_places s room).placed h).bind fun e us h => placed_peek h fun t ht => ?_
  rw [ite_run]
  split
  next => exact h
  next => exact placed_fail h ht

theorem stands_start (text : String) (limit : Int) :
    Stands (Scan.ofText text.toList) ⟨limit, (Scan.ofText text.toList).ending, []⟩
      (Scan.ofText text.toList).tokens where
  ended := ⟨fun _ => Cursor.lexeme_of_mem_tokens, fun _ => Cursor.lexeme_of_ending⟩
  ending := rfl
  taken := ⟨[], rfl, rfl⟩

theorem placedIn_of_run' (ctx : Context) {p : Parser α} {e : SyntaxError} (hp : Placed s ctx (p ts))
    (h : p.run' ts = .error e) : e.PlacedIn s := by
  rw [run'_eq_error_iff.1 h] at hp
  exact hp

theorem placedIn_of_parse {text : String} {limit : Int} {e : SyntaxError} (h : parse text limit = .error e) :
    e.PlacedIn (Scan.ofText text.toList) := by
  have hstart := stands_start text limit
  rw [parse_eq] at h
  split at h
  next =>
    refine placedIn_of_run' ⟨limit, (Scan.ofText text.toList).ending, []⟩ ?_ h
    exact placed_peek hstart fun t ht => placed_fail hstart ht
  next => exact placedIn_of_run' _ (placed_whole hstart) h

/-- Where an error of a text is. A lexical error is the fault of the text; an error of the grammar is at a token
    other than the end. An expression that ended too early has no fault; its brackets match as far as it goes,
    and the innermost one left open is the place and is named, if there is one; otherwise the place is the
    end. -/
def InPlace (text : String) (e : SyntaxError) : Prop :=
  match e with
  | .lexical f => (Scan.ofText text.toList).ending = .fault f
  | .grammar _ _ => ∃ t ∈ (Scan.ofText text.toList).tokens, t.lexeme ≠ .finish ∧ e.position = t.start
  | .incomplete cause _ _ => ∃ ls unclosed, (Scan.ofText text.toList).lexemes? = some ls ∧
    unclosed? (Scan.ofText text.toList).tokens = some unclosed ∧
      match unclosed with
      | opener :: _ => e.position = opener.start ∧
        e.reason = "Unclosed '" ++ opener.lexeme.text ++ "': " ++ cause.reason
      | [] => e.position = text.length ∧ e.reason = cause.reason

/-- With stack enough every error of the parser is in its place. -/
theorem inPlace_of_parse {text : String} {limit : Int} {e : SyntaxError} (h : parse text limit = .error e) :
    InPlace text e := by
  have hplace := placedIn_of_parse h
  cases e with
  | lexical f => exact hplace
  | grammar cause p =>
    obtain ⟨t, ht, rfl⟩ := hplace
    exact ⟨t, ht, Cursor.lexeme_of_mem_tokens ht, rfl⟩
  | incomplete cause opener p =>
    obtain ⟨last, unclosed, hlast, hunclosed, rfl, rfl⟩ := hplace
    refine ⟨_, unclosed, by rw [Scan.lexemes?, hlast], hunclosed, ?_⟩
    cases unclosed with
    | cons opener outer => exact ⟨rfl, rfl⟩
    | nil =>
      obtain ⟨-, rfl⟩ := Scan.tiling_of_finish hlast
      exact ⟨rfl, rfl⟩

/-! ### Faults of a text -/

/-- A token comes before the fault of its text: the tokens tile the text up to there. -/
theorem stop_le_of_fault {text : String} {f : LexicalFault} (hf : (Scan.ofText text.toList).ending = .fault f)
    (ht : t ∈ (Scan.ofText text.toList).tokens) : t.start < t.stop ∧ t.stop ≤ f.position := by
  obtain ⟨stop, hcovers⟩ := Scan.covers_of_on (Cursor.on_start text.toList)
  obtain ⟨rfl, -, -⟩ := hcovers.fault f hf
  exact ⟨hcovers.tiling.nonempty t ht, (hcovers.tiling.within t ht).2⟩

/-- A text with a fault is refused, and the end is not to blame. -/
theorem parse_of_fault {text : String} {f : LexicalFault} (hf : (Scan.ofText text.toList).ending = .fault f)
    (limit : Int) : parse text limit = .error (.lexical f) ∨
      ∃ cause, ∃ t ∈ (Scan.ofText text.toList).tokens, parse text limit = .error (.grammar cause t.start) := by
  cases hparse : parse text limit with
  | ok e =>
    obtain ⟨last, hlast⟩ := (parse_sound hparse).2
    cases hf.symm.trans hlast
  | error e =>
    have hplace := placedIn_of_parse hparse
    cases e with
    | lexical g => exact .inl (by rw [Ending.fault.inj (hf.symm.trans hplace)])
    | grammar cause p =>
      obtain ⟨t, ht, rfl⟩ := hplace
      exact .inr ⟨cause, t, ht, rfl⟩
    | incomplete cause opener p =>
      obtain ⟨last, -, hlast, -⟩ := hplace
      cases hf.symm.trans hlast

/-- The bracket at 2 is refused before the character at 4 is looked at. -/
example : failure? (parse "a ] #" 128) = some (.grammar (.trailing (.mark .rbracket)) 2) := by decide +kernel

/-- A blank that the lexer does not skip is a fault, though a text of such blanks alone counts as empty. -/
example : failure? (parse "\u00a0" 128) = some (.lexical ⟨.unknownCharacter '\u00a0', 0⟩) := by decide +kernel

end Expr
end JsonQuery
