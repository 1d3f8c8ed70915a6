import JsonQuery.Proofs.Expr.Guide
import JsonQuery.Proofs.Expr.Parse

/-! Each parser guides itself. What a run on some tokens has offered, any other run of the same parser takes in the same
    place, in whatever context that has no fault. -/

namespace JsonQuery.Expr

open Token (nextLexeme Leads)

variable {α : Type} {ctx : Context} {last t : Token} {ts us : List Token} {e : SyntaxError} {w : Expectation}

/-! ### Indices and slices -/

section
variable (hc : ctx.EndsWith last)
include hc

theorem number_fails (h : number ctx ts = .error e) (hw : w ∈ e.expectations) : e.AtFirst ts ∧ w = .number := by
  have h := of_peek_bind_error hc hw h
  rw [lexeme_front hc] at h
  cases hn : nextLexeme ts with
  | number n =>
    obtain ⟨t, us, rfl, -⟩ := cons_of_nextLexeme hn (by simp)
    rw [hn] at h
    cases h
  | _ =>
    rw [hn] at h
    rw [SyntaxError.expectations_of_cause (cause_of_fail h)] at hw
    exact ⟨atFirst_of_fail hc h, List.mem_singleton.1 hw⟩

theorem guides_number : Guides (· = .number) (number ctx) (fun c : FaultFree => number c.ctx) ts := by
  refine .one (R := fun l n => l = .number n) (fun h => ?_) (fun h hw => number_fails hc h hw)
    (fun {c} _ _ _ _ hl h => ?_) (fun hw hls => ?_) fun c => ?_
  · exact ⟨_, rfl, (number_eq_ok_iff hc).1 h⟩
  · exact (number_eq_ok_iff c.finishes.endsWith).2 (hl ▸ h)
  · subst hw
    obtain ⟨n, hls⟩ := hls
    exact ⟨_, n, hls, rfl⟩
  · unfold number
    rw [peek_bind c.finishes, front, c.finishes.lexeme]
    exact settled_fail c.finishes.lexeme

theorem integer_advances : Advances (integer ctx) ts := advances_of_leads fun h => by
  obtain ⟨ls, hi, hl⟩ := (integer_eq_ok_iff hc).1 h
  exact ⟨ls, by cases hi <;> simp, hl⟩

theorem guides_integer : Guides (· = .number) (integer ctx) (fun c : FaultFree => integer c.ctx) ts := by
  unfold integer
  refine .branch (· = .number) hc (by simp) (fun t us => ?_) ((guides_number hc).map _)
    fun hquiet => by cases hquiet.2
  exact ((guides_number hc).map _).among fun i => ⟨i.1, rfl⟩

end

theorem leads_of_metBy_number (h : Expectation.number.MetBy (ts.map Token.lexeme)) :
    ∃ n, Leads ts [.number n] [] := by
  obtain ⟨n, hn⟩ := h
  exact ⟨n, hn ▸ Leads.self ts⟩

theorem bound_of_starts (h : startsInteger (nextLexeme ts) = true) :
    bound ctx ts = (do return some (← integer ctx) : Parser (Option Int)) ts := by
  cases ts with
  | nil => cases h
  | cons t us =>
    unfold bound
    rw [peek_bind_cons, ite_run]
    exact if_pos h

theorem bound_of_not_starts (hf : ctx.Finishes last) (h : ¬ startsInteger (nextLexeme ts) = true) :
    bound ctx ts = .ok (none, ts) := by
  unfold bound
  rw [peek_bind hf, ite_run, lexeme_front hf.endsWith, if_neg h]
  rfl

/-- A bound is an integer wherever one starts; so an absent one is found before every quiet lexeme. -/
theorem guides_bound (hc : ctx.EndsWith last) :
    Guides (· = .number) (bound ctx) (fun c : FaultFree => bound c.ctx) ts := by
  have hends (c : FaultFree) : Settled (bound c.ctx []) := by
    rw [bound_of_not_starts c.finishes (by decide)]
    rfl
  by_cases hn : startsInteger (nextLexeme ts) = true
  · refine ((guides_integer hc).map some).enter (.inl (bound_of_starts hn)) ((integer_advances hc).map some)
      (fun hsame => bound_of_starts (hsame ▸ hn)) (fun {w c tail} hw hmet => ?_) hends
    obtain ⟨n, hl⟩ := leads_of_metBy_number (hw ▸ hmet)
    exact bound_of_starts (by rw [hl.nextLexeme_eq]; rfl)
  · refine ⟨fun {x us} h => ?_, fun {e w} h hw => ?_, hends⟩
    · have h := of_peek_bind hc h
      rw [ite_run, lexeme_front hc, if_neg hn] at h
      cases h
      refine ⟨[], Leads.nil_iff.2 rfl, fun {c ts' us'} hl hcalm => ?_⟩
      cases Leads.nil_iff.1 hl
      refine bound_of_not_starts c.finishes ?_
      rcases hcalm with hsame | hquiet
      · rwa [hsame]
      · simp [hquiet.2]
    · have h := of_peek_bind_error hc hw h
      rw [ite_run, lexeme_front hc, if_neg hn] at h
      cases h

/-- The bracket after the step of a slice. -/
def closeStep (ctx : Context) (base : Option Expr) (start stop step : Option Int) (t : Token) : Parser Expr := do
  closeSelector ctx false
  if step = some 0 then
    fail ctx .zeroStep t
  else
    return .slice base start stop step

/-- What a slice goes on with after its second colon. -/
def stepFrom (ctx : Context) (base : Option Expr) (start stop : Option Int) : Parser Expr := do
  let t ← peek ctx
  let step ← bound ctx
  closeStep ctx base start stop step t

/-- What a slice goes on with after its first colon. -/
def stopFrom (ctx : Context) (base : Option Expr) (start : Option Int) : Parser Expr := do
  let stop ← bound ctx
  fork ctx .colon .rbracket (.unclosedSelector true) (stepFrom ctx base start stop)
    fun _ => return .slice base start stop none

/-- What an index, or a slice, goes on with after its first integer. -/
def integerFrom (ctx : Context) (base : Option Expr) (i : Int) : Parser Expr :=
  fork ctx .colon .rbracket (.unclosedSelector true) (stopFrom ctx base (some i)) fun _ => return .index base i

theorem selector_eq (base : Option Expr) : selector ctx base = (do
    let t ← peek ctx
    if t.lexeme = .mark .colon then
      discard (advance ctx)
      stopFrom ctx base none
    else
      integerFrom ctx base (← integer ctx)) := rfl

section
variable (hc : ctx.EndsWith last) (base : Option Expr) (start stop step : Option Int)
include hc

/-- The bracket after a step is expected; where the step is 0, that is refused when the bracket has come. -/
theorem guides_closeStep (t : Token) : Guides (· = .mark .rbracket) (closeStep ctx base start stop step t)
    (fun i : FaultFree × Token => closeStep i.1.ctx base start stop step i.2) ts where
  taken h := by
    obtain ⟨_, vs, hclose, h⟩ := bind_eq_ok.1 h
    rw [ite_run] at h
    split at h
    next => exact absurd h not_fail_eq_ok
    next hne =>
      cases h
      refine ⟨_, (closeSelector_eq_ok_iff hc).1 hclose, fun {i} _ _ hl _ => ?_⟩
      unfold closeStep
      rw [bind_run_of_ok ((closeSelector_eq_ok_iff i.1.finishes.endsWith).2 hl), if_neg hne]
      rfl
  offered {e w} h hw := by
    obtain h | ⟨_, us, -, h⟩ := bind_eq_error.1 h
    · obtain ⟨hat, hcause⟩ := take_fails hc h hw
      rw [SyntaxError.expectations_of_cause hcause] at hw
      obtain rfl := List.mem_singleton.1 hw
      refine ⟨[], ts, Leads.nil_iff.2 rfl, hat, fun _ => rfl, fun {i ts' tail} hl hmet => ?_⟩
      cases Leads.nil_iff.1 hl
      unfold closeStep
      rw [bind_run_of_ok ((closeSelector_eq_ok_iff i.1.finishes.endsWith).2 (leads_of_metBy_mark hmet)), ite_run]
      split
      next =>
        by_cases hfin : i.2.lexeme = .finish
        · exact .inl (settled_fail hfin)
        · refine .inr ⟨⟨⟨_, hcause⟩, rfl⟩, i.2.start, ?_⟩
          show Except.error (if i.2.lexeme = .finish then _ else _) = _
          rw [if_neg hfin]
      next => exact .inl rfl
    · rw [ite_run] at h
      split at h
      next =>
        rw [SyntaxError.expectations_of_cause (cause_of_fail h)] at hw
        cases hw
      next => cases h
  ends i := settled_take_bind i.1 .rbracket _ _

theorem guides_stepFrom : Guides (fun _ => True) (stepFrom ctx base start stop)
    (fun c : FaultFree => stepFrom c.ctx base start stop) ts := by
  refine .ahead hc fun t => ((guides_bound hc).among fun i => ⟨i.1, rfl⟩).bind
    (fun step us => guides_closeStep hc base start stop step t) ?_ (fun _ _ => trivial) fun _ _ _ _ => trivial
  rintro w rfl
  exact metQuietly_mark ⟨rfl, rfl⟩

omit hc in
theorem mem_unclosedSelector {found : Lexeme} (hw : w ∈ (GrammarCause.unclosedSelector true found).expectations) :
    w = .mark .colon ∨ w = .mark .rbracket := by
  simpa [GrammarCause.expectations] using hw

omit hc in
theorem metQuietly_unclosedSelector (hw : w = .mark .colon ∨ w = .mark .rbracket) : MetQuietly w := by
  rcases hw with rfl | rfl <;> exact metQuietly_mark ⟨rfl, rfl⟩

theorem guides_stopFrom : Guides (fun _ => True) (stopFrom ctx base start)
    (fun c : FaultFree => stopFrom c.ctx base start) ts := by
  refine (guides_bound hc).bind (fun stop us => guides_fork hc (by decide) (fun _ _ => mem_unclosedSelector)
    (fun _ => guides_stepFrom hc base start stop) (fun _ _ => (Guides.pure _).mono fun _ => False.elim) fun _ => rfl)
    (fun _ => metQuietly_unclosedSelector) (fun _ _ => trivial) fun _ _ _ _ => trivial

theorem guides_integerFrom (i : Int) : Guides (fun w => w = .mark .colon ∨ w = .mark .rbracket)
    (integerFrom ctx base i) (fun c : FaultFree => integerFrom c.ctx base i) ts :=
  guides_fork hc (by decide) (fun _ _ => mem_unclosedSelector) (fun _ => guides_stopFrom hc base (some i))
    (fun _ _ => (Guides.pure _).mono fun _ => False.elim) fun _ => rfl

theorem guides_selector : Guides (· = .number) (selector ctx base) (fun c : FaultFree => selector c.ctx base) ts := by
  simp only [selector_eq]
  exact .branch (fun _ => True) hc (by simp) (fun t us => (guides_stopFrom hc base none).among fun i => ⟨i.1, rfl⟩)
    ((guides_integer hc).bind_advances (integer_advances hc) (fun i us => guides_integerFrom hc base i)
      fun _ => metQuietly_unclosedSelector)
    fun _ => (integer_advances hc).bind fun i us => guides_integerFrom hc base i

end

/-! ### Rows -/

/-- What comes after an item of a row: the mark that closes it, or a comma and the rest. -/
def rowFrom (ctx : Context) (closer : Mark) (rest : Parser (List α)) (x : α) : Parser (List α) :=
  fork ctx closer .comma (.notASeparator closer) (return [x]) fun _ => do return x :: (← rest)

theorem bind_run_congr {β : Type} {p : Parser α} {f g : α → Parser β}
    (h : ∀ x us, p ts = .ok (x, us) → f x us = g x us) : (p >>= f) ts = (p >>= g) ts := by
  rw [bind_run, bind_run]
  cases hp : p ts with
  | error e => rfl
  | ok r => exact h r.1 r.2 hp

theorem of_peek (h : peek ctx ts = .ok (t, us)) : us = ts := by
  unfold peek at h
  cases hfirst : ctx.first ts with
  | error e =>
    rw [hfirst] at h
    cases h
  | ok t =>
    rw [hfirst] at h
    cases h
    rfl

section
variable {closer : Mark} {item : Parser α} {rest rest' : Parser (List α)} (hc : ctx.EndsWith last)
  (hitem : ∀ {ts x us}, item ts = .ok (x, us) → us.length ≤ ts.length)
include hc hitem

/-- The rest of a row is read from fewer tokens. -/
theorem rowFrom_congr (h : ∀ vs : List Token, vs.length < ts.length → rest vs = rest' vs) :
    (item >>= rowFrom ctx closer rest) ts = (item >>= rowFrom ctx closer rest') ts := by
  refine bind_run_congr fun x us hx => bind_run_congr fun t us' ht => ?_
  cases of_peek ht
  rw [ite_run, ite_run]
  split
  next => rfl
  next =>
    refine bind_run_congr fun _ vs hcomma => ?_
    have hlength := ((separator_eq_ok_iff hc).1 hcomma).length_eq
    have hle := hitem hx
    simp only [List.length_cons, List.length_nil] at hlength
    rw [bind_run, bind_run, h vs (by omega)]

/-- The count of a row makes no difference, as long as it is enough for the tokens. -/
theorem row_eq_row : ∀ {n m : Nat} {ts : List Token}, ts.length < n → ts.length < m →
    row ctx closer item n ts = row ctx closer item m ts := by
  intro n
  induction n with
  | zero => exact fun hn => absurd hn (Nat.not_lt_zero _)
  | succ n ih =>
    intro m ts hn hm
    obtain ⟨m, rfl⟩ : ∃ k, m = k + 1 := ⟨m - 1, by omega⟩
    exact rowFrom_congr hc hitem fun vs hvs => ih (by omega) (by omega)

theorem items_eq : items ctx closer item = item >>= rowFrom ctx closer (items ctx closer item) := by
  funext ts
  exact rowFrom_congr hc hitem fun vs hvs => row_eq_row hc hitem hvs (Nat.lt_succ_self _)

end

/-- A row guides rows, if its items guide items and are not empty. -/
theorem guides_items {now : Expectation → Prop} {closer : Mark} {item : Context → Parser α} (hne : .comma ≠ closer)
    (hcloser : Quiet (.mark closer))
    (hitem : ∀ {ctx last ts}, ctx.EndsWith last → Guides now (item ctx) (fun c : FaultFree => item c.ctx) ts)
    (hadvances : ∀ {ctx last ts}, ctx.EndsWith last → Advances (item ctx) ts) (hc : ctx.EndsWith last) :
    Guides now (items ctx closer (item ctx)) (fun c : FaultFree => items c.ctx closer (item c.ctx)) ts := by
  have heq {ctx : Context} {last : Token} (hc : ctx.EndsWith last) :
      items ctx closer (item ctx) = item ctx >>= rowFrom ctx closer (items ctx closer (item ctx)) :=
    items_eq hc fun h => Nat.le_of_lt (hadvances hc _ _ h)
  have hends (c : FaultFree) : Settled (items c.ctx closer (item c.ctx) []) := by
    have hnil : Guides now (item ctx) (fun c : FaultFree => item c.ctx) [] := hitem hc
    rw [heq c.finishes.endsWith]
    exact (hnil.ends c).bind fun _ => settled_fork c
  -- by the number of tokens, since the rest of a row is a row
  obtain ⟨n, hn⟩ : ∃ n, ts.length < n := ⟨_, Nat.lt_succ_self _⟩
  induction n generalizing ts with
  | zero => exact absurd hn (Nat.not_lt_zero _)
  | succ n ih =>
    have hfrom (x : α) (us : List Token) (hx : item ctx ts = .ok (x, us)) :
        Guides (fun w => w = .mark closer ∨ w = .mark .comma) (rowFrom ctx closer (items ctx closer (item ctx)) x)
          (fun c : FaultFree => rowFrom c.ctx closer (items c.ctx closer (item c.ctx)) x) us := by
      refine guides_fork hc hne (fun found w hw => ?_) (fun _ => (Guides.pure [x]).mono fun _ => False.elim)
        (fun vs hcomma => (ih ?_).map _) fun c => (hends c).bind fun _ => rfl
      · simpa [GrammarCause.expectations, or_comm] using hw
      · have hlt := hadvances hc x us hx
        have hlength := hcomma.length_eq
        omega
    have hbind := (hitem hc).bind_of_run hfrom (fun c _ => settled_fork c) ?_ (fun _ => id)
      fun x _ hx _ => absurd (hadvances hc x ts hx) (Nat.lt_irrefl _)
    · rw [heq hc]
      exact hbind.among fun c => ⟨c, heq c.finishes.endsWith⟩
    · rintro w (rfl | rfl)
      · exact metQuietly_mark hcloser
      · exact metQuietly_mark ⟨rfl, rfl⟩

/-! ### Forms that hold subexpressions -/

/-- A parser of subexpressions that guides itself; all that it expects at first is an expression. -/
structure Guiding (sub : SubParser) : Prop where
  sound : ∀ last, Sound last sub
  guides : ∀ {ctx : Context} {last : Token} {power : Nat} {ts : List Token}, ctx.EndsWith last →
    Guides (· = .expression) (sub ctx power) (fun c : FaultFree => sub c.ctx power) ts

/-- A name is quiet wherever an expression or a name is expected. -/
theorem metQuietly_name (hw : w = .expression ∨ w = .identifier) : MetQuietly w := by
  intro tail hmet
  have hkey : ∃ l k, tail.map Token.lexeme = [l] ∧ Grammar.Key l k := by
    rcases hw with rfl | rfl <;> exact hmet
  obtain ⟨l, k, hls, hkey⟩ := hkey
  have hself := Leads.self tail
  rw [hls] at hself
  rw [hself.nextLexeme_eq]
  cases hkey <;> exact ⟨rfl, rfl⟩

section
variable {sub : SubParser} (hs : Guiding sub) (hc : ctx.EndsWith last)
include hs hc

theorem Guiding.advances : Advances (sub ctx 0) ts := advances_of_leads fun h => by
  obtain ⟨ls, hls, hl⟩ := (hs.sound last).pipeline hc h
  exact ⟨ls, pipeline_ne_nil hls, hl⟩

theorem guides_multiselectListFrom : Guides (· = .expression) (multiselectListFrom sub ctx)
    (fun c : FaultFree => multiselectListFrom sub c.ctx) ts :=
  (guides_items (by decide) ⟨rfl, rfl⟩ hs.guides hs.advances hc).map _

omit hs in
theorem key_fails (h : key ctx ts = .error e) (hw : w ∈ e.expectations) : e.AtFirst ts ∧ w = .identifier := by
  have h := of_peek_bind_error hc hw h
  rw [lexeme_front hc] at h
  cases hn : nextLexeme ts with
  | name k =>
    obtain ⟨t, us, rfl, -⟩ := cons_of_nextLexeme hn (by simp)
    rw [hn] at h
    cases h
  | quotedName k =>
    obtain ⟨t, us, rfl, -⟩ := cons_of_nextLexeme hn (by simp)
    rw [hn] at h
    cases h
  | _ =>
    rw [hn] at h
    rw [SyntaxError.expectations_of_cause (cause_of_fail h)] at hw
    exact ⟨atFirst_of_fail hc h, List.mem_singleton.1 hw⟩

omit hs in
theorem guides_key : Guides (· = .identifier) (key ctx) (fun c : FaultFree => key c.ctx) ts := by
  refine .one (R := Grammar.Key) (fun h => key_sound hc h) (fun h hw => key_fails hc h hw)
    (fun {c} _ _ _ _ hl h => key_complete hl h) (fun hw hls => ?_) fun c => ?_
  · subst hw
    exact hls
  · unfold key
    rw [peek_bind c.finishes, front, c.finishes.lexeme]
    exact settled_fail c.finishes.lexeme

omit hs in
theorem key_advances : Advances (key ctx) ts := advances_of_leads fun h => by
  obtain ⟨l, -, hl⟩ := key_sound hc h
  exact ⟨[l], by simp, hl⟩

theorem guides_pair : Guides (· = .identifier) (pair sub ctx) (fun c : FaultFree => pair sub c.ctx) ts := by
  refine (guides_key hc).bind_advances (key_advances hc) (fun k us => (guides_take hc fun _ => rfl).bind_advances
    (take_advances hc) (fun _ vs => (hs.guides hc).map _) fun w hw => metQuietly_name (.inl hw)) ?_
  rintro w rfl
  exact metQuietly_mark ⟨rfl, rfl⟩

theorem pair_advances : Advances (pair sub ctx) ts := advances_of_leads fun h => by
  obtain ⟨ls, hls, hl⟩ := pair_sound (hs.sound last) hc h
  cases hls
  exact ⟨_, by simp, hl⟩

theorem guides_multiselectHashFrom : Guides (· = .identifier) (multiselectHashFrom sub ctx)
    (fun c : FaultFree => multiselectHashFrom sub c.ctx) ts :=
  (guides_items (by decide) ⟨rfl, rfl⟩ (guides_pair hs) (pair_advances hs) hc).map _

theorem guides_argument : Guides (· = .expression) (argument sub ctx) (fun c : FaultFree => argument sub c.ctx) ts :=
  .branch (· = .expression) hc (by simp) (fun _ _ => ((hs.guides hc).map _).among fun i => ⟨i.1, rfl⟩)
    (hs.guides hc) fun _ => hs.advances hc

theorem argument_advances : Advances (argument sub ctx) ts := advances_of_leads fun h => by
  obtain ⟨ls, hls, hl⟩ := argument_sound (hs.sound last) hc h
  cases hls with
  | value hls => exact ⟨ls, pipeline_ne_nil hls, hl⟩
  | reference hls => exact ⟨_, by simp, hl⟩

theorem guides_callFrom {function : String} : Guides (· = .expression) (callFrom sub ctx function)
    (fun c : FaultFree => callFrom sub c.ctx function) ts := by
  refine .branch (fun _ => False) hc (by simp) (fun _ _ => .pure _)
    ((guides_items (by decide) ⟨rfl, rfl⟩ (guides_argument hs) (argument_advances hs) hc).map _)
    fun _ => Advances.map (advances_of_leads fun h => ?_) _
  obtain ⟨ls, -, hl⟩ := items_sound hc (argument_sound (hs.sound last) hc) h
  exact ⟨_, by simp, hl⟩

/-! ### Names and brackets -/

theorem guides_nameFrom {name : String} : Guides (fun _ => False) (nameFrom sub ctx name)
    (fun c : FaultFree => nameFrom sub c.ctx name) ts :=
  .branch (· = .expression) hc (by simp)
    (fun t _ => (guides_callFrom hs (hc.inside t)).among fun i => ⟨i.1.inside i.2, rfl⟩) (.pure _)
    fun hquiet => by cases hquiet.1

omit hs in
theorem guides_quotedNameFrom {name : String} : Guides (fun _ => False) (quotedNameFrom ctx name)
    (fun c : FaultFree => quotedNameFrom c.ctx name) ts := by
  refine .look hc (fun h => ?_) (fun h hw => ?_) fun c => ?_
  · rw [ite_run, lexeme_front hc] at h
    split at h
    next => exact absurd h not_fail_eq_ok
    next hn =>
      cases h
      refine ⟨[], Leads.nil_iff.2 rfl, fun {c} _ _ hl hcalm => ?_⟩
      have hne := nextLexeme_ne (Leads.nil_iff.2 rfl) hl hcalm hn fun hquiet => by cases hquiet.1
      cases Leads.nil_iff.1 hl
      rw [ite_run, lexeme_front c.finishes.endsWith, if_neg hne]
      rfl
  · rw [ite_run] at h
    split at h
    next =>
      rw [SyntaxError.expectations_of_cause (cause_of_fail h)] at hw
      cases hw
    next => cases h
  · rw [ite_run, if_neg (by simp [c.finishes.lexeme])]
    rfl

theorem guides_filterFrom {source : Option Expr} : Guides (· = .expression) (filterFrom sub ctx source)
    (fun c : FaultFree => filterFrom sub c.ctx source) ts := by
  refine (hs.guides hc).bind_advances (hs.advances hc) (fun predicate us => (guides_take hc fun _ => rfl).map _) ?_
  rintro w rfl
  exact metQuietly_mark ⟨rfl, rfl⟩

end

/-! ### Brackets after an expression -/

theorem selector_advances (hc : ctx.EndsWith last) (base : Option Expr) : Advances (selector ctx base) ts :=
  advances_of_leads fun h => by
    obtain ⟨ls, -, hl⟩ := selector_sound hc h
    exact ⟨_, by simp, hl⟩

/-- What starts a selector leaves it open. -/
theorem settled_selector (c : FaultFree) (base : Option Expr) (hw : w = .number ∨ w = .mark .colon)
    (hmet : w.MetBy (ts.map Token.lexeme)) : Settled (selector c.ctx base ts) := by
  rcases hw with rfl | rfl
  · obtain ⟨n, hl⟩ := leads_of_metBy_number hmet
    have hi : integer c.ctx ts = .ok (n, []) :=
      (integer_eq_ok_iff c.finishes.endsWith).2 ⟨_, .plain n, hl⟩
    rw [selector_eq, peek_bind c.finishes, ite_run, lexeme_front c.finishes.endsWith,
      if_neg (by simp [hl.nextLexeme_eq]), bind_run_of_ok hi]
    exact settled_fork c
  · obtain ⟨t, us, rfl, ht, hus⟩ := Leads.cons_iff.1 (leads_of_metBy_mark hmet)
    cases Leads.nil_iff.1 hus
    rw [selector_eq, peek_bind_cons, ite_run, if_pos ht, skip_bind_cons]
    have hstop : Guides (fun _ => True) (stopFrom c.ctx base none) (fun c : FaultFree => stopFrom c.ctx base none) [] :=
      guides_stopFrom c.finishes.endsWith base none
    exact hstop.ends c

theorem startsSelector_of_metBy (hw : w = .number ∨ w = .mark .colon) (hmet : w.MetBy (ts.map Token.lexeme)) :
    startsSelector (nextLexeme ts) = true := by
  rcases hw with rfl | rfl
  · obtain ⟨n, hl⟩ := leads_of_metBy_number hmet
    rw [hl.nextLexeme_eq]
    rfl
  · rw [(leads_of_metBy_mark hmet).nextLexeme_eq]
    rfl

section
variable {left : Expr}

theorem selectorFrom_of_starts (h : startsSelector (nextLexeme ts) = true) :
    selectorFrom ctx left ts = selector ctx (some left) ts := by
  cases ts with
  | nil => cases h
  | cons t us =>
    unfold selectorFrom
    rw [peek_bind_cons, ite_run]
    exact if_pos h

theorem selectorFrom_star (h : Leads ts [.mark .star] us) :
    selectorFrom ctx left ts = (do expect ctx .rbracket; return .arrayWildcard (some left) : Parser Expr) us := by
  obtain ⟨t, vs, rfl, ht, hv⟩ := Leads.cons_iff.1 h
  cases Leads.nil_iff.1 hv
  unfold selectorFrom
  rw [peek_bind_cons, ite_run, if_neg (by simp [ht, startsSelector, startsInteger]), ite_run, if_pos ht,
    skip_bind_cons]

theorem selectorFrom_refuses (hc : ctx.EndsWith last) (hn : ¬ startsSelector (nextLexeme ts) = true)
    (hstar : nextLexeme ts ≠ .mark .star) : ∃ e, selectorFrom ctx left ts = .error e ∧
      ∀ w ∈ e.expectations, e.AtFirst ts ∧ w ∈ [.number, .mark .colon, .mark .star] := by
  refine refuses_of_run (peek_bind_or hc _ ts) (.notASelector (nextLexeme ts)) hc ?_
  rw [ite_run, ite_run, lexeme_front hc, if_neg hn, if_neg hstar]

theorem settled_selectorFrom (c : FaultFree) : Settled (selectorFrom c.ctx left []) := by
  unfold selectorFrom
  rw [peek_bind c.finishes, front, ite_run, ite_run, c.finishes.lexeme]
  exact settled_fail c.finishes.lexeme

theorem guides_selectorFrom (hc : ctx.EndsWith last) : Guides (fun _ => True) (selectorFrom ctx left)
    (fun c : FaultFree => selectorFrom c.ctx left) ts := by
  by_cases hn : startsSelector (nextLexeme ts) = true
  · have hguides : Guides (· = .number) (selectorFrom ctx left) (fun c : FaultFree => selectorFrom c.ctx left) ts :=
      (guides_selector hc (some left)).enter (.inl (selectorFrom_of_starts hn)) (selector_advances hc _)
        (fun hsame => selectorFrom_of_starts (hsame ▸ hn))
        (fun hw hmet => selectorFrom_of_starts (startsSelector_of_metBy (.inl hw) hmet)) settled_selectorFrom
    exact hguides.mono fun _ _ => trivial
  · have hguides : Guides (· ∈ [.number, .mark .colon, .mark .star]) (selectorFrom ctx left)
        (fun c : FaultFree => selectorFrom c.ctx left) ts := by
      refine .of_firstStep ?_ (fun {w c tail} hw hmet => ?_) settled_selectorFrom
      · by_cases hstar : nextLexeme ts = .mark .star
        · have hl := leads_tail hstar (by simp)
          exact .takes hl (selectorFrom_star hl) ((guides_take hc fun _ => rfl).map _)
            fun {c} _ _ hl' => ⟨c, selectorFrom_star hl'⟩
        · obtain ⟨e, he, hoffers⟩ := selectorFrom_refuses hc hn hstar
          exact .fails he hoffers
      · by_cases hw' : w = .mark .star
        · subst hw'
          rw [selectorFrom_star (leads_of_metBy_mark hmet)]
          exact settled_take_bind c _ _ _
        · have hw : w = .number ∨ w = .mark .colon := by simpa [hw'] using hw
          rw [selectorFrom_of_starts (startsSelector_of_metBy hw hmet)]
          exact settled_selector c _ hw hmet
    exact hguides.mono fun _ _ => trivial

end

/-! ### Brackets where an expression starts -/

section
variable {sub : SubParser} {ts' us' : List Token} {ls : List Lexeme}

/-- Where neither a selector starts nor a wildcard stands; after a bracket, a list is read there. -/
def Lists (ts : List Token) : Prop :=
  ¬ startsSelector (nextLexeme ts) = true ∧ ¬ (nextLexeme ts = .mark .star ∧ nextLexeme ts.tail = .mark .rbracket)

/-- Two lexemes decide. -/
theorem Lists.of_leads (h : Lists ts) (hl : Leads ts ls us) (hl' : Leads ts' ls us') (hlength : 2 ≤ ls.length) :
    Lists ts' := by
  obtain ⟨l, m, ms, rfl⟩ : ∃ l m ms, ls = l :: m :: ms := by
    match ls, hlength with
    | l :: m :: ms, _ => exact ⟨l, m, ms, rfl⟩
  obtain ⟨vs, hv, hm⟩ := Leads.head_iff.1 hl
  obtain ⟨vs', hv', hm'⟩ := Leads.head_iff.1 hl'
  have htail : nextLexeme ts'.tail = nextLexeme ts.tail := by
    rw [tail_eq_of_leads hv, tail_eq_of_leads hv', hm.nextLexeme_eq, hm'.nextLexeme_eq]
  unfold Lists
  rwa [hl'.nextLexeme_eq, ← hl.nextLexeme_eq, htail]

theorem bracketFrom_of_starts (h : startsSelector (nextLexeme ts) = true) :
    bracketFrom sub ctx ts = selector ctx none ts := by
  cases ts with
  | nil => cases h
  | cons t us =>
    unfold bracketFrom
    rw [peek_bind_cons, ite_run]
    exact if_pos h

theorem bracketFrom_wildcard (h : Leads ts [.mark .star, .mark .rbracket] us) :
    bracketFrom sub ctx ts = .ok (.arrayWildcard none, us) := by
  obtain ⟨t, vs, rfl, ht, hv⟩ := Leads.cons_iff.1 h
  obtain ⟨t', vs, rfl, ht', hv⟩ := Leads.cons_iff.1 hv
  cases Leads.nil_iff.1 hv
  unfold bracketFrom
  rw [peek_bind_cons, ite_run, if_neg (by simp [ht, startsSelector, startsInteger]), ite_run, if_pos ht,
    peekSecond_bind_cons, ite_run, if_pos ht']
  rfl

theorem bracketFrom_of_lists (c : FaultFree) (h : Lists ts) :
    bracketFrom sub c.ctx ts = multiselectListFrom sub c.ctx ts := by
  have hc := c.finishes.endsWith
  unfold bracketFrom
  rw [peek_bind c.finishes, ite_run, ite_run, lexeme_front hc, if_neg h.1]
  split
  next hstar => rw [peekSecond_bind c.finishes, ite_run, lexeme_front hc, if_neg fun hclose => h.2 ⟨hstar, hclose⟩]
  next => rfl

/-- The token after a star is looked at, and may be a fault. -/
theorem bracketFrom_or (hc : ctx.EndsWith last) (h : Lists ts) :
    bracketFrom sub ctx ts = multiselectListFrom sub ctx ts ∨
      ∃ e, bracketFrom sub ctx ts = .error e ∧ e.expectations = [] := by
  unfold bracketFrom
  refine Or.elim (peek_bind_or hc _ ts) (fun hrun => ?_) .inr
  rw [hrun, ite_run, ite_run, lexeme_front hc, if_neg h.1]
  split
  next hstar =>
    refine Or.elim (peekSecond_bind_or hc _ ts) (fun hrun => .inl ?_) .inr
    rw [hrun, ite_run, lexeme_front hc, if_neg fun hclose => h.2 ⟨hstar, hclose⟩]
  next => exact .inl rfl

variable (hs : Guiding sub) (hc : ctx.EndsWith last)
include hs hc

/-- A list is at least an item and the bracket. -/
theorem two_le_of_multiselectListFrom {x : Expr} (h : multiselectListFrom sub ctx ts = .ok (x, us))
    (hl : Leads ts ls us) : 2 ≤ ls.length := by
  obtain ⟨ms, es, -, hr, hms⟩ := multiselectListFrom_sound (hs.sound last) hc h
  have hne : ms ≠ [] := by
    cases hr with
    | one hp => exact pipeline_ne_nil hp
    | more => simp
  have hpos := List.length_pos_iff.2 hne
  have h₁ := hl.length_eq
  have h₂ := hms.length_eq
  simp only [List.length_append, List.length_cons, List.length_nil] at h₂
  omega

theorem guides_lists (h : Lists ts) : Guides (fun _ => True) (bracketFrom sub ctx)
    (fun c : FaultFree => bracketFrom sub c.ctx) ts := by
  have hlist : Guides (· = .expression) (multiselectListFrom sub ctx)
    (fun c : FaultFree => multiselectListFrom sub c.ctx) ts := guides_multiselectListFrom hs hc
  refine ⟨fun hx => ?_, fun {e w} he hw => ?_, fun c => ?_⟩
  · have hx := ok_of_run (bracketFrom_or hc h) hx
    obtain ⟨ls, hl, hgo⟩ := hlist.taken hx
    refine ⟨ls, hl, fun {c} _ _ hl' hcalm => ?_⟩
    rw [bracketFrom_of_lists c (h.of_leads hl hl' (two_le_of_multiselectListFrom hs hc hx hl))]
    exact hgo hl' hcalm
  · obtain ⟨ls, us, hl, hat, hnow, hgo⟩ := hlist.offered (error_of_run (bracketFrom_or hc h) he hw) hw
    refine ⟨ls, us, hl, hat, fun _ => trivial, fun {c ts' tail} hl' hmet => ?_⟩
    by_cases hlists : Lists ts'
    · rw [bracketFrom_of_lists c hlists]
      exact hgo hl' hmet
    -- what is offered after a star closes the wildcard
    cases ls with
    | nil =>
      cases Leads.nil_iff.1 hl'
      obtain ⟨l, k, hself, hkey⟩ : Expectation.expression.MetBy (ts'.map Token.lexeme) := hnow rfl ▸ hmet
      refine absurd ?_ hlists
      have hself := hself ▸ Leads.self ts'
      unfold Lists
      rw [hself.nextLexeme_eq]
      cases hkey <;> simp [startsSelector, startsInteger]
    | cons l ms =>
      cases ms with
      | cons m ms => exact absurd (h.of_leads hl hl' (by simp)) hlists
      | nil =>
        have hstar : nextLexeme ts' = .mark .star ∧ nextLexeme ts'.tail = .mark .rbracket := by
          by_contra hnot
          refine hlists ⟨?_, hnot⟩
          rw [hl'.nextLexeme_eq, ← hl.nextLexeme_eq]
          exact h.1
        rw [tail_eq_of_leads hl'] at hstar
        obtain ⟨t, vs, rfl, ht⟩ := cons_of_nextLexeme hstar.2 (by simp)
        cases tail_eq_nil_of_metBy hmet
        obtain rfl : l = .mark .star := hl'.nextLexeme_eq.symm.trans hstar.1
        rw [bracketFrom_wildcard (Leads.head_iff.2 ⟨_, hl', ht, rfl⟩)]
        exact .inl rfl
  · have hnil : Guides (· = .expression) (multiselectListFrom sub ctx)
      (fun c : FaultFree => multiselectListFrom sub c.ctx) [] := guides_multiselectListFrom hs hc
    rw [bracketFrom_of_lists c (by simp [Lists, nextLexeme, startsSelector, startsInteger])]
    exact hnil.ends c

theorem guides_bracketFrom : Guides (fun _ => True) (bracketFrom sub ctx)
    (fun c : FaultFree => bracketFrom sub c.ctx) ts := by
  have hnil : Guides (fun _ => True) (bracketFrom sub ctx) (fun c : FaultFree => bracketFrom sub c.ctx) [] :=
    guides_lists hs hc (by simp [Lists, nextLexeme, startsSelector, startsInteger])
  by_cases hn : startsSelector (nextLexeme ts) = true
  · have hguides : Guides (· = .number) (bracketFrom sub ctx) (fun c : FaultFree => bracketFrom sub c.ctx) ts :=
      (guides_selector hc none).enter (.inl (bracketFrom_of_starts hn)) (selector_advances hc _)
        (fun hsame => bracketFrom_of_starts (hsame ▸ hn))
        (fun hw hmet => bracketFrom_of_starts (startsSelector_of_metBy (.inl hw) hmet)) hnil.ends
    exact hguides.mono fun _ _ => trivial
  by_cases hwild : nextLexeme ts = .mark .star ∧ nextLexeme ts.tail = .mark .rbracket
  · have hl : Leads ts [.mark .star, .mark .rbracket] ts.tail.tail :=
      Leads.head_iff.2 ⟨_, leads_tail hwild.1 (by simp), leads_tail hwild.2 (by simp)⟩
    refine ⟨fun hx => ?_, fun he => ?_, hnil.ends⟩
    · rw [bracketFrom_wildcard hl] at hx
      cases hx
      exact ⟨_, hl, fun hl' _ => bracketFrom_wildcard hl'⟩
    · rw [bracketFrom_wildcard hl] at he
      cases he
  · exact guides_lists hs hc ⟨hn, hwild⟩

end

end JsonQuery.Expr
