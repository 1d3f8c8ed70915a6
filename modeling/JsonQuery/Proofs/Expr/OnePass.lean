import JsonQuery.Proofs.Expr.Lockstep

/-! One pass over the tokens. The machine does not meet a bound that is above the number of the tokens, whatever the
    limit on the depth, and gives what the parser gives. It takes the tokens one after the other, all of them once if
    there is a tree, and otherwise some first of them. Every entry takes a token but the last, which may fail before it
    has; every turn of a loop takes one. -/

namespace JsonQuery.Expr.Descent

variable {scan : Scan} {limit d : Int} {n k : Nat} {u us : List Token} {s : State} {m : Descent Expr} {p : Parser Expr}
  {e : Expr}

theorem mirrors_whole (hscan : scan.WellEnded) :
    Mirrors scan limit d n u u 1 (whole n) (Expr.whole (limit - d).toNat (within scan limit u)) := by
  refine ((expression_mirrors hscan limit n).1 d u 0).bindFirst (k := 0) fun e => ?_
  exact mirrors_peek.bind fun t => .ite (.pure e) mirrors_fail

/-- Nothing is left after a whole expression. -/
theorem nil_of_whole (hscan : scan.WellEnded) {room : Nat} {ctx : Context} {ts : List Token}
    (h : Expr.whole room ctx ts = .ok (e, us)) (hus : ∀ t ∈ us, t ∈ scan.tokens) : us = [] := by
  obtain ⟨left, vs, -, hrest⟩ := bind_eq_ok.1 h
  obtain ⟨t, ws, hpeek, hend⟩ := bind_eq_ok.1 hrest
  obtain ⟨hfirst, rfl⟩ := first_of_peek hpeek
  rw [ite_run] at hend
  split at hend
  next hfinish =>
    cases hend
    cases us with
    | nil => rfl
    | cons t' us =>
      cases hfirst
      exact absurd hfinish (hscan.ne_finish t (hus t List.mem_cons_self))
  next => cases hend

theorem Recorded.entries_le {spare : Nat} (h : Recorded scan spare s) :
    s.entries.length ≤ scan.tokens.length + spare := by
  have hlength := congrArg List.length h.tokens
  have hle := h.entries
  rw [List.length_append] at hlength
  omega

theorem at_start (text : String) (limit : Int) :
    At (Scan.ofText text.toList) limit 0 [] (State.start limit (Scan.ofText text.toList)) :=
  ⟨rfl, rfl, rfl, Nat.le_refl _, nofun⟩

/-- On a text the machine keeps step with the parser from the first token on. Nothing is left after an expression. -/
theorem inStep_parse {text : String} (h : (Scan.ofText text.toList).tokens.length < n) :
    ∃ q : Except SyntaxError (Expr × List Token), Expr.parse text limit = q.map Prod.fst ∧
      InStep (Scan.ofText text.toList) limit 0 [] 0 (State.start limit (Scan.ofText text.toList))
        (Descent.parse n text limit) q ∧
      ∀ e us, q = .ok (e, us) → (∀ t ∈ us, t ∈ (Scan.ofText text.toList).tokens) → us = [] := by
  have hscan := (stands_start text limit).ended
  have hstart := at_start text limit
  by_cases hblank : Text.trim Text.isBlank text.toList = []
  · refine ⟨_, by rw [parse_eq, if_pos hblank]; rfl, ?_, ?_⟩
    · rw [Descent.parse, if_pos hblank]
      exact (mirrors_peek.bind fun t => mirrors_fail) _ hstart h
    · intro e us hq
      obtain ⟨t, vs, -, hfail⟩ := bind_eq_ok.1 hq
      cases hfail
  · refine ⟨_, by rw [parse_eq, if_neg hblank, ofScan_eq]; rfl, ?_, fun e us hq => nil_of_whole hscan hq⟩
    have hwhole := mirrors_whole hscan _ hstart h
    rw [Int.sub_zero] at hwhole
    rw [Descent.parse, if_neg hblank]
    exact hwhole.weaken (Nat.zero_le 1)

/-- What a descent into a text comes to in one pass. It has ended with the tree or the error of the parser, and so has
    not stalled; the tokens are those before the end or before the fault of the text. -/
structure OnePass (text : String) (limit : Int) (r : Except Halt Expr × State) : Prop where
  ended : r.1 = (Expr.parse text limit).mapError .failed
  entries : r.2.entries.length ≤ (Scan.ofText text.toList).tokens.length + 1
  turns : ∀ turn ∈ r.2.turns, turn.after < turn.before
  taken : r.2.taken <+: (Scan.ofText text.toList).tokens
  taken_of_ok : ∀ e, Expr.parse text limit = .ok e → r.2.taken = (Scan.ofText text.toList).tokens

/-- Whatever the limit, and however far the bound is over the number of the tokens, the machine ends with the tree or
    the error of the parser. There is at most one entry more than there are tokens, and every turn of a loop takes one.
    The tokens are taken one after the other and each once, all of them for a tree. -/
theorem parse_one_pass {text : String} {n : Nat} (limit : Int) (h : (Scan.ofText text.toList).tokens.length < n) :
    OnePass text limit (Descent.parse n text limit) := by
  obtain ⟨q, hq, hstep, hnil⟩ := @inStep_parse limit n text h
  generalize Descent.parse n text limit = r at hstep ⊢
  cases hstep with
  | @ok e s hs =>
    have hrecorded := hs.1.recorded
    have hend : s.tokens = [] := hnil e _ rfl fun t ht => by
      rw [← hrecorded.tokens]
      exact List.mem_append_right _ ht
    have htaken : s.taken = (Scan.ofText text.toList).tokens := by
      rw [← hrecorded.tokens, hend, List.append_nil]
    exact ⟨by rw [hq]; rfl, Nat.le_succ_of_le hrecorded.entries_le, hrecorded.turns, ⟨_, hrecorded.tokens⟩,
      fun _ _ => htaken⟩
  | failed hs =>
    refine ⟨by rw [hq]; rfl, hs.1.entries_le, hs.1.turns, ⟨_, hs.1.tokens⟩, fun e he => ?_⟩
    cases hq.symm.trans he

/-- A slice of two turns and a call with two arguments: fifteen tokens, of which five are first ones after an entry. -/
theorem parse_one_pass_slice_call :
    (Scan.ofText "a[1:2:].b(c, &d)".toList).tokens.length < 16 ∧
    (Descent.parse 16 "a[1:2:].b(c, &d)" 128).2.entries = [.operand, .extension, .extension, .operand, .operand] ∧
    (Descent.parse 16 "a[1:2:].b(c, &d)" 128).2.turns =
      [⟨.slice, 12, 10⟩, ⟨.slice, 10, 9⟩, ⟨.arguments, 5, 4⟩, ⟨.arguments, 3, 1⟩] ∧
    OnePass "a[1:2:].b(c, &d)" 128 (Descent.parse 16 "a[1:2:].b(c, &d)" 128) := by
  have htokens : (Scan.ofText "a[1:2:].b(c, &d)".toList).tokens.length < 16 := by decide +kernel
  exact ⟨htokens, by decide +kernel, by decide +kernel, parse_one_pass 128 htokens⟩

end JsonQuery.Expr.Descent
