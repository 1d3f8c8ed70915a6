import JsonQuery.Proofs.Expr.Parse

/-! How high the tree of a text may be. The room of the parser bounds how deep it recurses and how often it
    extends, but what has been read inside brackets gives its room back before it is extended. So the height
    is bounded not by the room but by a triangular number: a row of extensions as long as the room goes on
    top of a tree that was read with one less. -/

namespace JsonQuery

open Token (nextLexeme Leads)

namespace Expr

mutual

/-- The number of nodes on the longest way down a tree; a reference is no node of its own. -/
def height : Expr → Nat
  | identifier _ | current | literal _ | rawString _ | extension _ => 1
  | index base _ | slice base _ _ _ | flatten base | objectWildcard base | arrayWildcard base =>
    heightOption base + 1
  | subexpression l r | pipe l r | or l r | and l r | comparison _ l r => max (height l) (height r) + 1
  | not operand => height operand + 1
  | filter source predicate => max (heightOption source) (height predicate) + 1
  | multiselectList items => heightList items + 1
  | multiselectHash pairs => heightPairs pairs + 1
  | call _ args => heightList args + 1
  | reference expression => height expression

/-- The height of a child that may be absent. -/
def heightOption : Option Expr → Nat
  | none => 0
  | some e => height e

/-- The greatest height of some trees. -/
def heightList : List Expr → Nat
  | [] => 0
  | e :: es => max (height e) (heightList es)

/-- The greatest height of some keyed trees. -/
def heightPairs : List (String × Expr) → Nat
  | [] => 0
  | (_, e) :: es => max (height e) (heightPairs es)

end

theorem height_pos : ∀ e : Expr, 0 < e.height
  | reference e => height_pos e
  | identifier _ | current | literal _ | rawString _ | extension _ => Nat.one_pos
  | index _ _ | slice _ _ _ _ | flatten _ | objectWildcard _ | arrayWildcard _ => Nat.succ_pos _
  | subexpression _ _ | pipe _ _ | or _ _ | and _ _ | comparison _ _ _ | not _ | filter _ _ => Nat.succ_pos _
  | multiselectList _ | multiselectHash _ | call _ _ => Nat.succ_pos _

theorem heightList_le {n : Nat} : ∀ {es : List Expr}, (∀ e ∈ es, e.height ≤ n) → heightList es ≤ n := by
  intro es
  induction es with
  | nil => exact fun _ => Nat.zero_le n
  | cons e es ih =>
    intro h
    exact Nat.max_le.2 ⟨h e List.mem_cons_self, ih fun d hd => h d (List.mem_cons_of_mem e hd)⟩

theorem heightPairs_le {n : Nat} : ∀ {ps : List (String × Expr)}, (∀ p ∈ ps, p.2.height ≤ n) →
    heightPairs ps ≤ n := by
  intro ps
  induction ps with
  | nil => exact fun _ => Nat.zero_le n
  | cons p ps ih =>
    intro h
    exact Nat.max_le.2 ⟨h p List.mem_cons_self, ih fun d hd => h d (List.mem_cons_of_mem p hd)⟩

variable {α : Type} {ctx : Context} {last : Token} {sub : SubParser} {ts us : List Token} {n : Nat}

/-- The trees that a parser of subexpressions reads have at most some height. -/
def ReadsUpTo (last : Token) (n : Nat) (sub : SubParser) : Prop :=
  ∀ ⦃ctx : Context⦄ ⦃power : Nat⦄ ⦃ts us : List Token⦄ ⦃e : Expr⦄, ctx.EndsWith last →
    sub ctx power ts = .ok (e, us) → e.height ≤ n

/-! ### Forms that hold subexpressions -/

theorem forall_of_row {closer : Mark} {item : Parser α} {P : α → Prop} (hc : ctx.EndsWith last)
    (hi : ∀ {ts us x}, item ts = .ok (x, us) → P x) : ∀ {k : Nat} {ts us : List Token} {xs : List α},
    row ctx closer item k ts = .ok (xs, us) → ∀ x ∈ xs, P x := by
  intro k
  induction k with
  | zero =>
    intro ts us xs h
    cases h
    simp
  | succ k ih =>
    intro ts us xs h
    unfold row at h
    obtain ⟨x, vs, hx, h⟩ := bind_eq_ok.1 h
    have h := of_peek_bind hc h
    rw [ite_run] at h
    split at h
    next =>
      have h := of_skip_bind hc h
      cases h
      simpa using hi hx
    next =>
      obtain ⟨_, ws, -, h⟩ := bind_eq_ok.1 h
      obtain ⟨ys, zs, hys, h⟩ := bind_eq_ok.1 h
      cases h
      simpa using ⟨hi hx, ih hys⟩

theorem height_of_list {e : Expr} (hs : ReadsUpTo last n sub) (hc : ctx.EndsWith last)
    (h : multiselectListFrom sub ctx ts = .ok (e, us)) : e.height ≤ n + 1 := by
  obtain ⟨es, vs, hes, h⟩ := bind_eq_ok.1 h
  cases h
  exact Nat.succ_le_succ (heightList_le (forall_of_row hc (fun hx => hs hc hx) hes))

theorem height_of_hash {e : Expr} (hs : ReadsUpTo last n sub) (hc : ctx.EndsWith last)
    (h : multiselectHashFrom sub ctx ts = .ok (e, us)) : e.height ≤ n + 1 := by
  obtain ⟨ps, vs, hps, h⟩ := bind_eq_ok.1 h
  cases h
  have hpair {ts us : List Token} {p : String × Expr} (hp : pair sub ctx ts = .ok (p, us)) :
    p.2.height ≤ n := by
    obtain ⟨k, vs, -, hp⟩ := bind_eq_ok.1 hp
    obtain ⟨_, ws, -, hp⟩ := bind_eq_ok.1 hp
    obtain ⟨e, xs, he, hp⟩ := bind_eq_ok.1 hp
    cases hp
    exact hs hc he
  exact Nat.succ_le_succ (heightPairs_le (forall_of_row hc hpair hps))

theorem height_of_argument {e : Expr} (hs : ReadsUpTo last n sub) (hc : ctx.EndsWith last)
    (h : argument sub ctx ts = .ok (e, us)) : e.height ≤ n := by
  have h := of_peek_bind hc h
  rw [ite_run] at h
  split at h
  next =>
    obtain ⟨e, vs, he, h⟩ := bind_eq_ok.1 (of_skip_bind hc h)
    cases h
    show e.height ≤ n
    exact hs hc he
  next => exact hs hc h

theorem height_of_call {f : String} {e : Expr} (hs : ReadsUpTo last n sub) (hc : ctx.EndsWith last)
    (h : callFrom sub ctx f ts = .ok (e, us)) : e.height ≤ n + 1 := by
  have h := of_peek_bind hc h
  rw [ite_run] at h
  split at h
  next =>
    have h := of_skip_bind hc h
    cases h
    exact Nat.le_add_left 1 n
  next =>
    obtain ⟨args, vs, hargs, h⟩ := bind_eq_ok.1 h
    cases h
    exact Nat.succ_le_succ (heightList_le (forall_of_row hc (height_of_argument hs hc) hargs))

theorem height_of_name {f : String} {e : Expr} (hs : ReadsUpTo last n sub) (hc : ctx.EndsWith last)
    (h : nameFrom sub ctx f ts = .ok (e, us)) : e.height ≤ n + 1 := by
  have h := of_peek_bind hc h
  rw [ite_run] at h
  split at h
  next => exact height_of_call hs (hc.inside _) (of_skip_bind hc h)
  next =>
    cases h
    exact Nat.le_add_left 1 n

theorem height_of_quotedName {s : String} {e : Expr} (hc : ctx.EndsWith last)
    (h : quotedNameFrom ctx s ts = .ok (e, us)) : e.height ≤ n + 1 := by
  have h := of_peek_bind hc h
  rw [ite_run] at h
  split at h
  next => exact absurd h not_fail_eq_ok
  next =>
    cases h
    exact Nat.le_add_left 1 n

theorem height_of_filter {source : Option Expr} {e : Expr} (hs : ReadsUpTo last n sub)
    (hc : ctx.EndsWith last)
    (h : filterFrom sub ctx source ts = .ok (e, us)) : e.height ≤ max (heightOption source) n + 1 := by
  obtain ⟨p, vs, hp, h⟩ := bind_eq_ok.1 h
  obtain ⟨_, ws, -, h⟩ := bind_eq_ok.1 h
  cases h
  have := hs hc hp
  simp only [height]
  omega

theorem height_of_selector {base : Option Expr} {e : Expr} (hc : ctx.EndsWith last)
    (h : selector ctx base ts = .ok (e, us)) : e.height ≤ heightOption base + 1 := by
  obtain ⟨ls, hsel, -⟩ := selector_sound hc h
  cases hsel <;> exact Nat.le_refl _

theorem height_of_bracket {e : Expr} (hs : ReadsUpTo last n sub) (hc : ctx.EndsWith last)
    (h : bracketFrom sub ctx ts = .ok (e, us)) : e.height ≤ n + 1 := by
  have h := of_peek_bind hc h
  rw [ite_run, ite_run] at h
  split at h
  next => exact Nat.le_trans (height_of_selector hc h) (Nat.le_add_left 1 n)
  next =>
    split at h
    next =>
      have h := of_peekSecond_bind hc h
      rw [ite_run] at h
      split at h
      next =>
        have h := of_skip_bind hc (of_skip_bind hc h)
        cases h
        exact Nat.le_add_left 1 n
      next => exact height_of_list hs hc h
    next => exact height_of_list hs hc h

theorem height_of_operand {t : Token} {e : Expr} (hs : ReadsUpTo last n sub) (hc : ctx.EndsWith last)
    (h : operandFrom sub ctx t ts = .ok (e, us)) : e.height ≤ n + 1 := by
  unfold operandFrom at h
  cases ht : t.lexeme with
  | name f =>
    rw [ht] at h
    exact height_of_name hs hc h
  | quotedName s =>
    rw [ht] at h
    exact height_of_quotedName hc h
  | rawString s =>
    rw [ht] at h
    cases h
    exact Nat.le_add_left 1 n
  | literal text =>
    rw [ht] at h
    obtain ⟨hprim, rfl⟩ := literalFrom_sound h
    cases hprim with
    | literal => exact Nat.le_add_left 1 n
    | call h => cases h
    | bracketed h => cases h
    | hash h => cases h
  | number k =>
    rw [ht] at h
    exact absurd h not_fail_eq_ok
  | finish =>
    rw [ht] at h
    exact absurd h not_fail_eq_ok
  | mark m =>
    rw [ht] at h
    cases m with
    | current | star | flatten =>
      cases h
      exact Nat.le_add_left 1 n
    | not =>
      obtain ⟨e, vs, he, h⟩ := bind_eq_ok.1 h
      cases h
      exact Nat.succ_le_succ (hs hc he)
    | lparen =>
      obtain ⟨e, vs, he, h⟩ := bind_eq_ok.1 h
      obtain ⟨_, ws, -, h⟩ := bind_eq_ok.1 h
      cases h
      exact Nat.le_succ_of_le (hs (hc.inside t) he)
    | lbracket => exact height_of_bracket hs (hc.inside t) h
    | lbrace => exact height_of_hash hs (hc.inside t) h
    | filter => simpa [heightOption] using height_of_filter hs (hc.inside t) h
    | _ => exact absurd h not_fail_eq_ok

/-! ### Extensions -/

theorem height_of_field {left e : Expr} (hs : ReadsUpTo last n sub) (hc : ctx.EndsWith last)
    (h : fieldFrom sub ctx left ts = .ok (e, us)) : e.height ≤ max left.height (n + 1) + 1 := by
  have joined {r : Expr} (hr : r.height ≤ n + 1) :
    (subexpression left r).height ≤ max left.height (n + 1) + 1 := by
    simp only [height]
    omega
  have h := of_peek_bind hc h
  cases ht : (front last ts).lexeme with
  | name f =>
    rw [ht] at h
    obtain ⟨r, vs, hr, h⟩ := bind_eq_ok.1 (of_skip_bind hc h)
    cases h
    exact joined (height_of_name hs hc hr)
  | quotedName s =>
    rw [ht] at h
    obtain ⟨r, vs, hr, h⟩ := bind_eq_ok.1 (of_skip_bind hc h)
    cases h
    exact joined (height_of_quotedName hc hr)
  | mark m =>
    rw [ht] at h
    cases m with
    | star =>
      have h := of_skip_bind hc h
      cases h
      simp only [height, heightOption]
      omega
    | lbracket =>
      obtain ⟨r, vs, hr, h⟩ := bind_eq_ok.1 (of_skip_bind hc h)
      cases h
      exact joined (height_of_list hs (hc.inside _) hr)
    | lbrace =>
      obtain ⟨r, vs, hr, h⟩ := bind_eq_ok.1 (of_skip_bind hc h)
      cases h
      exact joined (height_of_hash hs (hc.inside _) hr)
    | _ => exact absurd h not_fail_eq_ok
  | _ =>
    rw [ht] at h
    exact absurd h not_fail_eq_ok

theorem height_of_selectorFrom {left e : Expr} (hc : ctx.EndsWith last)
    (h : selectorFrom ctx left ts = .ok (e, us)) : e.height ≤ left.height + 1 := by
  obtain ⟨ls, hb, -⟩ := selectorFrom_sound hc h
  cases hb with
  | selector hsel => cases hsel <;> exact Nat.le_refl _
  | items => exact Nat.le_refl _

/-- An extension is a node on top of what is extended and of what has been read to the right. -/
theorem height_of_extension {t : Token} {left e : Expr} (hs : ReadsUpTo last n sub) (hc : ctx.EndsWith last)
    (h : extendFrom sub ctx t left ts = .ok (e, us)) : e.height ≤ max left.height (n + 1) + 1 := by
  have binary {r : Expr} (hr : r.height ≤ n) :
    max left.height r.height + 1 ≤ max left.height (n + 1) + 1 := by
    omega
  unfold extendFrom at h
  cases ht : t.lexeme with
  | mark m =>
    rw [ht] at h
    cases m with
    | dot => exact height_of_field hs hc h
    | pipe | or | and | comparator =>
      obtain ⟨r, vs, hr, h⟩ := bind_eq_ok.1 h
      cases h
      exact binary (hs hc hr)
    | flatten =>
      cases h
      simp only [height, heightOption]
      omega
    | filter =>
      have := height_of_filter hs (hc.inside t) h
      simp only [heightOption] at this
      omega
    | lbracket =>
      have := height_of_selectorFrom (hc.inside t) h
      omega
    | _ => exact absurd h not_fail_eq_ok
  | _ =>
    rw [ht] at h
    exact absurd h not_fail_eq_ok

/-! ### Expressions -/

/-- The greatest height of a tree that is read with some room: each extension adds a node to a tree that was
    read with one less. -/
def highest : Nat → Nat
  | 0 => 0
  | room + 1 => highest room + (room + 1)

theorem two_mul_highest : ∀ room, 2 * highest room = room * (room + 1) := by
  intro room
  induction room with
  | zero => rfl
  | succ room ih => rw [highest, Nat.mul_add, ih, ← Nat.add_mul, Nat.mul_comm]

theorem highest_le_succ (room : Nat) : highest room ≤ highest (room + 1) := Nat.le_add_right _ _

/-- Extensions add at most a node each, if they start above what is read inside them. -/
theorem height_of_extend : ∀ {room : Nat}, (∀ r < room, ReadsUpTo last (highest r) (expression r)) →
    ∀ {ctx : Context} {power : Nat} {ts us : List Token} {left e : Expr} {n : Nat}, ctx.EndsWith last →
    left.height ≤ n → highest room + 1 ≤ n → extend room ctx power left ts = .ok (e, us) →
    e.height ≤ n + room := by
  intro room
  induction room with
  | zero =>
    intro _ ctx power ts us left e n hc hleft _ h
    rw [extend_zero] at h
    have h := of_peek_bind hc h
    rw [ite_run] at h
    split at h
    next => exact absurd h (failDeep_ne_ok hc)
    next =>
      cases h
      exact hleft
  | succ room ih =>
    intro hsub ctx power ts us left e n hc hleft hn h
    rw [extend_add_one] at h
    have h := of_peek_bind hc h
    rw [ite_run] at h
    split at h
    next =>
      obtain ⟨left', vs, he, h⟩ := bind_eq_ok.1 (of_skip_bind hc h)
      have hleft' := height_of_extension (hsub room room.lt_succ_self) hc he
      have hroom := highest_le_succ room
      have hrest := ih (fun r hr => hsub r (Nat.lt_succ_of_lt hr)) hc
        (show left'.height ≤ n + 1 by omega) (by omega) h
      omega
    next =>
      cases h
      omega

theorem expression_readsUpTo (last : Token) : ∀ room, ReadsUpTo last (highest room) (expression room)
  | 0 => by
    intro ctx power ts us e hc h
    exact absurd h (failDeep_ne_ok hc)
  | room + 1 => by
    intro ctx power ts us e hc h
    have hsub : ∀ r < room + 1, ReadsUpTo last (highest r) (expression r) := fun r hr =>
      expression_readsUpTo last r
    rw [expression_add_one] at h
    obtain ⟨left, vs, hop, h⟩ := bind_eq_ok.1 (of_advance_bind hc h)
    have hleft := height_of_operand (hsub room room.lt_succ_self) hc hop
    have he := height_of_extend (fun r hr => hsub r (Nat.lt_succ_of_lt hr)) hc hleft (Nat.le_refl _) h
    rw [highest]
    omega
termination_by room => room

/-- The tree of a text is no higher than the limit allows, counted with all rows of extensions. -/
theorem parse_height {text : String} {limit : Int} {e : Expr} (h : parse text limit = .ok e) :
    e.height ≤ highest limit.toNat := by
  obtain ⟨ctx, last, us, hc, -, h⟩ := of_parse h
  rw [whole_eq] at h
  obtain ⟨e', vs, he, h⟩ := bind_eq_ok.1 h
  have h := of_peek_bind hc h
  rw [ite_run] at h
  split at h
  next =>
    cases h
    exact expression_readsUpTo last limit.toNat hc he
  next => exact absurd h not_fail_eq_ok

end Expr
end JsonQuery
