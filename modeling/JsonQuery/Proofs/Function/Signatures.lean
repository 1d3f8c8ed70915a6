import JsonQuery.Function.Sample
import JsonQuery.Proofs.Eval.Containment

/-! Signatures. The name of a function, the types of its parameters and whether it is variadic say which arguments it
    can be called with: how many there may be, and for the argument at each place which types it may have. A call
    with other arguments fails before anything is computed, by their count, or else by the first argument that has
    none of its types. This covers all functions and arguments but one case: a variadic function without parameters
    may be called with any number of arguments, but has no types for them. -/

namespace JsonQuery

variable {ρ : Type}

/-- The arguments that a parameter type stands for. -/
inductive ParamType.Admits : ParamType → Argument ρ → Prop
  | any {a : Argument ρ} : a.kind ≠ .expression → Admits .any a
  | ofKind {kind : ValueKind} {a : Argument ρ} : a.kind = kind → Admits (.ofKind kind) a
  | numbers {items : List (Value ρ)} : (∀ x ∈ items, x.kind = .number) → Admits .numbers (.value (.array items))
  | strings {items : List (Value ρ)} : (∀ x ∈ items, x.kind = .string) → Admits .strings (.value (.array items))

theorem Value.isArrayOf_iff {kind : ValueKind} {v : Value ρ} :
    v.isArrayOf kind = true ↔ ∃ items, v = .array items ∧ ∀ x ∈ items, x.kind = kind := by
  cases v <;> simp [isArrayOf]

theorem ParamType.accepts_iff {t : ParamType} {a : Argument ρ} : t.accepts a = true ↔ t.Admits a := by
  constructor
  · intro h
    cases t with
    | any => exact .any (by simpa [accepts] using h)
    | ofKind kind => exact .ofKind (by simpa [accepts] using h)
    | numbers | strings =>
      cases a with
      | expression => cases h
      | value v =>
        obtain ⟨items, rfl, hitems⟩ := Value.isArrayOf_iff.1 h
        first | exact .numbers hitems | exact .strings hitems
  · rintro (h | h | h | h)
    · simpa [accepts] using h
    · simpa [accepts] using h
    · exact Value.isArrayOf_iff.2 ⟨_, rfl, h⟩
    · exact Value.isArrayOf_iff.2 ⟨_, rfl, h⟩

namespace Function

variable {f : Function ρ} {args before after : List (Argument ρ)} {a : Argument ρ} {place : Nat}
  {types : List ParamType} {found : Option EvalError}

/-- The numbers of arguments of a function: one for each parameter, and any more if it is variadic. -/
def Counts (f : Function ρ) (count : Nat) : Prop :=
  count = f.params.length ∨ f.variadic = true ∧ f.params.length < count

/-- The types that the argument at a place may have: those of its own parameter, and past all of these those of the
    last one. -/
inductive Slot (f : Function ρ) : Nat → List ParamType → Prop
  | own {place : Nat} {types : List ParamType} : f.params[place]? = some types → f.Slot place types
  | last {place : Nat} {types : List ParamType} :
    f.params.length ≤ place → f.params.getLast? = some types → f.Slot place types

/-- An argument has one of the types that it may have at a place. -/
def Suits (f : Function ρ) (place : Nat) (a : Argument ρ) : Prop :=
  ∃ types, f.Slot place types ∧ ∃ t ∈ types, t.Admits a

/-- What is found against some arguments, if anything is: their number, or the first argument, counted from 1, that has
    none of its types. -/
inductive Finds (f : Function ρ) (args : List (Argument ρ)) : Option EvalError → Prop
  | wrongCount : ¬ f.Counts args.length →
    f.Finds args (some (.wrongCount f.name f.params.length f.variadic args.length))
  | wrongArgument {before after : List (Argument ρ)} {a : Argument ρ} {types : List ParamType} :
    f.Counts args.length → args = before ++ a :: after → (∀ p ∈ before.zipIdx, f.Suits p.2 p.1) →
    f.Slot before.length types → (∀ t ∈ types, ¬ t.Admits a) →
    f.Finds args (some (.wrongArgument f.name (before.length + 1) types a.kind))
  | nothing : f.Counts args.length → (∀ p ∈ args.zipIdx, f.Suits p.2 p.1) → f.Finds args none

/-! ### Counts and types -/

theorem takes_iff {count : Nat} : f.takes count = true ↔ f.Counts count := by
  cases h : f.variadic with
  | false => simp [takes, Counts, h]
  | true =>
    have hle : f.params.length ≤ count ↔ count = f.params.length ∨ f.params.length < count := by omega
    simpa [takes, Counts, h] using hle

theorem slot_iff : f.Slot place types ↔ f.slot? place = some types := by
  rw [slot?]
  constructor
  · rintro (h | ⟨hplace, h⟩)
    · have hlt : place < f.params.length := (List.getElem?_eq_some_iff.1 h).1
      rwa [Nat.min_eq_left (Nat.le_sub_one_of_lt hlt)]
    · rwa [Nat.min_eq_right (by omega), ← List.getLast?_eq_getElem?]
  · intro h
    by_cases hplace : place < f.params.length
    · rw [Nat.min_eq_left (Nat.le_sub_one_of_lt hplace)] at h
      exact .own h
    · rw [Nat.min_eq_right (by omega), ← List.getLast?_eq_getElem?] at h
      exact .last (Nat.le_of_not_lt hplace) h

theorem exists_slot (h : f.params ≠ []) (place : Nat) : ∃ types, f.Slot place types := by
  cases hslot : f.slot? place with
  | some types => exact ⟨types, slot_iff.2 hslot⟩
  | none => exact absurd (slot?_eq_none_iff.1 hslot) h

theorem any_accepts_iff : (types.any fun t => t.accepts a) = true ↔ ∃ t ∈ types, t.Admits a := by
  simp only [List.any_eq_true, ParamType.accepts_iff]

/-! ### The check -/

/-- Arguments that have one of their types are passed over. -/
theorem checkFrom_append (after : List (Argument ρ)) : ∀ {before : List (Argument ρ)} {place : Nat},
    (∀ p ∈ before.zipIdx place, f.Suits p.2 p.1) →
    f.checkFrom place (before ++ after) = f.checkFrom (place + before.length) after := by
  intro before
  induction before with
  | nil => exact fun _ => rfl
  | cons a before ih =>
    intro place h
    rw [List.zipIdx_cons, List.forall_mem_cons] at h
    obtain ⟨⟨types, hslot, hadmits⟩, hbefore⟩ := h
    rw [List.cons_append, checkFrom, slot_iff.1 hslot]
    simp only [any_accepts_iff.2 hadmits, if_true]
    rw [ih hbefore, List.length_cons, Nat.add_right_comm, Nat.add_assoc]

theorem checkFrom_of_suits (h : ∀ p ∈ args.zipIdx place, f.Suits p.2 p.1) : f.checkFrom place args = .ok () := by
  have happend := checkFrom_append [] h
  rwa [List.append_nil] at happend

/-- An argument that has none of its types is refused. -/
theorem checkFrom_wrong (hslot : f.Slot place types) (h : ∀ t ∈ types, ¬ t.Admits a) (after : List (Argument ρ)) :
    f.checkFrom place (a :: after) = .error (.wrongArgument f.name (place + 1) types a.kind) := by
  have hrefused : ¬ (types.any fun t => t.accepts a) = true := by
    rw [any_accepts_iff]
    exact fun ⟨t, ht, hadmits⟩ => h t ht hadmits
  rw [checkFrom, slot_iff.1 hslot]
  simp only [if_neg hrefused]

/-- Either all arguments have one of their types, or there is a first one that has not. -/
theorem suits_or_first (f : Function ρ) : ∀ (args : List (Argument ρ)) (place : Nat),
    (∀ p ∈ args.zipIdx place, f.Suits p.2 p.1) ∨
    ∃ before a after, args = before ++ a :: after ∧ (∀ p ∈ before.zipIdx place, f.Suits p.2 p.1) ∧
      ¬ f.Suits (place + before.length) a := by
  intro args
  induction args with
  | nil => exact fun _ => .inl nofun
  | cons a args ih =>
    intro place
    by_cases ha : f.Suits place a
    · rcases ih (place + 1) with h | ⟨before, b, after, rfl, hbefore, hb⟩
      · exact .inl (List.forall_mem_cons.2 ⟨ha, h⟩)
      · refine .inr ⟨a :: before, b, after, rfl, List.forall_mem_cons.2 ⟨ha, hbefore⟩, ?_⟩
        rwa [List.length_cons, Nat.add_comm before.length, ← Nat.add_assoc]
    · exact .inr ⟨[], a, args, rfl, nofun, ha⟩

/-- What is found is the wrong count, or what the check comes to. -/
theorem Finds.count_or_check (h : f.Finds args found) :
    ¬ f.Counts args.length ∧ found = some (.wrongCount f.name f.params.length f.variadic args.length) ∨
      f.Counts args.length ∧ f.checkFrom 0 args = found.elim (.ok ()) .error := by
  cases h with
  | wrongCount hcount => exact .inl ⟨hcount, rfl⟩
  | wrongArgument hcount hargs hbefore hslot hwrong =>
    have hrefused := checkFrom_wrong hslot hwrong
    refine .inr ⟨hcount, ?_⟩
    rw [hargs, checkFrom_append _ hbefore, Nat.zero_add, hrefused, Option.elim_some]
  | nothing hcount hsuits => exact .inr ⟨hcount, checkFrom_of_suits hsuits⟩

/-- There is one thing at most that can be found. -/
theorem Finds.unique {found' : Option EvalError} (h : f.Finds args found) (h' : f.Finds args found') :
    found' = found := by
  rcases h.count_or_check with ⟨hcount, rfl⟩ | ⟨hcount, hcheck⟩
  · rcases h'.count_or_check with ⟨-, rfl⟩ | ⟨hcount', -⟩
    · rfl
    · exact absurd hcount' hcount
  · rcases h'.count_or_check with ⟨hcount', -⟩ | ⟨-, hcheck'⟩
    · exact absurd hcount hcount'
    · rw [hcheck] at hcheck'
      cases found <;> cases found' <;> simp_all

/-- Something can be found, unless types are missing for arguments that there may be. -/
theorem exists_finds (h : f.variadic = true → f.params = [] → args = []) : ∃ found, f.Finds args found := by
  by_cases hcount : f.Counts args.length
  · rcases f.suits_or_first args 0 with hsuits | ⟨before, a, after, rfl, hbefore, ha⟩
    · exact ⟨none, .nothing hcount hsuits⟩
    · -- arguments that can be counted have types, and so are wrong by these, unless there are no parameters at all
      have hparams : f.params ≠ [] := by
        intro hnil
        rcases hcount with hcount | ⟨hvariadic, -⟩
        · simp [hnil] at hcount
        · simp [hvariadic, hnil] at h
      obtain ⟨types, hslot⟩ := exists_slot hparams before.length
      rw [Nat.zero_add] at ha
      exact ⟨_, .wrongArgument hcount rfl hbefore hslot fun t ht hadmits => ha ⟨types, hslot, t, ht, hadmits⟩⟩
  · exact ⟨_, .wrongCount hcount⟩

/-! ### Calls -/

theorem invoke_of_counts (h : f.Counts args.length) :
    f.invoke args = (do f.checkFrom 0 args; f.compute args) := by
  rw [invoke, if_pos (takes_iff.2 h)]

/-- Where nothing is found a call computes, and else it fails with what is found. -/
theorem Finds.invoke_eq (h : f.Finds args found) : f.invoke args = found.elim (f.compute args) .error := by
  rcases h.count_or_check with ⟨hcount, rfl⟩ | ⟨hcount, hcheck⟩
  · rw [invoke, if_neg (mt takes_iff.1 hcount), Option.elim_some]
  · rw [invoke_of_counts hcount, hcheck]
    cases found <;> rfl

/-- The failures by the count of the arguments are of one kind and those by their types of another. -/
theorem Finds.kind {failure : EvalError} (h : f.Finds args (some failure)) :
    (failure.kind? = some .arityMismatch ↔ ¬ f.Counts args.length) ∧
      (failure.kind? = some .typeMismatch ↔ f.Counts args.length) := by
  cases h with
  | wrongCount hcount => simp [EvalError.kind?, hcount]
  | wrongArgument hcount => simp [EvalError.kind?, hcount]

/-- Any arguments can be counted for a variadic function without parameters, but the first one has no types. -/
theorem invoke_noParameter (hvariadic : f.variadic = true) (hparams : f.params = []) (hargs : args ≠ []) :
    f.invoke args = .error (.noParameter f.name) := by
  obtain ⟨a, after, rfl⟩ := List.exists_cons_of_ne_nil hargs
  have hcount : f.Counts (a :: after).length := .inr ⟨hvariadic, by simp [hparams]⟩
  rw [invoke_of_counts hcount, checkFrom, slot?_eq_none_iff.2 hparams]
  rfl

/-- Whatever a function computes, of its name and signature and of the arguments one thing is found, either nothing or a
    failure of one of two kinds. If it is nothing the function computes, and else the call fails with it. Only for
    arguments of a variadic function without parameters there is no such thing, and the call fails otherwise. -/
theorem invoke_signature (f : Function ρ) (args : List (Argument ρ)) :
    ((f.variadic = true → f.params = [] → args = []) →
      ∃ found, (∀ found', f.Finds args found' ↔ found' = found) ∧
        f.invoke args = found.elim (f.compute args) .error ∧
        ∀ failure, found = some failure →
          (failure.kind? = some .arityMismatch ↔ ¬ f.Counts args.length) ∧
          (failure.kind? = some .typeMismatch ↔ f.Counts args.length)) ∧
    (f.variadic = true → f.params = [] → args ≠ [] → f.invoke args = .error (.noParameter f.name)) := by
  refine ⟨fun h => ?_, invoke_noParameter⟩
  obtain ⟨found, hfound⟩ := exists_finds h
  refine ⟨found, fun found' => ⟨hfound.unique, fun he => he ▸ hfound⟩, hfound.invoke_eq, fun failure hfailure => ?_⟩
  exact (hfailure ▸ hfound).kind

/-- Two parameters, and the last one repeats: it wants numbers, and of the two further arguments, which are wrong, the
    first one is named. -/
theorem invoke_signature_third :
    let f : Function Empty := ⟨"f", [[.ofKind .string], [.numbers]], true, fun _ => .ok .null⟩
    f.invoke [.value (.string "a"), .value (.array []), .value (.array [.int 1, .null]), .value .null] =
      .error (.wrongArgument "f" 3 [.numbers] .array) := by
  intro f
  let args : List (Argument Empty) :=
    [.value (.string "a"), .value (.array []), .value (.array [.int 1, .null]), .value .null]
  obtain ⟨found, hfound, hinvoke, -⟩ := (invoke_signature f args).1 fun _ h => nomatch h
  have hslot : f.Slot 2 [.numbers] := .last (Nat.le_refl 2) rfl
  have hwrong : ∀ t ∈ [ParamType.numbers], ¬ t.Admits (.value (.array [.int 1, .null]) : Argument Empty) := by
    intro t ht hadmits
    rw [List.mem_singleton.1 ht, ← ParamType.accepts_iff] at hadmits
    exact nomatch hadmits
  have hsuits : ∀ p ∈ (args.take 2).zipIdx, f.Suits p.2 p.1 := by
    refine List.forall_mem_cons.2 ⟨⟨_, .own rfl, _, List.mem_cons_self, .ofKind rfl⟩, ?_⟩
    exact List.forall_mem_cons.2 ⟨⟨_, .own rfl, _, List.mem_cons_self, .numbers nofun⟩, nofun⟩
  have hfinds : f.Finds args (some (.wrongArgument "f" 3 [.numbers] .array)) :=
    .wrongArgument (.inr ⟨rfl, by decide⟩) rfl hsuits hslot hwrong
  rw [← (hfound _).1 hfinds] at hinvoke
  exact hinvoke

end Function

/-- A variadic function without parameters takes one argument by its count, and yet the argument is refused, with a
    failure that is of no kind. -/
theorem searchWith_noParameter :
    searchWith (.ample 0) [("f", ⟨"f", [], true, Sample.count.compute⟩)] "f(@)" (.int 1) 128 =
      .error (.evaluation (.noParameter "f")) ∧ (EvalError.noParameter "f").kind? = none := by
  refine ⟨?_, rfl⟩
  let f : Function Reference := ⟨"f", [], true, Sample.count.compute⟩
  have hparse : Expr.parse "f(@)" 128 = .ok (.call "f" [.current]) :=
    Expr.parse_call_current (f := "f") rfl (by decide)
  have hcall : Expr.evaluateLinked (.ample 0) [("f", f)] 128 (.call "f" [.current]) (.int 1) =
      f.invoke [.value (.int 1)] :=
    Expr.valueAt_call_value rfl (Expr.valueAt_current (by decide) _) fun _ => nofun
  rw [searchWith, Query.compile, hparse]
  show (Expr.evaluateLinked (.ample 0) [("f", f)] 128 (.call "f" [.current]) (.int 1)).mapError
    SearchError.evaluation = _
  rw [hcall]
  rfl

end JsonQuery
