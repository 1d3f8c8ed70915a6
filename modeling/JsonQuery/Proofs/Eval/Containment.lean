import JsonQuery.Proofs.Eval.Calls
import JsonQuery.Proofs.Eval.Failures
import JsonQuery.Proofs.Token.Spelling
import JsonQuery.Query

/-! Which failures a text can meet. A query of a text fails only as the functions do that it calls, or with the stack of
    its machine: a function that is unknown or has the wrong arguments gives a failure of a query, which names it. Four
    of the builtin functions may also meet an integer too large for a double, and one an integer too long to be written,
    and these are no failures of a query. A call of each on such an integer shows that nothing short of avoiding them
    keeps them out. -/

namespace JsonQuery

/-- Outcomes whose failures are those of a query. -/
def Contained {α : Type} (x : Except EvalError α) : Prop :=
  ∀ failure, x = .error failure → failure.kind?.isSome

namespace Builtin

variable {name : String} {failure : EvalError}

/-- The functions that may fail otherwise than a query does. -/
def escaping : List String := "to_string" :: overflowing

/-- A failure of a call that is none of a query: an overflow, or an integer too long to be written. -/
def Escapes (name : String) (failure : EvalError) : Prop :=
  (∃ what, failure = .overflow what) ∧ name ∈ overflowing ∨ failure = .overlong ∧ name = "to_string"

theorem Escapes.mem_escaping (h : Escapes name failure) : name ∈ escaping := by
  rcases h with ⟨-, h⟩ | ⟨-, rfl⟩
  · exact List.mem_cons_of_mem _ h
  · exact List.mem_cons_self

/-- A call is blamed for failures of three kinds that name its function, and for those that escape. -/
theorem Blames.kind_or_escapes (h : Blames name failure) :
    (failure.function? = some name ∧ (failure.kind? = some .unknownFunction ∨
      failure.kind? = some .arityMismatch ∨ failure.kind? = some .typeMismatch)) ∨ Escapes name failure := by
  cases failure with
  | unknownFunction f => exact .inl ⟨congrArg some h, .inl rfl⟩
  | wrongCount f => exact .inl ⟨congrArg some h, .inr (.inl rfl)⟩
  | wrongArgument f => exact .inl ⟨congrArg some h, .inr (.inr rfl)⟩
  | wrongKey f => exact .inl ⟨congrArg some h, .inr (.inr rfl)⟩
  | overflow what => exact .inr (.inl ⟨⟨what, rfl⟩, h⟩)
  | overlong => exact .inr (.inr ⟨rfl, h⟩)
  | _ => exact h.elim

theorem Blames.isSome_or_escapes (h : Blames name failure) : failure.kind?.isSome ∨ Escapes name failure :=
  h.kind_or_escapes.imp_left fun h => by rcases h.2 with h | h | h <;> rw [h] <;> rfl

/-! ### Integers that are too large or too long -/

section
variable {n : Int} (hn : Double.ofInt? n = none)
include hn

theorem whole_overflow (toInt? : Double → Option Int) :
    whole toInt? (.int n) = .error (.overflow .conversion) := by
  rw [whole, hn]

theorem sum_overflow (x : Double) : sum [.int n, .double x] = .error (.overflow .conversion) := by
  have hadd : Number.add? (.int n) (.double x) = none := by
    simp only [Number.add?, Number.toDouble?, hn]
  have hzero : Number.add? (.int 0) (.int n) = some (.int n) := congrArg (some ∘ Number.int) (Int.zero_add n)
  simp only [sum, Number.sum?, List.foldlM_cons, hzero, hadd, Option.bind_eq_bind, Option.bind_some,
    Option.bind_none]

theorem avg_overflow (x : Double) :
    avg [.int n, .double x] = (.error (.overflow .conversion) : Except EvalError Json) := by
  rw [avg, sum_overflow hn]
  rfl

end

theorem toString_int {ρ : Type} (n : Int) : (toString (.int n) : Except EvalError (Value ρ)) =
    if (Number.int n).isWritable then .ok (.string (String.ofList (intText n))) else .error .overlong := by
  rw [Value.int, toString, Value.toJson, Json.isWritable]
  · rfl
  · exact nofun

theorem invoke_numeric (name : String) (compute : Number → Except EvalError Number) (n : Number) :
    (numeric name compute : Function Empty).invoke [.value (.number n)] = (compute n).map .number := rfl

theorem invoke_aggregate (name : String) (compute : List Number → Except EvalError Json) (n m : Number) :
    (aggregate name compute : Function Empty).invoke [.value (.array [.number n, .number m])] =
      compute [n, m] := rfl

end Builtin

namespace Expr

open Grammar (pipeline_of_postfixed)

variable {text : String} {bound limit : Int} {e : Expr}

/-- What passes on some stack passes where the stack does not give out, or the stack gives out. -/
theorem evaluate_blames (h : parse text bound = .ok e) (hlimit : e.height ≤ limit) (stack : EvaluatorStack)
    (document : Json) : FailsOnly
      (fun failure => (∃ f ∈ e.referencedFunctions, Builtin.Blames f failure) ∨ stack.Fails limit failure)
      (evaluate (.plainOn stack Builtin.table limit) e document) := by
  have hblames : FailsOnly (fun failure => ∃ f ∈ e.referencedFunctions, Builtin.Blames f failure)
      (evaluate (.plain Builtin.table limit) e document) :=
    evaluate_failsOnly h (fun f hf failure hfailure => ⟨f, hf, hfailure⟩) (.inr hlimit) document
  rcases evaluate_eq_or ofBuiltins_table stack limit e document with hsame | ⟨failure, hfailure, hstack⟩
  · rw [hsame]
    exact hblames.mono (fun _ _ => trivial) fun _ => .inl
  · rw [hfailure]
    exact .inr hstack

/-- Under a limit of at least its height, a tree that a text denotes fails only for a function that it calls:
    because the function is unknown or has the wrong arguments, by an overflow in one of four, or for an integer that
    is too long to be written; or with the stack of the machine. So a step of 0, a reference that is no argument and an
    unknown node are never met, and a tree without calls has a value at every document, unless the stack gives out. -/
theorem evaluate_failures (h : parse text bound = .ok e) (hlimit : e.height ≤ limit) (stack : EvaluatorStack)
    (document : Json) :
    (∀ failure, evaluate (.plainOn stack Builtin.table limit) e document = .error failure →
      ((∃ f ∈ e.referencedFunctions, failure.function? = some f ∧
          (failure.kind? = some .unknownFunction ∨ failure.kind? = some .arityMismatch ∨
            failure.kind? = some .typeMismatch)) ∨
        (∃ what, failure = .overflow what) ∧ (∃ f ∈ e.referencedFunctions, f ∈ Builtin.overflowing) ∨
        failure = .overlong ∧ "to_string" ∈ e.referencedFunctions ∨ stack.Fails limit failure) ∧
      failure ≠ .zeroStep ∧ failure ≠ .looseReference ∧ ∀ kind, failure ≠ .unknownNode kind) ∧
    (e.referencedFunctions = [] → (∃ r, evaluate (.plainOn stack Builtin.table limit) e document = .ok r) ∨
      ∃ failure, evaluate (.plainOn stack Builtin.table limit) e document = .error failure ∧
        stack.Fails limit failure) := by
  have hblames := evaluate_blames h hlimit stack document
  constructor
  · intro failure hfailure
    rcases failsOnly_iff.1 hblames failure hfailure with ⟨f, hf, hfailure⟩ | hstack
    · refine ⟨?_, ?_, ?_, fun kind => ?_⟩
      · rcases hfailure.kind_or_escapes with h | ⟨hover, hmem⟩ | ⟨hlong, rfl⟩
        · exact .inl ⟨f, hf, h⟩
        · exact .inr (.inl ⟨hover, f, hf, hmem⟩)
        · exact .inr (.inr (.inl ⟨hlong, hf⟩))
      all_goals
        rintro rfl
        exact hfailure
    · obtain ⟨hout, rfl⟩ := hstack
      exact ⟨.inr (.inr (.inr ⟨hout, rfl⟩)), nofun, nofun, fun _ => nofun⟩
  · intro hnone
    cases hx : evaluate (.plainOn stack Builtin.table limit) e document with
    | ok r => exact .inl ⟨r, rfl⟩
    | error failure =>
      refine .inr ⟨failure, rfl, (failsOnly_iff.1 hblames failure hx).resolve_left ?_⟩
      rintro ⟨f, hf, -⟩
      rw [hnone] at hf
      cases hf

/-- An unknown function in an expression by which items are ordered: every failure names it or the function
    that orders. -/
theorem evaluate_failures_by_key : ∃ e, parse "max_by(@, &size(a))" 11 = .ok e ∧ e.height ≤ 3 ∧
    ∀ document failure, evaluate (.plainOn (.ample 0) Builtin.table 3) e document = .error failure →
      failure.function? = some "max_by" ∨ failure.function? = some "size" := by
  have hcut : Cut "max_by(@, &size(a))".toList
      [.name "max_by", .mark .lparen, .mark .current, .mark .comma, .mark .reference, .name "size",
        .mark .lparen, .name "a", .mark .rparen, .mark .rparen] := by decide +kernel
  have hname : Grammar.Argument [.name "a"] (.identifier "a") :=
    .value (pipeline_of_postfixed (.primary (.name "a")))
  have hkey := Grammar.Call.some (f := "size") (.one hname)
  have hcurrent : Grammar.Argument [.mark .current] .current :=
    .value (pipeline_of_postfixed (.primary .current))
  have hreference := Grammar.Argument.reference (pipeline_of_postfixed (.primary (.call hkey)))
  have hcall := Grammar.Call.some (f := "max_by") (.more hcurrent (.one hreference))
  have hparse : parse "max_by(@, &size(a))" 11 = .ok
      (.call "max_by" [.current, .reference (.call "size" [.identifier "a"])]) :=
    parse_of_cut hcut (by decide) (pipeline_of_postfixed (.primary (.call hcall)))
  refine ⟨_, hparse, by decide, fun document failure hfailure => ?_⟩
  have hnames : (call "max_by" [.current, .reference (.call "size" [.identifier "a"])]).referencedFunctions =
      ["max_by", "size"] := by decide
  have hcause := ((evaluate_failures hparse (by decide) (.ample 0) document).1 failure hfailure).1
  rw [hnames] at hcause
  rcases hcause with ⟨f, hf, hfunction, -⟩ | ⟨-, f, hf, hover⟩ | ⟨-, hf⟩ | ⟨⟨_, hout⟩, -⟩
  · simpa [hfunction] using hf
  · exact absurd hover ((by decide : ∀ f ∈ ["max_by", "size"], f ∉ Builtin.overflowing) f hf)
  · exact absurd hf (by decide)
  · cases hout

/-- A comparison, which calls no function, on a machine whose stack gives out on comparing a document. -/
theorem evaluate_without_calls_fails : ∃ e, parse "@ == @" 3 = .ok e ∧ e.referencedFunctions = [] ∧ e.height ≤ 3 ∧
    evaluate (.plainOn ⟨fun place => place.level = 0, 0⟩ Builtin.table 3) e (.array [.array []]) =
      .error (.exhausted 3) ∧
    (EvalError.exhausted 3).kind? = some .tooDeep := by
  have hcut : Cut "@ == @".toList [.mark .current, .mark (.comparator .eq), .mark .current] := by decide +kernel
  have hcurrent : Grammar.Postfixed [.mark .current] current := .primary .current
  have hcompare := Grammar.Operands.comparison .eq (.postfixed hcurrent) hcurrent
  have hparse : parse "@ == @" 3 = .ok (.comparison .eq .current .current) := parse_of_cut hcut (by decide)
    (.disjunction (.conjunction (.comparison (.operands hcompare))))
  exact ⟨_, hparse, by decide, by decide, rfl, rfl⟩

/-! ### Integers that are too large or too long -/

/-- A call of a function on the current value is the function applied to the document. -/
theorem evaluate_call_current {name : String} {f : Function Empty}
    (hf : Members.get? name Builtin.table = some f) (hlimit : 2 ≤ limit) (document : Json) :
    evaluate (.plain Builtin.table limit) (call name [current]) document = f.invoke [.value document] := by
  have hplace : ¬ (builtins limit).limit < (Place.root.child 0).level + 1 := by
    show ¬ limit < (0 + 1 : Nat) + 1
    omega
  rw [evaluate_eq_valueAt]
  exact valueAt_call_value hf (valueAt_current hplace document) fun r => r.elim

/-- A document at which a function meets an integer. -/
def numericArgument (n : Int) (function : String) : Json :=
  if function = "avg" ∨ function = "sum" then .array [.int n, .number (.double (Double.zero false))] else .int n

/-- The four functions overflow at an integer that is too large for a double. -/
theorem evaluate_overflow {n : Int} (hn : Double.ofInt? n = none) (hlimit : 2 ≤ limit) :
    ∀ f ∈ Builtin.overflowing, evaluate (.plain Builtin.table limit) (call f [current]) (numericArgument n f) =
      .error (.overflow .conversion) := by
  simp only [Builtin.overflowing, List.forall_mem_cons, List.not_mem_nil, false_implies, implies_true, and_true]
  refine ⟨?_, ?_, ?_, ?_⟩
  · rw [evaluate_call_current (f := Builtin.aggregate "avg" Builtin.avg) rfl hlimit]
    exact (Builtin.invoke_aggregate ..).trans (Builtin.avg_overflow hn _)
  · rw [evaluate_call_current (f := Builtin.numeric "ceil" (Builtin.whole Double.ceil?)) rfl hlimit]
    exact (Builtin.invoke_numeric ..).trans (congrArg (Except.map Value.number) (Builtin.whole_overflow hn _))
  · rw [evaluate_call_current (f := Builtin.numeric "floor" (Builtin.whole Double.floor?)) rfl hlimit]
    exact (Builtin.invoke_numeric ..).trans (congrArg (Except.map Value.number) (Builtin.whole_overflow hn _))
  · rw [evaluate_call_current (f := Builtin.aggregate "sum" fun xs => (Builtin.sum xs).map .number) rfl hlimit]
    exact (Builtin.invoke_aggregate ..).trans (congrArg (Except.map Value.number) (Builtin.sum_overflow hn _))

/-- One function has no text for an integer that is too long. -/
theorem evaluate_overlong {n : Int} (hn : 10 ^ digitLimit ≤ n.natAbs) (hlimit : 2 ≤ limit) :
    evaluate (.plain Builtin.table limit) (call "to_string" [current]) (.int n) = .error .overlong := by
  have hlong : ¬ (Number.int n).isWritable = true := by
    rw [Number.isWritable_int, Nat.not_lt]
    exact hn
  have hkind : (Value.int n : Json).kind ≠ .expression := nofun
  rw [evaluate_call_current (f := Builtin.unary "to_string" [.any] Builtin.toString) rfl hlimit, Builtin.invoke_unary,
    if_pos (Builtin.accepts_any hkind), Builtin.toString_int, if_neg hlong]

theorem parse_call_current {f : String} (hname : Lexeme.isName f = true) (hlimit : 4 ≤ limit) :
    parse (f ++ "(@)") limit = .ok (call f [current]) := by
  have hargument : Separate [.mark .lparen, .mark .current, .mark .rparen] :=
    separate_cons trivial (fun _ => rfl) (separate_cons trivial (fun _ => rfl)
      (separate_cons trivial (fun _ => rfl) trivial))
  have hseparate : Separate [.name f, .mark .lparen, .mark .current, .mark .rparen] :=
    ⟨hname, fun c hc => by cases hc; rfl, hargument⟩
  have hcut := cut_of_separate hseparate
  have hspellings : spellings [.name f, .mark .lparen, .mark .current, .mark .rparen] =
      (f ++ "(@)").toList := by
    rw [String.toList_append]
    rfl
  rw [hspellings] at hcut
  have hcurrent : Grammar.Argument [.mark .current] .current :=
    .value (pipeline_of_postfixed (.primary .current))
  exact parse_of_cut hcut hlimit (pipeline_of_postfixed (.primary (.call (.some (.one hcurrent)))))

theorem referencedFunctions_call_current (f : String) : (call f [current]).referencedFunctions = [f] := by
  show [f].eraseDups = [f]
  simp [List.eraseDups_cons]

/-- Each function that may fail otherwise than a query does so at some document. -/
theorem evaluate_escapes (hlimit : 2 ≤ limit) : ∀ f ∈ Builtin.escaping, ∃ document failure,
    evaluate (.plain Builtin.table limit) (call f [current]) document = .error failure ∧ failure.kind? = none := by
  refine List.forall_mem_cons.2 ⟨⟨.int ((10 ^ digitLimit : Nat) : Int), .overlong, ?_, rfl⟩, fun f hf => ?_⟩
  · exact evaluate_overlong (Nat.le_of_eq (Int.natAbs_natCast _).symm) hlimit
  · exact ⟨_, _, evaluate_overflow (n := Int.pow 10 309) (by decide +kernel) hlimit f hf, rfl⟩

/-- On any machine and under any limit a failure is one of a query, or one that escapes from a function. -/
theorem evaluate_kind_or_escapes (h : parse text bound = .ok e) (stack : EvaluatorStack) (limit : Int)
    (document : Json) : FailsOnly
      (fun failure => failure.kind?.isSome ∨ ∃ f ∈ e.referencedFunctions, Builtin.Escapes f failure)
      (evaluate (.plainOn stack Builtin.table limit) e document) := by
  rcases evaluate_eq_or ofBuiltins_table stack limit e document with hsame | ⟨failure, hfailure, hstack⟩
  · rw [hsame]
    exact evaluate_failsOnly h (fun f hf _ hblames => hblames.isSome_or_escapes.imp_right fun h => ⟨f, hf, h⟩)
      (.inl (.inl rfl)) document
  · rw [hfailure]
    obtain ⟨-, rfl⟩ := hstack
    exact .inl rfl

/-- Whatever a text that is accepted calls, whatever the machine, the limit and the document, evaluation is contained
    but for an overflow of one of four functions and for an integer that is too long for a fifth to write. And they have
    to be avoided, each of them: all texts that call only functions that are allowed are contained just if none of the
    five is allowed. -/
theorem evaluate_contained (allowed : String → Prop) :
    (∀ text bound e, parse text bound = .ok e → ∀ (stack : EvaluatorStack) limit document failure,
      evaluate (.plainOn stack Builtin.table limit) e document = .error failure →
      failure.kind?.isSome ∨ ∃ f ∈ e.referencedFunctions, Builtin.Escapes f failure) ∧
    ((∀ text bound e, parse text bound = .ok e → (∀ f ∈ e.referencedFunctions, allowed f) →
        ∀ (stack : EvaluatorStack) limit document,
          Contained (evaluate (.plainOn stack Builtin.table limit) e document)) ↔
      ∀ f ∈ Builtin.escaping, ¬ allowed f) := by
  refine ⟨fun text bound e he stack limit document =>
      failsOnly_iff.1 (evaluate_kind_or_escapes he stack limit document),
    fun h f hf hallowed => ?_, ?_⟩
  · have hname : Lexeme.isName f = true := (by decide : ∀ f ∈ Builtin.escaping, Lexeme.isName f) f hf
    have hcalls : ∀ g ∈ (call f [current]).referencedFunctions, allowed g := by
      rw [referencedFunctions_call_current]
      exact List.forall_mem_singleton.2 hallowed
    have hparse := parse_call_current hname (Int.le_refl 4)
    obtain ⟨document, failure, hfailure, hkind⟩ := evaluate_escapes (Int.le_refl 2) f hf
    have hcontained := h _ 4 _ hparse hcalls (.ample 0) 2 _ _ hfailure
    rw [hkind] at hcontained
    cases hcontained
  · intro h text bound e he hcalls stack limit document failure hfailure
    refine (failsOnly_iff.1 (evaluate_kind_or_escapes he stack limit document) failure hfailure).resolve_right ?_
    rintro ⟨f, hf, hescapes⟩
    exact h f hescapes.mem_escaping (hcalls f hf)

/-- The magnitude of an integer is found even where the integer is too large for a double. -/
theorem evaluate_contained_abs :
    Contained (evaluate (.plainOn (.ample 0) Builtin.table 2) (call "abs" [current]) (.int (Int.pow 10 309))) := by
  have hcalls : ∀ f ∈ (call "abs" [current]).referencedFunctions, f = "abs" := by
    rw [referencedFunctions_call_current]
    exact List.forall_mem_singleton.2 rfl
  exact (evaluate_contained (· = "abs")).2.2 (by decide) _ 4 _
    (parse_call_current (f := "abs") rfl (Int.le_refl 4)) hcalls (.ample 0) 2 _

/-- The least power of ten that is too large for a double cannot be rounded up, whole as it is. -/
theorem search_ceil_enormous :
    search "ceil(@)" (.int (Int.pow 10 309)) 128 = .error (.evaluation (.overflow .conversion)) := by
  have hparse : parse "ceil(@)" 128 = .ok (call "ceil" [current]) :=
    parse_call_current (f := "ceil") rfl (by decide)
  have hx : evaluate (.plain Builtin.table 128) (call "ceil" [current]) (.int (Int.pow 10 309)) =
      .error (.overflow .conversion) := evaluate_overflow (by decide +kernel) (by decide) "ceil" (by decide)
  rw [search_eq, hparse]
  dsimp only
  rw [hx]
  rfl

end Expr
end JsonQuery
