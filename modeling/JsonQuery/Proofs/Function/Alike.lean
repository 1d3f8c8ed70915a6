import JsonQuery.Function.Builtin
import JsonQuery.Proofs.Function.Outcome
import Mathlib.Data.List.Forall2

/-! Functions that do not look into the expressions among their arguments. One outcome follows another if both
    are the same result, or failures that are related in some way, or if the other has been cut off, which
    leaves the one open. The arguments of one call follow those of another if they are the same values, or
    expressions with outcomes of which one follows the other. Every builtin function then has outcomes of which
    one follows the other, whatever the relation, as long as the failures of its own are related to themselves.
    Where nothing is cut off such outcomes are alike. -/

namespace JsonQuery

variable {ρ α β : Type} {cut cut' : EvalError → Prop} {R R' : EvalError → EvalError → Prop}

/-- Outcomes that are the same result, or failures that are related; a failure by which the first one has been
    cut off leaves the second open. -/
inductive Follows (cut : EvalError → Prop) (R : EvalError → EvalError → Prop) :
    Except EvalError α → Except EvalError α → Prop
  | ok (x : α) : Follows cut R (.ok x) (.ok x)
  | error {e e' : EvalError} : R e e' → Follows cut R (.error e) (.error e')
  | cut {e : EvalError} {y : Except EvalError α} : cut e → Follows cut R (.error e) y

/-- Outcomes that are the same result, or failures that are related. -/
abbrev Alike (R : EvalError → EvalError → Prop) : Except EvalError α → Except EvalError α → Prop :=
  Follows (fun _ => False) R

namespace Follows

variable {x y : Except EvalError α} {f g : α → Except EvalError β}

theorem bind (h : Follows cut R x y) (hf : ∀ a, Follows cut R (f a) (g a)) :
    Follows cut R (x >>= f) (y >>= g) := by
  cases h with
  | ok a => exact hf a
  | error he => exact .error he
  | cut he => exact .cut he

theorem self (h : FailsOnly (fun e => R e e) x) : Follows cut R x x := by
  cases x with
  | ok a => exact .ok a
  | error e => exact .error h

theorem refl (hR : ∀ e, R e e) (x : Except EvalError α) : Follows cut R x x :=
  .self (failsOnly_iff.2 fun e _ => hR e)

theorem mapM {f g : α → Except EvalError β} (h : ∀ a, Follows cut R (f a) (g a)) : ∀ xs : List α,
    Follows cut R (xs.mapM f) (xs.mapM g) := by
  intro xs
  induction xs with
  | nil => exact .ok []
  | cons x xs ih =>
    rw [List.mapM_cons, List.mapM_cons]
    exact (h x).bind fun y => ih.bind fun ys => .ok (y :: ys)

theorem filterM {f g : α → Except EvalError Bool} (h : ∀ a, Follows cut R (f a) (g a)) (xs : List α) :
    Follows cut R (xs.filterM f) (xs.filterM g) := by
  have hrun : ∀ xs acc : List α, Follows cut R (xs.filterAuxM f acc) (xs.filterAuxM g acc) := by
    intro xs
    induction xs with
    | nil => exact fun acc => .ok acc
    | cons x xs ih => exact fun acc => (h x).bind fun b => ih (cond b (x :: acc) acc)
  exact (hrun xs []).bind fun ys => .ok ys.reverse

/-- Where failures are equal what follows an outcome is the same, or the outcome has been cut off. -/
theorem eq_or_cut (h : Follows cut Eq x y) : y = x ∨ ∃ e, x = .error e ∧ cut e := by
  cases h with
  | ok a => exact .inl rfl
  | error he => exact .inl (by rw [he])
  | cut he => exact .inr ⟨_, rfl, he⟩

/-- Where failures are equal what follows an outcome that has not been cut off is the same. -/
theorem eq_of_failsOnly (h : Follows cut Eq x y) (hx : FailsOnly (fun e => ¬ cut e) x) : y = x := by
  refine h.eq_or_cut.resolve_right ?_
  rintro ⟨e, rfl, he⟩
  exact hx he

end Follows

namespace Alike

variable {x y : Except EvalError α} {f g : α → Except EvalError β} {P : EvalError → Prop}

/-- An outcome is alike to itself under equality of certain failures just if it has no others. -/
theorem self_iff : Alike (fun e e' => e = e' ∧ P e) x x ↔ FailsOnly P x := by
  constructor
  · rintro (⟨_⟩ | ⟨_, he⟩ | he)
    · trivial
    · exact he
    · exact he.elim
  · exact fun h => .self (h.mono (fun _ _ => trivial) fun _ he => ⟨rfl, he⟩)

theorem eq_of (h : Alike R x y) (hR : ∀ e e', R e e' → e = e') : x = y := by
  cases h with
  | ok a => rfl
  | error he => rw [hR _ _ he]
  | cut he => exact he.elim

theorem toOption_eq (h : Alike R x y) : x.toOption = y.toOption := by
  cases h with
  | ok a => rfl
  | error he => rfl
  | cut he => exact he.elim

theorem of_toOption_eq (h : x.toOption = y.toOption) : Alike (fun _ _ => True) x y := by
  cases x with
  | ok a =>
    cases y with
    | ok b =>
      cases h
      exact .ok a
    | error e => cases h
  | error e =>
    cases y with
    | ok b => cases h
    | error e' => exact .error trivial

end Alike

/-- Arguments that are the same value, or expressions known by the same with outcomes of which one follows the
    other. -/
inductive Argument.Follows (cut : EvalError → Prop) (R : EvalError → EvalError → Prop) :
    Argument ρ → Argument ρ → Prop
  | value (v : Value ρ) : Argument.Follows cut R (.value v) (.value v)
  | expression {known : Option ρ} {f g : Nat → Value ρ → Except EvalError (Value ρ)} :
    (∀ n v, JsonQuery.Follows cut R (f n v) (g n v)) →
    Argument.Follows cut R (.expression known f) (.expression known g)

/-- Arguments that are the same value, or expressions with alike outcomes. -/
abbrev Argument.Alike (R : EvalError → EvalError → Prop) : Argument ρ → Argument ρ → Prop :=
  Argument.Follows (fun _ => False) R

/-- Arguments that are alike under equality are the same. -/
theorem Argument.Alike.eq_of {a a' : Argument ρ} (h : Argument.Alike R a a') (hR : ∀ e e', R e e' → e = e') :
    a = a' := by
  cases h with
  | value v => rfl
  | expression hf => exact congrArg _ (funext fun n => funext fun v => JsonQuery.Alike.eq_of (hf n v) hR)

theorem Argument.Alike.args_eq {args args' : List (Argument ρ)} (h : List.Forall₂ (Argument.Alike R) args args')
    (hR : ∀ e e', R e e' → e = e') : args = args' := by
  induction h with
  | nil => rfl
  | cons ha _ ih => rw [Argument.Alike.eq_of ha hR, ih]

/-! ### Checks and calls -/

namespace Function

variable {f : Function ρ}

/-- A function whose outcomes follow each other where its arguments do. -/
def Respects (cut : EvalError → Prop) (R : EvalError → EvalError → Prop) (f : Function ρ) : Prop :=
  ∀ ⦃args args' : List (Argument ρ)⦄, List.Forall₂ (Argument.Follows cut R) args args' →
    Follows cut R (f.compute args) (f.compute args')

theorem accepts_eq (p : ParamType) {a a' : Argument ρ} (h : Argument.Follows cut R a a') :
    p.accepts a = p.accepts a' := by
  cases h with
  | value v => rfl
  | expression _ => cases p <;> rfl

theorem kind_eq {a a' : Argument ρ} (h : Argument.Follows cut R a a') : a.kind = a'.kind := by
  cases h <;> rfl

theorem checkFrom_eq {args args' : List (Argument ρ)} (h : List.Forall₂ (Argument.Follows cut R) args args') :
    ∀ place, f.checkFrom place args = f.checkFrom place args' := by
  induction h with
  | nil => exact fun _ => rfl
  | cons ha _ ih =>
    intro place
    simp only [checkFrom, accepts_eq _ ha, kind_eq ha, ih]

/-- Where there are parameters every argument has one. -/
theorem slot?_eq_none_iff {place : Nat} : f.slot? place = none ↔ f.params = [] := by
  rw [slot?, List.getElem?_eq_none_iff, ← List.length_eq_zero_iff]
  omega

/-- A check fails for an argument of the wrong type, since every argument has a parameter. -/
theorem checkFrom_failsOnly {P : EvalError → Prop} (hparams : f.params ≠ [])
    (hP : ∀ position allowed received, P (.wrongArgument f.name position allowed received)) :
    ∀ (args : List (Argument ρ)) (place : Nat), FailsOnly P (f.checkFrom place args) := by
  intro args
  induction args with
  | nil => exact fun _ => trivial
  | cons a rest ih =>
    intro place
    unfold checkFrom
    split
    next h => exact absurd (slot?_eq_none_iff.1 h) hparams
    next allowed _ =>
      split
      next => exact ih (place + 1)
      next => exact hP (place + 1) allowed a.kind

/-- The outcomes of calls follow each other if those of the computations do, and if the failures of the checks
    are related to themselves. -/
theorem Respects.invoke (hparams : f.params ≠ [])
    (hcount : ∀ wanted orMore received, R (.wrongCount f.name wanted orMore received)
      (.wrongCount f.name wanted orMore received))
    (hargument : ∀ position allowed received, R (.wrongArgument f.name position allowed received)
      (.wrongArgument f.name position allowed received))
    (hf : f.Respects cut R) {args args' : List (Argument ρ)}
    (h : List.Forall₂ (Argument.Follows cut R) args args') : Follows cut R (f.invoke args) (f.invoke args') := by
  unfold Function.invoke
  rw [h.length_eq, checkFrom_eq h]
  split
  next => exact (Follows.self (checkFrom_failsOnly hparams hargument args' 0)).bind fun _ => hf h
  next => exact .error (hcount _ _ _)

end Function

end JsonQuery
