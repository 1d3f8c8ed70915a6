import JsonQuery.Eval.Error

/-! Outcomes of computations that may fail. `Ends Q P x` says that the result of `x` satisfies `Q` if there is
    one, and that the failure satisfies `P` if there is none. Such a statement about the parts of a
    computation that are done one after the other gives one about the whole. -/

namespace JsonQuery

variable {α β : Type} {Q : α → Prop} {Q' : β → Prop} {P P' : EvalError → Prop}

/-- An outcome whose result satisfies `Q`, or whose failure satisfies `P`. -/
def Ends (Q : α → Prop) (P : EvalError → Prop) : Except EvalError α → Prop
  | .ok a => Q a
  | .error e => P e

/-- An outcome with any result, or whose failure satisfies `P`. -/
abbrev FailsOnly (P : EvalError → Prop) : Except EvalError α → Prop := Ends (fun _ => True) P

theorem FailsOnly.ok (a : α) : FailsOnly P (.ok a) := trivial

theorem failsOnly_iff {x : Except EvalError α} : FailsOnly P x ↔ ∀ e, x = .error e → P e := by
  cases x with
  | ok a => simp [FailsOnly, Ends]
  | error e => simp [FailsOnly, Ends]

/-- Outcomes whose failures are not those of depth. -/
def Shallow (x : Except EvalError α) : Prop := ∀ e, x = .error e → e.kind? ≠ some .tooDeep

theorem shallow_iff {x : Except EvalError α} : Shallow x ↔ FailsOnly (·.kind? ≠ some .tooDeep) x :=
  failsOnly_iff.symm

namespace Ends

variable {x : Except EvalError α} {f : α → Except EvalError β}

theorem mono {Q₁ : α → Prop} (h : Ends Q P x) (hQ : ∀ a, Q a → Q₁ a) (hP : ∀ e, P e → P' e) : Ends Q₁ P' x := by
  cases x with
  | ok a => exact hQ a h
  | error e => exact hP e h

theorem bind (h : Ends Q P x) (hf : ∀ a, Q a → Ends Q' P (f a)) : Ends Q' P (x >>= f) := by
  cases x with
  | ok a => exact hf a h
  | error e => exact h

theorem map (h : Ends Q P x) {k : α → β} (hk : ∀ a, Q a → Q' (k a)) : Ends Q' P (x.map k) := by
  cases x with
  | ok a => exact hk a h
  | error e => exact h

end Ends

/-! ### Results -/

section
variable {ε ε' α β : Type} {x : Except ε α} {a : α} {b : β}

theorem mapError_eq_ok {f : ε → ε'} (h : x.mapError f = .ok a) : x = .ok a := by
  cases x with
  | error e => cases h
  | ok a' => exact congrArg Except.ok (Except.ok.inj h)

theorem exists_of_map_eq_ok {f : α → β} (h : x.map f = .ok b) : ∃ a, x = .ok a ∧ f a = b := by
  cases x with
  | error e => cases h
  | ok a => exact ⟨a, rfl, Except.ok.inj h⟩

theorem exists_of_bind_eq_ok {f : α → Except ε β} (h : x >>= f = .ok b) : ∃ a, x = .ok a ∧ f a = .ok b := by
  cases x with
  | error e => cases h
  | ok a => exact ⟨a, rfl, h⟩

end

end JsonQuery
