import JsonQuery.Proofs.Json.Members
import JsonQuery.Settings.Field

/-! What is set by layers. A layer is regular if no key stands twice in it and its sections are objects of which the
    same is true. Of two regular layers, one over the other, each setting has the value that the upper one holds for
    it, or else that of the lower one; only where the upper one holds an object may the lower one add to its members.
    No setting can be an object, so what is read from layers depends on objects in what is said about them at most. -/

namespace JsonQuery

/-- The value of a key of an object. -/
def Value.member? {ρ : Type} (key : String) (v : Value ρ) : Option (Value ρ) := v.members?.bind (Members.get? key)

/-- A value but for the members of an object. -/
def Value.outline {ρ : Type} : Value ρ → Value ρ
  | .object _ => .object []
  | v => v

theorem Value.isSome_members? {ρ : Type} {v : Value ρ} : v.members?.isSome = true ↔ ∃ ms, v = .object ms := by
  cases v <;> simp [Value.members?]

instance {ρ : Type} (v : Value ρ) : Decidable (∃ ms, v = .object ms) := decidable_of_iff _ Value.isSome_members?

instance {ρ : Type} (v : Value ρ) : Decidable (∃ ms : Members (Value ρ), v = .object ms ∧ ms.Distinct) :=
  decidable_of_iff (∃ ms ∈ v.members?, ms.Distinct) <| by
    cases v <;> simp [Value.members?]

instance {ρ : Type} (o : Option (Value ρ)) : Decidable (∃ ms, o = some (.object ms)) :=
  decidable_of_iff (∃ v ∈ o, ∃ ms, v = .object ms) <| by
    cases o <;> simp

/-- What can be set. -/
inductive Setting where
  | depth
  | keys
  | verbosity
  deriving DecidableEq

namespace Setting

/-- The path of a setting. -/
def path : Setting → List String
  | depth => ["engine", "max_depth"]
  | keys => ["validation", "expression_keys"]
  | verbosity => ["verbosity"]

/-- The name of a setting or of its section. -/
def name : Setting → String
  | depth => "engine"
  | keys => "validation"
  | verbosity => "verbosity"

/-- What is held for a setting, given what is found under each name. -/
def held (found : String → Option Json) : Setting → Option Json
  | depth => (found "engine").bind (Value.member? "max_depth")
  | keys => (found "validation").bind (Value.member? "expression_keys")
  | verbosity => found "verbosity"

end Setting

namespace Layer

open Members

variable {high low : Members Json}

/-! ### Two layers -/

theorem outline_overValue (v : Json) (below : Option Json) : (overValue v below).outline = v.outline := by
  cases v <;> cases below <;> try rfl
  next w => cases w <;> rfl

theorem distinct_overlay (h : Distinct low) : Distinct (overlay high low) := by
  induction high generalizing low with
  | nil => exact h
  | cons p rest ih =>
    rw [overlay]
    exact ih (distinct_put _ h)

/-- The value of a key in a layer over another. -/
theorem get?_overlay (h : Distinct high) (key : String) : get? key (overlay high low) =
    match get? key high with
    | some v => some (overValue v (get? key low))
    | none => get? key low := by
  induction high generalizing low with
  | nil => rfl
  | cons p rest ih =>
    have hrest := List.nodup_cons.1 h
    rw [overlay, ih hrest.2, get?_put, get?]
    by_cases hkey : p.1 = key
    · rw [if_pos hkey, if_pos hkey, get?_eq_none.2 (hkey ▸ hrest.1), hkey]
    · rw [if_neg hkey, if_neg hkey]

/-- The names of the sections. -/
def sectionNames : List String := ["engine", "validation"]

/-- A layer without repeated keys of which the sections are objects without repeated keys. -/
structure Regular (ms : Members Json) : Prop where
  distinct : Distinct ms
  sections : ∀ name ∈ sectionNames, ∀ v, get? name ms = some v → ∃ inner, v = .object inner ∧ Distinct inner

theorem Regular.nil : Regular [] := ⟨List.nodup_nil, fun _ _ _ => nofun⟩

theorem Regular.overlay (hhigh : Regular high) (hlow : Regular low) : Regular (overlay high low) := by
  refine ⟨distinct_overlay hlow.distinct, fun name hname v hv => ?_⟩
  rw [get?_overlay hhigh.distinct] at hv
  split at hv
  next w hw =>
    obtain ⟨inner, rfl, hinner⟩ := hhigh.sections name hname w hw
    cases hbelow : get? name low with
    | none =>
      rw [hbelow] at hv
      exact ⟨inner, (Option.some.inj hv).symm, hinner⟩
    | some w =>
      obtain ⟨below, rfl, hdistinct⟩ := hlow.sections name hname w hbelow
      rw [hbelow] at hv
      exact ⟨_, (Option.some.inj hv).symm, distinct_overlay hdistinct⟩
  next => exact hlow.sections name hname v hv

theorem member?_overlay (hhigh : Regular high) (hlow : Regular low) {name : String} (hname : name ∈ sectionNames)
    (key : String) : ((get? name (overlay high low)).bind (Value.member? key)).map Value.outline =
      (((get? name high).bind (Value.member? key)).or ((get? name low).bind (Value.member? key))).map
        Value.outline := by
  rw [get?_overlay hhigh.distinct]
  cases hv : get? name high with
  | none => rfl
  | some v =>
    obtain ⟨inner, rfl, hinner⟩ := hhigh.sections name hname v hv
    cases hw : get? name low with
    | none =>
      rw [Option.bind_none, Option.or_none]
      rfl
    | some w =>
      obtain ⟨below, rfl, -⟩ := hlow.sections name hname w hw
      show (get? key (Layer.overlay inner below)).map Value.outline = ((get? key inner).or (get? key below)).map _
      rw [get?_overlay hinner]
      cases get? key inner with
      | none => rfl
      | some x => exact congrArg some (outline_overValue x _)

/-- A setting has the value of the upper layer, but for members of an object, or else that of the lower one. -/
theorem held_overlay (hhigh : Regular high) (hlow : Regular low) (x : Setting) :
    (x.held fun name => get? name (overlay high low)).map Value.outline =
      ((x.held fun name => get? name high).or (x.held fun name => get? name low)).map Value.outline := by
  cases x with
  | depth => exact member?_overlay hhigh hlow (by decide) _
  | keys => exact member?_overlay hhigh hlow (by decide) _
  | verbosity =>
    show (get? "verbosity" (overlay high low)).map _ = ((get? "verbosity" high).or (get? "verbosity" low)).map _
    rw [get?_overlay hhigh.distinct]
    cases get? "verbosity" high with
    | none => rfl
    | some v => exact congrArg some (outline_overValue v _)

end Layer
end JsonQuery
