import JsonQuery.Proofs.Settings.Readers

/-! Settings files as layers. A file that is not there or is passed over is an empty layer; one of which the value and
    the sections are objects is a regular layer. -/

namespace JsonQuery.Settings

open Layer (Regular sectionNames)

variable {readers : Readers} {place : FilePlace}

/-- The members that a file adds to the layers. -/
def fileMembers (readers : Readers) (place : FilePlace) : Members Json :=
  match (fileValue readers place).outcome with
  | .ok (.object ms) => ms
  | _ => []

/-- A file that is not there, is passed over, or holds an object of which the sections are objects. -/
structure HoldsLayer (readers : Readers) (place : FilePlace) : Prop where
  object : ∃ ms, (fileValue readers place).outcome = .ok (.object ms)
  sections : ∀ name ∈ sectionNames, ∀ v, (fileMembers readers place).get? name = some v → ∃ ms, v = .object ms

instance : Decidable (HoldsLayer readers place) :=
  decidable_of_iff (((fileValue readers place).outcome.toOption.bind Value.members?).isSome = true ∧
      ∀ name ∈ sectionNames, ∀ v ∈ (fileMembers readers place).get? name, ∃ ms, v = .object ms) <| by
    refine ⟨fun ⟨hobject, hsections⟩ => ⟨?_, hsections⟩,
      fun ⟨⟨ms, hobject⟩, hsections⟩ => ⟨by rw [hobject]; rfl, hsections⟩⟩
    cases houtcome : (fileValue readers place).outcome with
    | error e =>
      rw [houtcome] at hobject
      cases hobject
    | ok v =>
      rw [houtcome] at hobject
      obtain ⟨ms, rfl⟩ := Value.isSome_members?.1 hobject
      exact ⟨ms, rfl⟩

/-- An object that a file adds has no key twice, and neither have the objects in it. -/
theorem Readers.Laws.distinct_fileValue (hlaws : readers.Laws) {ms : Members Json}
    (h : (fileValue readers place).outcome = .ok (.object ms)) :
    ms.Distinct ∧ ∀ p ∈ ms, ∀ inner, p.2 = .object inner → Members.Distinct inner := by
  have hempty : Value.object ms = .object [] →
      ms.Distinct ∧ ∀ p ∈ ms, ∀ inner, p.2 = .object inner → Members.Distinct inner := by
    intro heq
    cases heq
    exact ⟨List.nodup_nil, nofun⟩
  unfold fileValue at h
  split at h
  next => exact hempty (Except.ok.inj h).symm
  next =>
    split at h
    next => exact hempty (Except.ok.inj h).symm
    next v hv =>
      have hvalue := Except.ok.inj h
      split at hvalue
      next => exact hempty hvalue.symm
      next =>
        subst hvalue
        exact hlaws.file hv
    next => cases h

namespace HoldsLayer

theorem outcome (h : HoldsLayer readers place) :
    (fileValue readers place).outcome = .ok (.object (fileMembers readers place)) := by
  obtain ⟨ms, hms⟩ := h.object
  rw [fileMembers, hms]

theorem regular (h : HoldsLayer readers place) (hlaws : readers.Laws) : Regular (fileMembers readers place) := by
  obtain ⟨hdistinct, hinner⟩ := hlaws.distinct_fileValue h.outcome
  refine ⟨hdistinct, fun name hname v hv => ?_⟩
  obtain ⟨inner, rfl⟩ := h.sections name hname v hv
  exact ⟨inner, rfl, hinner _ (Members.mem_of_get? hv) inner rfl⟩

end HoldsLayer
end JsonQuery.Settings
