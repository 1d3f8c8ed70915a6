import JsonQuery.Proofs.Function.Outcome
import JsonQuery.Proofs.Settings.Readers

/-! Reading settings from what is held for each. Settings that are read take for each the value that is held, as it is
    read, or the default. An object is never a value that can be taken, so of two things that are held and differ in the
    members of an object only, both are taken in the same way or both are refused for the same reason. -/

namespace JsonQuery.Settings

open Layer (Regular sectionNames)

variable {readers : Readers}

/-! ### The settings that are taken -/

/-- Settings have for one of them what is held for it, as it is read, or the default if nothing is held. -/
def Takes (readers : Readers) (s : Settings) : Setting → Option Json → Prop
  | .depth, some v => readDepth readers v = .ok s.maxDepth
  | .depth, none => s.maxDepth = default.maxDepth
  | .keys, some v => readers.texts v = .ok s.expressionKeys
  | .keys, none => s.expressionKeys = default.expressionKeys
  | .verbosity, some v => readers.verbosity v = .ok s.verbosity
  | .verbosity, none => s.verbosity = default.verbosity

theorem RefusesObjects.ne_ok {α : Type} {read : Json → Except SettingFault α} (h : RefusesObjects read)
    (ms : Members Json) (a : α) : read (.object ms) ≠ .ok a := by
  obtain ⟨message, hrefused⟩ := h
  rw [hrefused ms]
  exact nofun

theorem Readers.Laws.refusesObjects_readDepth (hlaws : readers.Laws) : RefusesObjects (readDepth readers) := by
  obtain ⟨message, hrefused⟩ := hlaws.integer
  exact ⟨message, fun ms => by rw [readDepth, hrefused ms]⟩

theorem Takes.not_object (hlaws : readers.Laws) {s : Settings} {x : Setting} {ms : Members Json} :
    ¬ Takes readers s x (some (.object ms)) := by
  cases x with
  | depth => exact hlaws.refusesObjects_readDepth.ne_ok ms _
  | keys => exact hlaws.texts.ne_ok ms _
  | verbosity => exact hlaws.verbosity.ne_ok ms _

theorem eq_of_outline_eq {v w : Json} (h : v.outline = w.outline) (hv : ∀ ms, v ≠ .object ms) : w = v := by
  have hself : v.outline = v := by
    cases v with
    | object ms => exact absurd rfl (hv ms)
    | _ => rfl
  cases w with
  | object ms => exact absurd (hself.symm.trans h) (hv _)
  | _ => exact (hself.symm.trans h).symm

theorem Takes.of_outline (hlaws : readers.Laws) {s : Settings} {x : Setting} {held held' : Option Json}
    (h : Takes readers s x held) (heq : held.map Value.outline = held'.map Value.outline) :
    Takes readers s x held' := by
  cases held with
  | none =>
    cases held' with
    | none => exact h
    | some w => cases heq
  | some v =>
    cases held' with
    | none => cases heq
    | some w =>
      obtain rfl := eq_of_outline_eq (Option.some.inj heq) fun ms hv => Takes.not_object hlaws (hv ▸ h)
      exact h

theorem readDepth_bounds {v : Json} {n : Int} (h : readDepth readers v = .ok n) : 1 ≤ n ∧ n ≤ 256 := by
  unfold readDepth at h
  split at h
  next => cases h
  next m _ =>
    split at h
    next => cases h
    next hone =>
      split at h
      next => cases h
      next hlimit =>
        cases h
        have hlimit : ¬ 256 < n := hlimit
        omega

theorem Takes.depth_bounds {s : Settings} {held : Option Json} (h : Takes readers s .depth held) :
    1 ≤ s.maxDepth ∧ s.maxDepth ≤ 256 := by
  cases held with
  | none =>
    rw [show s.maxDepth = default.maxDepth from h]
    decide
  | some v => exact readDepth_bounds h

/-! ### Reading one setting -/

theorem sectionField_eq {ms : Members Json} (h : Regular ms) {part : String} (hpart : part ∈ sectionNames)
    (kind field : String) :
    sectionField part kind field (ms.get? part) = .ok ((ms.get? part).bind (Value.member? field)) := by
  cases hv : ms.get? part with
  | none => rfl
  | some v =>
    obtain ⟨inner, rfl, -⟩ := h.sections part hpart v hv
    rfl

/-- Settings are read from what is held for each of them, one after the other. -/
theorem ofMembers_eq {ms : Members Json} (h : Regular ms) : ofMembers readers ms = (do
    let depth ← readHeld (readDepth readers) Setting.depth.path (Setting.depth.held fun name => ms.get? name)
    let keys ← readHeld readers.texts Setting.keys.path (Setting.keys.held fun name => ms.get? name)
    let verbosity ← readHeld readers.verbosity Setting.verbosity.path (Setting.verbosity.held fun name => ms.get? name)
    return ⟨depth.getD default.maxDepth, keys.getD default.expressionKeys, verbosity.getD default.verbosity⟩) := by
  rw [ofMembers, depthOf, keysOf, sectionField_eq h (by decide), sectionField_eq h (by decide)]
  rfl

/-- What holds where nothing is held, and where a value is held that is read, holds of all that is held and is read. -/
theorem of_readHeld_eq_ok {α : Type} {P : Option Json → Prop} {read : Json → Except SettingFault α}
    {path : List String} {held : Option Json} {a : Option α} (h : readHeld read path held = .ok a)
    (hnone : a = none → P none) (hsome : ∀ v b, a = some b → read v = .ok b → P (some v)) : P held := by
  cases held with
  | none =>
    cases h
    exact hnone rfl
  | some v =>
    obtain ⟨b, hread, rfl⟩ := exists_of_map_eq_ok (mapError_eq_ok h)
    exact hsome v b rfl hread

/-- Settings that are read take what is held. -/
theorem takes_of_ofMembers {ms : Members Json} {s : Settings} (hms : Regular ms) (h : ofMembers readers ms = .ok s)
    (x : Setting) : Takes readers s x (x.held fun name => ms.get? name) := by
  rw [ofMembers_eq hms] at h
  obtain ⟨depth, hdepth, h⟩ := exists_of_bind_eq_ok h
  obtain ⟨keys, hkeys, h⟩ := exists_of_bind_eq_ok h
  obtain ⟨verbosity, hverbosity, h⟩ := exists_of_bind_eq_ok h
  cases h
  cases x with
  | depth => exact of_readHeld_eq_ok hdepth (by rintro rfl; rfl) (by rintro v b rfl hread; exact hread)
  | keys => exact of_readHeld_eq_ok hkeys (by rintro rfl; rfl) (by rintro v b rfl hread; exact hread)
  | verbosity => exact of_readHeld_eq_ok hverbosity (by rintro rfl; rfl) (by rintro v b rfl hread; exact hread)

/-! ### Two readings -/

/-- Two outcomes of reading settings that are the same; or in both an object is refused for a setting for which an
    object is held, by faults that differ in the object at most. -/
def SameButObjects {α : Type} (held : Setting → Option Json) (a b : Except SettingFault α) : Prop :=
  a = b ∨ ∃ x message ms ms', (held x).map Value.outline = some (.object []) ∧
    a = .error ⟨message, x.path, .object ms⟩ ∧ b = .error ⟨message, x.path, .object ms'⟩

theorem SameButObjects.bind {α β : Type} {held : Setting → Option Json} {a b : Except SettingFault α}
    {f g : α → Except SettingFault β} (h : SameButObjects held a b) (hf : ∀ y, SameButObjects held (f y) (g y)) :
    SameButObjects held (a >>= f) (b >>= g) := by
  rcases h with rfl | ⟨x, message, ms, ms', hx, rfl, rfl⟩
  · cases a with
    | error e => exact .inl rfl
    | ok y => exact hf y
  · exact .inr ⟨x, message, ms, ms', hx, rfl, rfl⟩

/-- A reader that refuses all objects reads alike what differs in the members of an object only. -/
theorem RefusesObjects.sameButObjects {α : Type} {read : Json → Except SettingFault α} (hread : RefusesObjects read)
    {held : Setting → Option Json} (x : Setting) {v w : Option Json} (h : v.map Value.outline = w.map Value.outline)
    (hv : v.map Value.outline = (held x).map Value.outline) :
    SameButObjects held (readHeld read x.path v) (readHeld read x.path w) := by
  obtain ⟨message, hrefused⟩ := hread
  have hobject : ∀ ms, readHeld read x.path (some (.object ms)) = .error ⟨message, x.path, .object ms⟩ := by
    intro ms
    have hunder : SettingFault.under x.path ⟨message, [], .object ms⟩ = ⟨message, x.path, .object ms⟩ := by
      rw [SettingFault.under, List.append_nil]
    rw [readHeld, hrefused ms]
    exact congrArg Except.error hunder
  cases v with
  | none =>
    cases w with
    | none => exact .inl rfl
    | some w => cases h
  | some v =>
    cases w with
    | none => cases h
    | some w =>
      have houtline := Option.some.inj h
      cases v with
      | object ms =>
        cases w with
        | object ms' => exact .inr ⟨x, message, ms, ms', hv.symm, hobject ms, hobject ms'⟩
        | _ => cases houtline
      | _ =>
        obtain rfl := eq_of_outline_eq houtline (by exact fun _ => nofun)
        exact .inl rfl

/-- From two layers that hold the same for each setting, but for members of objects, the same is read. -/
theorem ofMembers_sameButObjects (hlaws : readers.Laws) {held : Setting → Option Json} {ms ms' : Members Json}
    (hms : Regular ms) (hms' : Regular ms')
    (h : ∀ x : Setting, (x.held fun name => ms.get? name).map Value.outline = (held x).map Value.outline)
    (h' : ∀ x : Setting, (x.held fun name => ms'.get? name).map Value.outline = (held x).map Value.outline) :
    SameButObjects held (ofMembers readers ms) (ofMembers readers ms') := by
  rw [ofMembers_eq hms, ofMembers_eq hms']
  refine .bind (hlaws.refusesObjects_readDepth.sameButObjects .depth ((h _).trans (h' _).symm) (h _)) fun depth => ?_
  refine .bind (hlaws.texts.sameButObjects .keys ((h _).trans (h' _).symm) (h _)) fun keys => ?_
  exact .bind (hlaws.verbosity.sameButObjects .verbosity ((h _).trans (h' _).symm) (h _)) fun verbosity => .inl rfl

end JsonQuery.Settings
