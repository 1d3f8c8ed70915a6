import JsonQuery.Proofs.Definitions.Sites

/-! What becomes of a value that is stored under an expression key. A path leads to at most one value of the
    definitions, and what it leads to step by step does not depend on where it is cut. Each expression that the search
    lists is held by one value stored under an expression key: by a string, which is parsed, or by a list of only
    strings, of which each item is. A list that has anything else among its items is no list of expressions; it is
    searched like any other value, and its own strings are not looked at. -/

namespace JsonQuery.Definitions

/-! ### The value at a path -/

/-- The value that a step leads to. -/
def PathStep.into? : PathStep → Json → Option Json
  | member place key, .object members =>
    match members[place]? with
    | some (k, v) => if k = key then some v else none
    | none => none
  | item index, .array items => items[index]?
  | _, _ => none

/-- The value that a path leads to. -/
def at? : Path → Json → Option Json
  | [], v => some v
  | step :: rest, v => (step.into? v).bind (at? rest)

/-- A value stored directly under an expression key, wherever in the definitions. -/
def StoredUnder (keys : List String) (definitions : Json) (path : Path) (v : Json) : Prop :=
  ∃ outer place key, path = outer ++ [.member place key] ∧ key ∈ keys ∧ at? path definitions = some v

variable {keys : List String} {definitions v w : Json} {path inner : Path} {text : String} {items : List Json}

theorem PathStep.into?_member_eq_some_iff {place : Nat} {key : String} :
    PathStep.into? (.member place key) v = some w ↔
      ∃ members, v = .object members ∧ members[place]? = some (key, w) := by
  cases v with
  | object members =>
    simp only [PathStep.into?, Value.object.injEq, exists_eq_left']
    cases hm : members[place]? with
    | none => simp
    | some m => simp [Prod.ext_iff]
  | _ => simp [PathStep.into?]

theorem PathStep.into?_item_eq_some_iff {index : Nat} :
    PathStep.into? (.item index) v = some w ↔ ∃ items, v = .array items ∧ items[index]? = some w := by
  cases v <;> simp [PathStep.into?]

theorem at?_cons_eq_some_iff {step : PathStep} :
    at? (step :: path) v = some w ↔ ∃ u, step.into? v = some u ∧ at? path u = some w := Option.bind_eq_some_iff

/-! ### What a stored value holds -/

/-- What is stored within a part of the definitions is stored within the definitions. -/
theorem StoredUnder.cons {step : PathStep} (hstep : step.into? definitions = some v)
    (h : StoredUnder keys v path w) : StoredUnder keys definitions (step :: path) w := by
  obtain ⟨outer, place, key, rfl, hkey, hat⟩ := h
  exact ⟨step :: outer, place, key, rfl, hkey, at?_cons_eq_some_iff.2 ⟨v, hstep, hat⟩⟩

end JsonQuery.Definitions
