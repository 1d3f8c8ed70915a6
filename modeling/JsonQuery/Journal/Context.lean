import JsonQuery.Json.Basic

/-! The context that is bound to every event of a journal. It can be bound to and cleared, and a context can be
    entered for a while: that saves what its keys hold, those with a null value apart, and binds them; leaving it
    gives them back what was saved. Contexts are left in the reverse of the order in which they were entered. What
    is bound is kept by a store, which has its own way of saving. -/

namespace JsonQuery

/-- What keeps the bound members: it binds more of them, clears them, saves what some keys hold as a `σ`, and gives
    back what has been saved. -/
structure ContextStore (σ : Type) where
  bind : Members Json → Members Json → Members Json
  clear : Members Json → Members Json
  save : Members Json → List String → σ
  giveBack : Members Json → σ → Members Json

namespace ContextStore

/-- Gives a key what it held. -/
def restore (bound : Members Json) : String × Option Json → Members Json
  | (k, some v) => bound.put k v
  | (k, none) => bound.erase k

/-- A store of members in the order in which they were bound, that saves for each key what it held. -/
def inOrder : ContextStore (List (String × Option Json)) where
  bind bound more := bound.union more
  clear _ := []
  save bound keys := keys.map fun k => (k, bound.get? k)
  giveBack bound saved := saved.foldl restore bound

end ContextStore

/-- What is bound, and for every context that has been entered, the innermost first, what was saved. -/
structure LogContext (σ : Type) where
  bound : Members Json
  entered : List σ

namespace LogContext

variable {σ : Type} (store : ContextStore σ)

/-- Nothing is bound and no context entered. -/
def empty : LogContext σ := ⟨[], []⟩

/-- Binds keys on top of what is bound. -/
def bind (c : LogContext σ) (more : Members Json) : LogContext σ := { c with bound := store.bind c.bound more }

/-- Unbinds everything. -/
def clear (c : LogContext σ) : LogContext σ := { c with bound := store.clear c.bound }

/-- The members that have a value. -/
def present (ms : Members Json) : Members Json := ms.filter fun (_, v) => !v.isNull

/-- Enters a context. -/
def enter (c : LogContext σ) (more : Members Json) : LogContext σ :=
  ⟨store.bind c.bound (present more), store.save c.bound (present more).keys :: c.entered⟩

/-- Leaves the innermost context. -/
def exit (c : LogContext σ) : LogContext σ :=
  match c.entered with
  | [] => c
  | saved :: outer => ⟨store.giveBack c.bound saved, outer⟩

end LogContext
end JsonQuery
