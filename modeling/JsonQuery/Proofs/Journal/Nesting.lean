import JsonQuery.Journal.Recorder
import JsonQuery.Proofs.Json.Members
import Mathlib.Data.List.Induction
import Mathlib.Logic.Function.Iterate

/-! Nesting of contexts. A store promises that what it has saved of some keys is given back to them and to no others,
    and that giving it back undoes what was bound to these keys. The contexts that have been entered form a stack, of
    which a run that leaves just what it enters gives back what it was given; so a context is left in the frame that it
    was entered in, however many were entered and left in between, and whatever was bound or cleared. Leaving it gives
    its keys what they held on entering and touches no others. To leave what has just been entered undoes the entering
    altogether, so a run that only enters and leaves, besides logging and validating, ends where it began. -/

namespace JsonQuery

namespace ContextStore

/-- What a store promises. -/
structure Laws {σ : Type} (store : ContextStore σ) : Prop where
  get?_giveBack (bound later : Members Json) (keys : List String) (key : String) :
    (store.giveBack later (store.save bound keys)).get? key = if key ∈ keys then bound.get? key else later.get? key
  giveBack_bind (bound more : Members Json) :
    store.giveBack (store.bind bound more) (store.save bound more.keys) = bound

variable {key : String} {ms more : Members Json}

/-! ### A store that keeps the order -/

theorem get?_restore_of_ne {saved : String × Option Json} (h : saved.1 ≠ key) (ms : Members Json) :
    (restore ms saved).get? key = ms.get? key := by
  obtain ⟨k, _ | v⟩ := saved
  · rw [restore, Members.get?_erase, if_neg h]
  · rw [restore, Members.get?_put, if_neg h]

theorem get?_restore_self (key : String) (was : Option Json) (ms : Members Json) :
    (restore ms (key, was)).get? key = was := by
  cases was with
  | none => rw [restore, Members.get?_erase, if_pos rfl]
  | some v => rw [restore, Members.get?_put, if_pos rfl]

/-- Leaving a context gives each of its keys what it held, and leaves the others alone. -/
theorem get?_restored (was : String → Option Json) (key : String) : ∀ (keys : List String) (ms : Members Json),
    ((keys.map fun k => (k, was k)).foldl restore ms).get? key =
      if key ∈ keys then was key else ms.get? key := by
  intro keys
  induction keys with
  | nil => exact fun ms => (if_neg List.not_mem_nil).symm
  | cons k keys ih =>
    intro ms
    rw [List.map_cons, List.foldl_cons, ih]
    by_cases hkeys : key ∈ keys
    · rw [if_pos hkeys, if_pos (List.mem_cons_of_mem k hkeys)]
    · rw [if_neg hkeys]
      by_cases hk : k = key
      · rw [hk, get?_restore_self, if_pos List.mem_cons_self]
      · rw [get?_restore_of_ne hk, if_neg]
        exact fun hmem => (List.mem_cons.1 hmem).elim (fun h => hk h.symm) hkeys

/-- To restore a key undoes what was bound to it, whatever was bound to other keys. -/
theorem restore_union (key : String) (ms : Members Json) : ∀ more : Members Json,
    restore (ms.union more) (key, ms.get? key) = ms.union (more.filter fun p => p.1 ≠ key) := by
  intro more
  induction more using List.reverseRecOn with
  | nil =>
    show restore ms _ = ms
    cases hkey : ms.get? key with
    | none => exact Members.erase_of_not_mem (Members.get?_eq_none.1 hkey)
    | some v => exact Members.put_get? hkey
  | append_singleton more p ih =>
    rw [Members.union_append, List.filter_append]
    by_cases hp : p.1 = key
    · -- the last value is bound to the key itself and has no part in what is restored
      have hrestore : restore ((ms.union more).put p.1 p.2) (key, ms.get? key) =
          restore (ms.union more) (key, ms.get? key) := by
        cases hkey : ms.get? key with
        | none => rw [restore, restore, hp, Members.erase_put]
        | some v => rw [restore, restore, hp, Members.put_put]
      rw [hrestore, ih]
      simp [hp]
    · have hcomm : restore ((ms.union more).put p.1 p.2) (key, ms.get? key) =
          (restore (ms.union more) (key, ms.get? key)).put p.1 p.2 := by
        cases hkey : ms.get? key with
        | none => rw [restore, restore, Members.erase_put_of_ne (Ne.symm hp)]
        | some v =>
          have hmem := Members.mem_keys_union more (Members.mem_keys_of_get? hkey)
          rw [restore, restore, Members.put_comm_of_mem (Ne.symm hp) _ _ hmem]
      have hfilter : [p].filter (fun p => p.1 ≠ key) = [p] := by simp [hp]
      rw [hcomm, ih, hfilter, Members.union_append]

theorem restored_union (ms : Members Json) : ∀ (keys : List String) (more : Members Json),
    (∀ k ∈ more.keys, k ∈ keys) →
    (keys.map fun k => (k, ms.get? k)).foldl restore (ms.union more) = ms := by
  intro keys
  induction keys with
  | nil =>
    intro more h
    obtain rfl : more = [] := List.eq_nil_iff_forall_not_mem.2 fun p hp =>
      List.not_mem_nil (h p.1 (List.mem_map_of_mem hp))
    rfl
  | cons key keys ih =>
    intro more h
    rw [List.map_cons, List.foldl_cons, restore_union]
    refine ih _ fun k hk => ?_
    obtain ⟨p, hp, rfl⟩ := List.mem_map.1 hk
    obtain ⟨hp, hne⟩ := List.mem_filter.1 hp
    exact (List.mem_cons.1 (h p.1 (List.mem_map_of_mem hp))).resolve_left (by simpa using hne)

theorem laws_inOrder : inOrder.Laws where
  get?_giveBack bound later keys key := get?_restored bound.get? key keys later
  giveBack_bind bound more := restored_union bound more.keys more fun _ => id

end ContextStore

variable {σ : Type} {store : ContextStore σ}

namespace LogContext

/-! ### One context -/

theorem mem_keys_present {key : String} {more : Members Json} :
    key ∈ (present more).keys ↔ ∃ v, (key, v) ∈ more ∧ v.isNull = false := by
  simp [present, Members.keys]

theorem get?_exit (hstore : store.Laws) {c : LogContext σ} {bound : Members Json} {keys : List String}
    {outer : List σ} (h : c.entered = store.save bound keys :: outer) (key : String) :
    (c.exit store).bound.get? key = if key ∈ keys then bound.get? key else c.bound.get? key := by
  rw [exit, h]
  exact hstore.get?_giveBack bound c.bound keys key

theorem exit_enter (hstore : store.Laws) (c : LogContext σ) (more : Members Json) :
    (c.enter store more).exit store = c := by
  show LogContext.mk (store.giveBack (store.bind c.bound (present more)) _) c.entered = c
  rw [hstore.giveBack_bind]

end LogContext

namespace RecorderStep

variable {s : RecorderStep} {steps body : List RecorderStep}

/-! ### Runs -/

/-- The context after some steps. -/
def reach (store : ContextStore σ) (c : LogContext σ) (steps : List RecorderStep) : LogContext σ :=
  steps.foldl (after store) c

theorem reach_append_cons (c : LogContext σ) (before : List RecorderStep) (s : RecorderStep)
    (rest : List RecorderStep) :
    reach store c (before ++ s :: rest) = reach store (s.after store (reach store c before)) rest := by
  rw [reach, List.foldl_append]
  rfl

/-- What is bound after the last of some steps, as a run shows it. -/
theorem run_append_cons (least : Int) : ∀ (before : List RecorderStep) (c : LogContext σ) (s : RecorderStep)
    (rest : List RecorderStep), ((run store least c (before ++ s :: rest))[before.length]?).map Prod.fst =
      some (reach store c (before ++ [s])).bound := by
  intro before
  induction before with
  | nil => exact fun _ _ _ => rfl
  | cons t before ih => exact fun c s rest => ih (t.after store c) s rest

/-- How many contexts are open after some steps, given how many are before; nothing if one is left that has not been
    entered. -/
def openAfter : Nat → List RecorderStep → Option Nat
  | n, [] => some n
  | n, enter _ :: rest => openAfter (n + 1) rest
  | 0, exit :: _ => none
  | n + 1, exit :: rest => openAfter n rest
  | n, _ :: rest => openAfter n rest

/-- Every context that is left has been entered, and every one that is entered is left. -/
def WellNested (steps : List RecorderStep) : Prop := openAfter 0 steps = some 0

instance (steps : List RecorderStep) : Decidable (WellNested steps) :=
  inferInstanceAs (Decidable (openAfter 0 steps = some 0))

/-- Whether a step binds or clears outside of entering and leaving. -/
def rebinds : RecorderStep → Bool
  | bind _ | clear => true
  | _ => false

theorem openAfter_append : ∀ (before rest : List RecorderStep) (n : Nat),
    openAfter n (before ++ rest) = (openAfter n before).bind fun m => openAfter m rest := by
  intro before rest
  induction before with
  | nil => exact fun _ => rfl
  | cons s before ih =>
    intro n
    cases s with
    | enter more => exact ih (n + 1)
    | exit =>
      cases n with
      | zero => rfl
      | succ n => exact ih n
    | _ => cases n <;> exact ih _

/-- The last of the contexts that are open after some steps, of which there are `m + 1`, was entered by these steps, and
    all that was entered since has been left; or it was among the `n` that were open before, and the steps leave all
    but it and those below it. -/
def LastOpen (n m : Nat) (steps : List RecorderStep) : Prop :=
  (∃ before more body, steps = before ++ enter more :: body ∧ WellNested body) ∨
    (m + 1 ≤ n ∧ openAfter (n - (m + 1)) steps = some 0)

theorem LastOpen.cons {n m k : Nat} (h : LastOpen k m steps)
    (hbefore : m + 1 ≤ k → openAfter (k - (m + 1)) steps = some 0 → LastOpen n m (s :: steps)) :
    LastOpen n m (s :: steps) := by
  rcases h with ⟨before, more, body, rfl, hbody⟩ | ⟨hle, hrest⟩
  · exact .inl ⟨s :: before, more, body, rfl, hbody⟩
  · exact hbefore hle hrest

theorem last_open : ∀ {steps : List RecorderStep} {n m : Nat}, openAfter n steps = some (m + 1) →
    LastOpen n m steps := by
  intro steps
  induction steps with
  | nil =>
    rintro n m ⟨_⟩
    exact .inr ⟨Nat.le_refl _, congrArg some (Nat.sub_self _)⟩
  | cons s rest ih =>
    intro n m h
    cases s with
    | enter more =>
      have hrest : LastOpen (n + 1) m rest := ih h
      refine hrest.cons fun hle hrest => ?_
      rcases Nat.lt_or_eq_of_le hle with hlt | heq
      · have hlevel : n + 1 - (m + 1) = n - (m + 1) + 1 := by omega
        exact .inr ⟨by omega, by rw [openAfter, ← hlevel, hrest]⟩
      · rw [heq, Nat.sub_self] at hrest
        exact .inl ⟨[], more, rest, rfl, hrest⟩
    | exit =>
      cases n with
      | zero => cases h
      | succ n =>
        have hrest : LastOpen n m rest := ih h
        refine hrest.cons fun hle hrest => ?_
        have hlevel : n + 1 - (m + 1) = n - (m + 1) + 1 := by omega
        exact .inr ⟨by omega, by rw [hlevel, openAfter, hrest]⟩
    | bind | clear | log | validate =>
      have hrest : openAfter n rest = some (m + 1) := by cases n <;> exact h
      refine (ih hrest).cons fun hle hrest => .inr ⟨hle, ?_⟩
      cases hlevel : n - (m + 1) <;> rw [hlevel] at hrest <;> exact hrest

/-- Whatever a run leaves it has entered, and has left by then all that it has entered since. -/
theorem enter_of_exit {before rest : List RecorderStep} (h : WellNested (before ++ exit :: rest)) :
    ∃ outer more body, before = outer ++ enter more :: body ∧ WellNested body := by
  rw [WellNested, openAfter_append] at h
  cases hbefore : openAfter 0 before with
  | none =>
    rw [hbefore] at h
    cases h
  | some n =>
    rw [hbefore] at h
    cases n with
    | zero => cases h
    | succ n =>
      refine (last_open hbefore).resolve_right ?_
      rintro ⟨hle, -⟩
      exact Nat.not_succ_le_zero n hle

theorem entered_exit (c : LogContext σ) : (c.exit store).entered = c.entered.tail := by
  rw [LogContext.exit]
  split
  next h => rw [h]; rfl
  next h => rw [h]; rfl

/-- A run that leaves all that it enters, and some contexts more, takes these off the stack and no others. -/
theorem entered_reach : ∀ {steps : List RecorderStep} {n : Nat} (c : LogContext σ), openAfter n steps = some 0 →
    (reach store c steps).entered = c.entered.drop n := by
  intro steps
  induction steps with
  | nil =>
    rintro n c ⟨_⟩
    rfl
  | cons s rest ih =>
    intro n c h
    cases s with
    | enter more => exact ih (n := n + 1) (c.enter store more) h
    | exit =>
      cases n with
      | zero => cases h
      | succ n =>
        exact (ih (c.exit store) h).trans (by rw [entered_exit, ← List.drop_one, List.drop_drop, Nat.add_comm])
    | bind more => exact ih (c.bind store more) h
    | clear => exact ih (c.clear store) h
    | log | validate => exact ih c h

/-- A run that neither binds nor clears comes to what leaving the contexts comes to that it leaves in excess. -/
theorem reach_of_not_rebinds (hstore : store.Laws) : ∀ {steps : List RecorderStep} {n : Nat} (c : LogContext σ),
    openAfter n steps = some 0 → (∀ s ∈ steps, s.rebinds = false) →
    reach store c steps = (LogContext.exit store)^[n] c := by
  intro steps
  induction steps with
  | nil =>
    rintro n c ⟨_⟩ -
    rfl
  | cons s rest ih =>
    intro n c h hsteps
    obtain ⟨hs, hrest⟩ := List.forall_mem_cons.1 hsteps
    cases s with
    | enter more =>
      have hreach : reach store (c.enter store more) rest = (LogContext.exit store)^[n + 1] (c.enter store more) :=
        ih _ h hrest
      rwa [Function.iterate_succ_apply, LogContext.exit_enter hstore] at hreach
    | exit =>
      cases n with
      | zero => cases h
      | succ n => exact ih (c.exit store) h hrest
    | bind | clear => cases hs
    | log | validate => exact ih c h hrest

/-- In a run that leaves just what it enters, leaving a context gives each key that it bound what it held on entering,
    or takes it away if it held nothing, and leaves every other key as it was just before. A run that, besides, neither
    binds nor clears ends with the context it began with. -/
theorem run_of_wellNested (hstore : store.Laws) (least : Int) (c : LogContext σ) {steps : List RecorderStep}
    (h : WellNested steps) :
    (∀ before rest, steps = before ++ exit :: rest →
      ∃ outer more body left, before = outer ++ enter more :: body ∧ WellNested body ∧
        ((run store least c steps)[before.length]?).map Prod.fst = some left ∧
        (∀ key v, (key, v) ∈ more → v.isNull = false → left.get? key = (reach store c outer).bound.get? key) ∧
        ∀ key, (∀ v, (key, v) ∈ more → v.isNull = true) → left.get? key = (reach store c before).bound.get? key) ∧
    ((∀ s ∈ steps, s.rebinds = false) → reach store c steps = c) := by
  constructor
  · rintro before rest rfl
    obtain ⟨outer, more, body, rfl, hbody⟩ := enter_of_exit h
    have hinside : reach store c (outer ++ enter more :: body) =
        reach store ((reach store c outer).enter store more) body := reach_append_cons c outer (enter more) body
    have hleft : reach store c ((outer ++ enter more :: body) ++ [exit]) =
        (reach store c (outer ++ enter more :: body)).exit store := reach_append_cons c _ exit []
    have hentered : (reach store c (outer ++ enter more :: body)).entered =
        ((reach store c outer).enter store more).entered := by
      rw [hinside, entered_reach _ hbody, List.drop_zero]
    have hexit := LogContext.get?_exit hstore hentered
    refine ⟨outer, more, body, _, rfl, hbody, run_append_cons least _ c exit rest, fun key v hmem hv => ?_,
      fun key hkey => ?_⟩
    · rw [hleft, hexit, if_pos (LogContext.mem_keys_present.2 ⟨v, hmem, hv⟩)]
    · rw [hleft, hexit, if_neg]
      intro hmem
      obtain ⟨v, hmem, hv⟩ := LogContext.mem_keys_present.1 hmem
      rw [hkey v hmem] at hv
      cases hv
  · exact reach_of_not_rebinds hstore c h

/-- Two contexts with the same key, a clearing within the inner and a binding within the outer one. -/
theorem run_of_wellNested_shadowed : ∃ left : Members Json,
    ((run .inOrder 20 .empty [bind [("a", .int 0)], enter [("a", .int 1), ("b", .null)], enter [("a", .int 2)], clear,
      exit, bind [("a", .int 3), ("c", .int 4)], exit])[6]?).map Prod.fst = some left ∧
    left.get? "a" = some (.int 0) ∧ left.get? "c" = some (.int 4) := by
  have hnested : WellNested [bind [("a", .int 0)], enter [("a", .int 1), ("b", .null)], enter [("a", .int 2)], clear,
      exit, bind [("a", .int 3), ("c", .int 4)], exit] := rfl
  obtain ⟨outer, more, body, left, hbefore, hbody, hleft, hbound, hother⟩ :=
    (run_of_wellNested ContextStore.laws_inOrder 20 .empty hnested).1 [bind [("a", .int 0)],
      enter [("a", .int 1), ("b", .null)], enter [("a", .int 2)], clear, exit, bind [("a", .int 3), ("c", .int 4)]] []
      rfl
  refine ⟨left, hleft, ?_⟩
  -- of the two contexts that are entered the inner one has been left
  rcases outer with _ | ⟨_, _ | ⟨_, _ | ⟨_, _ | ⟨_, _ | ⟨_, _ | ⟨_, _⟩⟩⟩⟩⟩⟩ <;> simp at hbefore
  · obtain ⟨rfl, rfl, rfl⟩ := hbefore
    exact ⟨hbound "a" (.int 1) (by simp) rfl, hother "c" (by simp)⟩
  · obtain ⟨-, -, -, rfl⟩ := hbefore
    cases hbody

end RecorderStep
end JsonQuery
