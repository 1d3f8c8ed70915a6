import JsonQuery.Expr.Basic

/-! The walk of a tree. It consists of the node at the root and the walks of its children. A stack gives the same
    nodes one at a time: the node on top is listed and its children take its place, the leftmost on top. What has
    been listed and what is still to be listed from the stack is always the whole walk, so the stack is empty
    after as many steps as the walk is long, and not before. -/

namespace JsonQuery.Expr

theorem walkOption_eq (base : Option Expr) : walkOption base = base.toList.flatMap walk := by
  cases base with
  | none => rfl
  | some e => exact (List.append_nil _).symm

theorem walkList_eq : ∀ es : List Expr, walkList es = es.flatMap walk := by
  intro es
  induction es with
  | nil => rfl
  | cons e es ih => rw [walkList, ih, List.flatMap_cons]

theorem walkPairs_eq : ∀ ps : List (String × Expr), walkPairs ps = (ps.map Prod.snd).flatMap walk := by
  intro ps
  induction ps with
  | nil => rfl
  | cons p ps ih => rw [walkPairs, ih, List.map_cons, List.flatMap_cons]

/-- The nodes of a tree are the node at its root and those of its children. -/
theorem walk_eq (e : Expr) : e.walk = e :: e.children.flatMap walk := by
  cases e <;> simp [walk, children, walkOption_eq, walkList_eq, walkPairs_eq]

/-! ### Listing with a stack -/

/-- A listing under way: the nodes on the stack, the top one first, and those listed so far. -/
structure Listing where
  stack : List Expr
  listed : List Expr

namespace Listing

/-- Lists the node on top and puts its children in its place. -/
def step : Listing → Listing
  | ⟨[], listed⟩ => ⟨[], listed⟩
  | ⟨e :: stack, listed⟩ => ⟨e.children ++ stack, listed ++ [e]⟩

/-- The listing after some steps. -/
def run : Nat → Listing → Listing
  | 0, s => s
  | n + 1, s => run n s.step

/-- The nodes that are still to be listed. -/
def pending (s : Listing) : List Expr := s.stack.flatMap walk

/-- A step lists the next of the pending nodes. -/
theorem step_of_pending {s : Listing} {e : Expr} {es : List Expr} (h : s.pending = e :: es) :
    s.step.listed = s.listed ++ [e] ∧ s.step.pending = es := by
  obtain ⟨stack, listed⟩ := s
  cases stack with
  | nil => cases h
  | cons top stack =>
    have hwhole : pending ⟨top :: stack, listed⟩ = top :: (top.children.flatMap walk ++ stack.flatMap walk) := by
      rw [pending, List.flatMap_cons, walk_eq, List.cons_append]
    obtain ⟨rfl, rfl⟩ := List.cons.inj (hwhole.symm.trans h)
    exact ⟨rfl, List.flatMap_append⟩

/-- So many steps list so many of the pending nodes. -/
theorem run_of_pending : ∀ {n : Nat} {s : Listing}, n ≤ s.pending.length →
    (run n s).listed = s.listed ++ s.pending.take n ∧ (run n s).pending = s.pending.drop n := by
  intro n
  induction n with
  | zero => intro s _; simp [run]
  | succ n ih =>
    intro s hn
    obtain ⟨e, es, hpending⟩ := List.exists_cons_of_length_pos (Nat.zero_lt_of_lt hn)
    obtain ⟨hlisted, hrest⟩ := step_of_pending hpending
    obtain ⟨hrun, hleft⟩ := @ih s.step (by rw [hrest]; rw [hpending] at hn; exact Nat.le_of_succ_le_succ hn)
    rw [run, hrun, hleft, hlisted, hrest, hpending]
    simp

theorem stack_eq_nil_iff {s : Listing} : s.stack = [] ↔ s.pending = [] := by
  obtain ⟨stack, listed⟩ := s
  cases stack with
  | nil => simp [pending]
  | cons e stack => simp [pending, walk_eq e]

end Listing

/-- A listing that starts with a tree on its stack has after some steps listed as many nodes of the walk, and its
    stack is empty just when these are all. -/
theorem run_listing {e : Expr} {n : Nat} (hn : n ≤ e.walk.length) :
    (Listing.run n ⟨[e], []⟩).listed = e.walk.take n ∧
      ((Listing.run n ⟨[e], []⟩).stack = [] ↔ n = e.walk.length) := by
  have hwhole : Listing.pending ⟨[e], []⟩ = e.walk := List.flatMap_singleton ..
  obtain ⟨hlisted, hpending⟩ := Listing.run_of_pending (s := ⟨[e], []⟩) (hwhole ▸ hn)
  refine ⟨by rw [hlisted, hwhole, List.nil_append], ?_⟩
  rw [Listing.stack_eq_nil_iff, hpending, hwhole, List.drop_eq_nil_iff]
  omega

end JsonQuery.Expr
