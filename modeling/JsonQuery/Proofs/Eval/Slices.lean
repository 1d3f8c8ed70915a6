import JsonQuery.Eval.Slice
import Mathlib.Data.List.Forall2
import Mathlib.Tactic.Ring

/-! Slices as walks. The indices of a slice are computed at once from a count of the steps; a walk instead goes
    from index to index while some condition holds, and takes the item at each. Both select the same items, a
    walk never leaves the list, and no list is walked in two ways. A step of 1 takes what lies between two
    bounds, a step of -1 without bounds the list in reverse. -/

namespace JsonQuery.Slice

variable {α : Type} {xs ys zs : List α} {goesOn : Int → Prop} {step i a b : Int}

/-- The items that are taken from a list on a walk from some index on, step by step while it goes on; every
    index that is visited lies in the list. -/
inductive Walk (xs : List α) (goesOn : Int → Prop) (step : Int) : Int → List α → Prop
  | stop {i : Int} : ¬ goesOn i → Walk xs goesOn step i []
  | next {i : Int} {x : α} {ys : List α} : goesOn i → 0 ≤ i → xs[i.toNat]? = some x →
    Walk xs goesOn step (i + step) ys → Walk xs goesOn step i (x :: ys)

/-- A bound of a slice as an index: a negative one is counted from the end, and one that lies outside of a range
    is moved into it. -/
def bound (length low high absent : Int) : Option Int → Int
  | none => absent
  | some i => max low (min high (if i < 0 then i + length else i))

/-- The items that a slice selects, by its walk: up from the start while below the stop if the step is
    positive, down from the start while above the stop if it is negative. -/
inductive Selects (xs : List α) (start stop : Option Int) (step : Int) (ys : List α) : Prop
  | up : 0 < step →
    Walk xs (· < bound xs.length 0 xs.length xs.length stop) step (bound xs.length 0 xs.length 0 start) ys →
    Selects xs start stop step ys
  | down : step < 0 →
    Walk xs (bound xs.length (-1) (xs.length - 1) (-1) stop < ·) step
      (bound xs.length (-1) (xs.length - 1) (xs.length - 1) start) ys →
    Selects xs start stop step ys

/-! ### Walks -/

/-- A walk takes the same items however it is made. -/
theorem Walk.unique (h : Walk xs goesOn step i ys) (h' : Walk xs goesOn step i zs) : ys = zs := by
  induction h generalizing zs with
  | stop hstop =>
    cases h' with
    | stop => rfl
    | next hgoes => exact absurd hgoes hstop
  | next hgoes _ hx _ ih =>
    cases h' with
    | stop hstop => exact absurd hgoes hstop
    | next _ _ hx' hwalk =>
      obtain rfl : _ = _ := Option.some.inj (hx.symm.trans hx')
      rw [ih hwalk]

/-- A walk of so many steps, each inside the list, takes the items at the multiples of the step. -/
theorem walk_range (n : Nat) (i : Int) (hgoes : ∀ k < n, goesOn (i + k * step))
    (hinside : ∀ k < n, 0 ≤ i + k * step ∧ i + k * step < xs.length) (hstop : ¬ goesOn (i + n * step)) :
    Walk xs goesOn step i
      (((List.range n).map fun (k : Nat) => i + (k : Int) * step).filterMap fun i => xs[i.toNat]?) := by
  induction n generalizing i with
  | zero => exact .stop (by simpa using hstop)
  | succ n ih =>
    have hshift (k : Nat) : i + ((k + 1 : Nat) : Int) * step = i + step + k * step := by
      push_cast
      ring
    have htail := ih (i + step) (fun k hk => hshift k ▸ hgoes (k + 1) (by omega))
      (fun k hk => hshift k ▸ hinside (k + 1) (by omega)) (hshift n ▸ hstop)
    have hi : 0 ≤ i ∧ i < xs.length := by simpa using hinside 0 (by omega)
    have hlt : i.toNat < xs.length := by omega
    have hx : xs[i.toNat]? = some xs[i.toNat] := List.getElem?_eq_getElem hlt
    have hrow : ((List.range (n + 1)).map fun (k : Nat) => i + (k : Int) * step)
        = i :: (List.range n).map fun (k : Nat) => i + step + (k : Int) * step := by
      rw [List.range_succ_eq_map, List.map_cons, List.map_map]
      simp [Function.comp_def, ← hshift]
    rw [hrow, List.filterMap_cons, hx]
    exact .next (by simpa using hgoes 0 (by omega)) hi.1 hx htail

/-! ### Counting the steps -/

theorem lt_count_up (hstep : 0 < step) (k : Nat) : k < count a b step ↔ a + k * step < b := by
  rw [count, if_pos hstep, Int.lt_toNat, Int.lt_iff_add_one_le, Int.le_ediv_iff_mul_le hstep, Int.add_mul]
  omega

theorem lt_count_down (hstep : step < 0) (k : Nat) : k < count a b step ↔ b < a + k * step := by
  have hneg : 0 < -step := by omega
  rw [count, if_neg (by omega), if_pos hstep, Int.lt_toNat, Int.lt_iff_add_one_le,
    Int.le_ediv_iff_mul_le hneg, Int.add_mul, Int.mul_neg]
  omega

/-! ### The items of a slice -/

theorem first_of_pos (length : Nat) (start : Option Int) (hstep : 0 < step) :
    first length start step = bound length 0 length 0 start := by
  rw [first, if_pos hstep]
  cases start <;> rfl

theorem limit_of_pos (length : Nat) (stop : Option Int) (hstep : 0 < step) :
    limit length stop step = bound length 0 length length stop := by
  rw [limit, if_pos hstep]
  cases stop <;> rfl

theorem first_of_neg (length : Nat) (start : Option Int) (hstep : step < 0) :
    first length start step = bound length (-1) (length - 1) (length - 1) start := by
  rw [first, if_neg (by omega)]
  cases start <;> rfl

theorem limit_of_neg (length : Nat) (stop : Option Int) (hstep : step < 0) :
    limit length stop step = bound length (-1) (length - 1) (-1) stop := by
  rw [limit, if_neg (by omega)]
  cases stop <;> rfl

/-- A bound is in its range. -/
theorem bound_mem (length low high absent : Int) (hrange : low ≤ high) (habsent : low ≤ absent ∧ absent ≤ high)
    (i : Option Int) : low ≤ bound length low high absent i ∧ bound length low high absent i ≤ high := by
  cases i with
  | none => exact habsent
  | some i => exact ⟨le_max_left _ _, max_le hrange (min_le_left _ _)⟩

theorem select_eq (xs : List α) (start stop step : Option Int) :
    select xs start stop step =
      ((List.range (count (first xs.length start (step.getD 1)) (limit xs.length stop (step.getD 1))
        (step.getD 1))).map fun (k : Nat) => first xs.length start (step.getD 1) + (k : Int) * step.getD 1).filterMap
          fun i => xs[i.toNat]? := by
  simp [select, indices]

/-- What is computed is what the walk of the slice takes; so the walk ends, and inside the list. -/
theorem selects_select (xs : List α) (start stop : Option Int) {step : Option Int} (hstep : step ≠ some 0) :
    Selects xs start stop (step.getD 1) (select xs start stop step) := by
  have hne : step.getD 1 ≠ 0 := by
    cases step with
    | none => exact one_ne_zero
    | some s =>
      rintro rfl
      exact hstep rfl
  rw [select_eq]
  generalize step.getD 1 = s at hne ⊢
  rcases lt_or_gt_of_ne hne with hneg | hpos
  · have hfirst := bound_mem xs.length (-1) (xs.length - 1) (xs.length - 1) (by omega) (by omega) start
    have hlimit := bound_mem xs.length (-1) (xs.length - 1) (-1) (by omega) (by omega) stop
    rw [first_of_neg _ _ hneg, limit_of_neg _ _ hneg]
    refine .down hneg (walk_range _ _ (fun k => (lt_count_down hneg k).1) (fun k hk => ?_) ?_)
    · -- a walk down stays below its start
      have hgoes := (lt_count_down hneg k).1 hk
      have hdown : (k : Int) * s ≤ 0 := Int.mul_nonpos_of_nonneg_of_nonpos (by omega) (by omega)
      omega
    · rw [← lt_count_down hneg]
      exact lt_irrefl _
  · have hfirst := bound_mem xs.length 0 xs.length 0 (by omega) (by omega) start
    have hlimit := bound_mem xs.length 0 xs.length xs.length (by omega) (by omega) stop
    rw [first_of_pos _ _ hpos, limit_of_pos _ _ hpos]
    refine .up hpos (walk_range _ _ (fun k => (lt_count_up hpos k).1) (fun k hk => ?_) ?_)
    · have hgoes := (lt_count_up hpos k).1 hk
      have hup : 0 ≤ (k : Int) * s := Int.mul_nonneg (by omega) (by omega)
      omega
    · rw [← lt_count_up hpos]
      exact lt_irrefl _

theorem Selects.unique {start stop : Option Int} (h : Selects xs start stop step ys)
    (h' : Selects xs start stop step zs) : ys = zs := by
  cases h with
  | up hstep hwalk =>
    cases h' with
    | up _ hwalk' => exact hwalk.unique hwalk'
    | down hstep' => omega
  | down hstep hwalk =>
    cases h' with
    | up hstep' => omega
    | down _ hwalk' => exact hwalk.unique hwalk'

/-- A list is what a slice selects just if it is computed. -/
theorem selects_iff {start stop step : Option Int} (hstep : step ≠ some 0) :
    Selects xs start stop (step.getD 1) ys ↔ ys = select xs start stop step := by
  constructor
  · exact fun h => h.unique (selects_select xs start stop hstep)
  · rintro rfl
    exact selects_select xs start stop hstep

/-! ### Steps of one item -/

/-- A walk up by one takes what lies between its ends. -/
theorem Walk.between (h : Walk xs (· < b) 1 a ys) (hb : b ≤ xs.length) :
    ys = (xs.drop a.toNat).take (b - a).toNat := by
  induction h with
  | @stop i hstop =>
    have hnone : (b - i).toNat = 0 := by omega
    rw [hnone, List.take_zero]
  | @next i x _ hgoes hi hx _ ih =>
    have hlt : i.toNat < xs.length := by omega
    have hmore : (b - i).toNat = (b - (i + 1)).toNat + 1 := by omega
    have hnext : (i + 1).toNat = i.toNat + 1 := by omega
    have hhead : xs[i.toNat] = x := by
      rw [List.getElem?_eq_getElem hlt] at hx
      exact Option.some.inj hx
    rw [ih, hmore, List.drop_eq_getElem_cons hlt, List.take_succ_cons, hhead, hnext]

/-- A walk down to the start by one takes the items up to its first in reverse. -/
theorem Walk.backwards (h : Walk xs (-1 < ·) (-1) a ys) (ha : a < xs.length) :
    ys = (xs.take (a + 1).toNat).reverse := by
  induction h with
  | @stop i hstop =>
    have hnone : (i + 1).toNat = 0 := by omega
    rw [hnone, List.take_zero, List.reverse_nil]
  | @next i x _ hgoes hi hx _ ih =>
    have hlt : i.toNat < xs.length := by omega
    have hmore : (i + 1).toNat = i.toNat + 1 := by omega
    have hrest : (i + -1 + 1).toNat = i.toNat := by omega
    have hhead : xs[i.toNat] = x := by
      rw [List.getElem?_eq_getElem hlt] at hx
      exact Option.some.inj hx
    rw [ih (by omega), hrest, hmore, List.take_succ_eq_append_getElem hlt, List.reverse_append,
      List.reverse_singleton, hhead, List.singleton_append]

/-- What is before an index and what is from it on make the whole list. -/
theorem Selects.append {k : Int} (hfront : Selects xs none (some k) 1 ys) (hback : Selects xs (some k) none 1 zs) :
    ys ++ zs = xs := by
  have hk := bound_mem xs.length 0 xs.length 0 (by omega) (by omega) (some k)
  cases hfront with
  | down hstep => cases hstep
  | up _ hfront =>
    cases hback with
    | down hstep => cases hstep
    | up _ hback =>
      have hys : ys = xs.take (bound xs.length 0 xs.length 0 (some k)).toNat := by
        simpa [bound] using hfront.between hk.2
      have hzs : zs = xs.drop (bound xs.length 0 xs.length 0 (some k)).toNat := by
        rw [hback.between le_rfl, List.take_of_length_le]
        rw [List.length_drop, bound]
        omega
      rw [hys, hzs, List.take_append_drop]

/-- A step of -1 selects a list in reverse. -/
theorem Selects.eq_reverse (h : Selects xs none none (-1) ys) : ys = xs.reverse := by
  cases h with
  | up hstep => cases hstep
  | down _ hwalk =>
    have hys := hwalk.backwards (show bound xs.length _ _ _ none < _ by rw [bound]; omega)
    rw [hys, bound, List.take_of_length_le (by omega)]

end JsonQuery.Slice
