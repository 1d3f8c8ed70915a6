import JsonQuery.Proofs.Eval.Slices
import JsonQuery.Proofs.Expr.Printer
import JsonQuery.Query

/-! Slices in queries. A slice of a projection has in the place of each array at its innermost level the items
    that the walk of the slice takes, and in the place of other values null; this is one more level, and the
    nulls are dropped only when the projection is collapsed. So a text that is nothing but a slice gives the
    items of the walk that are not null. -/

namespace JsonQuery

open Slice (Selects)

variable {ρ : Type}

/-- What a slice makes of a value. -/
inductive Value.Sliced (start stop : Option Int) (step : Int) : Value ρ → Value ρ → Prop
  | items {xs ys : List (Value ρ)} : Selects xs start stop step ys → Sliced start stop step (.array xs) (.array ys)
  | nothing {v : Value ρ} : (∀ xs, v ≠ .array xs) → Sliced start stop step v .null

theorem Value.sliced_spec {start stop step : Option Int} (hstep : step ≠ some 0) (v : Value ρ) :
    Value.Sliced start stop (step.getD 1) v (v.sliced start stop step) := by
  cases v with
  | array xs => exact .items (Slice.selects_select xs start stop hstep)
  | _ => exact .nothing nofun

namespace Projected

/-- Two values of so many levels that are related at the innermost, item by item; a value that lacks a level goes
    with null. -/
def Inside (R : Value ρ → Value ρ → Prop) : Nat → Value ρ → Value ρ → Prop
  | 0, v, w => R v w
  | depth + 1, .array vs, w => ∃ ws, w = .array ws ∧ List.Forall₂ (Inside R depth) vs ws
  | _ + 1, _, w => w = .null

variable {ε : Type} {f : List Nat → Value ρ → Except ε (Value ρ)} {R : Value ρ → Value ρ → Prop}

theorem mapM_zipIdx_forall₂ {α β : Type} {g : α × Nat → Except ε β} {Q : α → β → Prop}
    (h : ∀ x i, ∃ y, g (x, i) = .ok y ∧ Q x y) :
    ∀ (xs : List α) (i : Nat), ∃ ys, (xs.zipIdx i).mapM g = .ok ys ∧ List.Forall₂ Q xs ys := by
  intro xs
  induction xs with
  | nil => exact fun _ => ⟨[], rfl, .nil⟩
  | cons x xs ih =>
    intro i
    obtain ⟨y, hy, hQ⟩ := h x i
    obtain ⟨ys, hys, hall⟩ := ih (i + 1)
    refine ⟨y :: ys, ?_, .cons hQ hall⟩
    rw [List.zipIdx_cons, List.mapM_cons, hy, hys]
    rfl

/-- One level more, where each item is mapped to one that it is related to. -/
theorem inside_array {depth : Nat} {g : Value ρ × Nat → Except ε (Value ρ)}
    (h : ∀ x i, ∃ y, g (x, i) = .ok y ∧ Inside R depth x y) (items : List (Value ρ)) :
    ∃ w, (items.zipIdx.mapM g >>= fun ws => pure (.array ws)) = .ok w ∧ Inside R (depth + 1) (.array items) w := by
  obtain ⟨ws, hws, hall⟩ := mapM_zipIdx_forall₂ h items 0
  rw [hws]
  exact ⟨.array ws, rfl, ws, rfl, hall⟩

theorem mapInner_inside (h : ∀ way v, ∃ w, f way v = .ok w ∧ R v w) :
    ∀ (depth : Nat) (way : List Nat) (v : Value ρ), ∃ w, mapInner f depth way v = .ok w ∧ Inside R depth v w := by
  intro depth
  induction depth with
  | zero => exact h
  | succ depth ih =>
    intro way v
    cases v with
    | array items =>
      rw [mapInner]
      exact inside_array (fun x i => ih (i :: way) x) items
    | _ => exact ⟨.null, rfl, rfl⟩

theorem collapse_array (items : List (Value ρ)) :
    collapse ⟨.array items, 1⟩ = .array (items.filter fun v => !v.isNull) := by
  have hplain : items.map (collapseValue 0) = items := List.map_id' items
  rw [collapse, collapseValue, hplain]

end Projected

namespace Expr

/-- Under a step that is not 0, a slice that is not too deep has the items of the walks in what its base
    denotes. -/
theorem visit_slice [BEq ρ] {env : Environment ρ} {base : Option Expr} (start stop : Option Int) {step : Option Int}
    {place : Place} {v : Value ρ} {p : Projected ρ} (hstep : step ≠ some 0) (hlevel : place.level + 1 ≤ env.limit)
    (hbase : visitBase env base (place.child 0) v = .ok p) :
    ∃ w, visit env (.slice base start stop step) place v = .ok ⟨w, p.depth + 1⟩ ∧
      Projected.Inside (Value.Sliced start stop (step.getD 1)) p.depth p.value w := by
  obtain ⟨w, hw, hinside⟩ := Projected.mapInner_inside (ε := EvalError)
    (f := fun _ w => .ok (w.sliced start stop step)) (fun _ w => ⟨_, rfl, w.sliced_spec hstep⟩) p.depth [] p.value
  refine ⟨w, ?_, hinside⟩
  rw [visit, Environment.enter_of (by omega)]
  simp only [if_neg hstep, hbase, Projected.expand, hw, bind, Except.bind, pure, Except.pure]

/-! ### Texts of slices -/

/-- A slice as written, with nothing for a bound that is absent and no second colon without a step. -/
def sliceText (start stop step : Option Int) : String :=
  String.ofList ('[' :: (start.elim [] intText ++ ':' :: (stop.elim [] intText
    ++ step.elim [] fun s => ':' :: intText s) ++ [']']))

example : sliceText (some 1) none (some (-2)) = "[1::-2]" := by decide

theorem spellings_integer (i : Int) : spellings (integerLexemes i) = intText i := by
  unfold integerLexemes intText
  split <;> simp [spellings, Lexeme.spelling, Mark.text]

theorem spellings_bound (i : Option Int) : spellings (boundLexemes i) = i.elim [] intText := by
  cases i with
  | none => rfl
  | some i => exact spellings_integer i

theorem spellings_step (i : Option Int) :
    spellings (stepLexemes i) = i.elim [] fun s => ':' :: intText s := by
  cases i with
  | none => rfl
  | some i => exact congrArg (':' :: ·) (spellings_integer i)

theorem toList_sliceText (start stop step : Option Int) :
    (sliceText start stop step).toList = spellings
      (inBrackets (boundLexemes start ++ .mark .colon :: (boundLexemes stop ++ stepLexemes step))) := by
  rw [inBrackets, spellings_cons, spellings_append, spellings_append, spellings_cons, spellings_append,
    spellings_bound, spellings_bound, spellings_step, sliceText, String.toList_ofList]
  rfl

/-- A slice is read from its text, if there is room for one node. -/
theorem parse_sliceText {start stop step : Option Int} {limit : Int}
    (hbounds : ∀ i, some i ∈ [start, stop, step] → (Number.int i).isWritable = true) (hstep : step ≠ some 0)
    (hlimit : 1 ≤ limit) : parse (sliceText start stop step) limit = .ok (.slice none start stop step) := by
  have hseparate := solid_slice (fun i hi => ⟨rfl, hbounds i hi⟩) [] trivial
  rw [List.append_nil] at hseparate
  obtain ⟨tokens, last, hscan, hlexemes⟩ := Scan.ofText_spellings hseparate
  rw [← toList_sliceText] at hscan
  obtain ⟨t, ts, rfl, ht, hts⟩ := List.map_eq_cons_iff.1 hlexemes
  refine parse_of_expression hscan (by simp) fun {ctx} hf => ?_
  obtain ⟨room, hroom⟩ : ∃ room, limit.toNat = room + 1 := ⟨limit.toNat - 1, by omega⟩
  have hleads := Token.Leads.self ts
  rw [hts] at hleads
  have hoperand : operandFrom (expression room) ctx t ts = .ok (.slice none start stop step, []) := by
    rw [operandFrom, ht]
    exact bracketFrom_of_leads (hf.inside t) (selector_slice start stop hstep) hleads
  rw [hroom, expression_step hoperand, extend_stop hf (Nat.le_refl 0)]

/-- A text that is a slice gives the items of its walk in an array that are not null. -/
theorem search_sliceText {start stop step : Option Int} {limit : Int} {xs ys : List Json}
    (hbounds : ∀ i, some i ∈ [start, stop, step] → (Number.int i).isWritable = true) (hstep : step ≠ some 0)
    (hlimit : 1 ≤ limit) (h : Selects xs start stop (step.getD 1) ys) :
    search (sliceText start stop step) (.array xs) limit = .ok (.array (ys.filter fun v => !v.isNull)) := by
  have hlevel : (Place.root.level : Int) + 1 ≤ (Environment.plain Builtin.table limit).limit := hlimit
  obtain ⟨w, hvisit, hinside⟩ := visit_slice start stop hstep hlevel
    (show visitBase _ none _ (.array xs) = .ok (.plain (.array xs)) from rfl)
  cases hinside with
  | nothing hno => exact absurd rfl (hno xs)
  | @items _ zs hzs =>
    obtain rfl := h.unique hzs
    have hevaluate : evaluate (.plain Builtin.table limit) (.slice none start stop step) (.array xs) =
        .ok (.array (ys.filter fun v => !v.isNull)) := by
      rw [evaluate, hvisit, ← Projected.collapse_array]
      rfl
    simp only [search_eq, parse_sliceText hbounds hstep hlimit, hevaluate, Except.mapError]

/-- The laws of slices. A step that is absent is a step of 1. -/
structure SliceLaws : Prop where
  /-- Whatever the base of a slice denotes, each array at its innermost level is sliced by a walk. -/
  visited : ∀ {ρ : Type} [BEq ρ] (env : Environment ρ) (base : Option Expr) (start stop step : Option Int)
    (place : Place) (v : Value ρ) (p : Projected ρ), step ≠ some 0 → place.level + 1 ≤ env.limit →
    visitBase env base (place.child 0) v = .ok p →
    ∃ w, visit env (.slice base start stop step) place v = .ok ⟨w, p.depth + 1⟩ ∧
      Projected.Inside (Value.Sliced start stop (step.getD 1)) p.depth p.value w
  /-- Every array has a walk, which ends and stays inside of it, and no array has two. -/
  one_walk : ∀ {α : Type} (xs : List α) (start stop : Option Int) (step : Int), step ≠ 0 →
    ∃! ys, Selects xs start stop step ys
  /-- What is before an index and what is from it on make the whole array. -/
  halves : ∀ {α : Type} (xs front back : List α) (k : Int), Selects xs none (some k) 1 front →
    Selects xs (some k) none 1 back → front ++ back = xs
  /-- A step of -1 takes an array in reverse. -/
  reverse : ∀ {α : Type} (xs ys : List α), Selects xs none none (-1) ys → ys = xs.reverse
  /-- A text that is a slice, with bounds that are not too long for a text, gives the items of the walk that are not
      null. -/
  searched : ∀ (start stop step : Option Int) (limit : Int) (xs ys : List Json),
    (∀ i, some i ∈ [start, stop, step] → (Number.int i).isWritable = true) → step ≠ some 0 → 1 ≤ limit →
    Selects xs start stop (step.getD 1) ys →
    search (sliceText start stop step) (.array xs) limit = .ok (.array (ys.filter fun v => !v.isNull))
  /-- The texts of the two slices at an index give what is not null in the whole array. -/
  searched_halves : ∀ (k limit : Int) (xs : List Json), (Number.int k).isWritable = true → 1 ≤ limit → ∃ front back,
    search (sliceText none (some k) none) (.array xs) limit = .ok (.array front) ∧
    search (sliceText (some k) none none) (.array xs) limit = .ok (.array back) ∧
    front ++ back = xs.filter fun v => !v.isNull
  /-- The text of the slice with step -1 gives what is not null in reverse. -/
  searched_reverse : ∀ (limit : Int) (xs : List Json), 1 ≤ limit →
    search (sliceText none none (some (-1))) (.array xs) limit = .ok (.array (xs.filter fun v => !v.isNull).reverse)

/-- Slices obey their laws. -/
theorem sliceLaws : SliceLaws where
  visited _ _ _ _ _ _ _ _ hstep hlevel hbase := visit_slice _ _ hstep hlevel hbase
  one_walk xs start stop step hstep := by
    have hsome : some step ≠ some 0 := fun h => hstep (Option.some.inj h)
    exact ⟨_, Slice.selects_select xs start stop hsome, fun ys h => (Slice.selects_iff hsome).1 h⟩
  halves _ _ _ _ hfront hback := hfront.append hback
  reverse _ _ h := h.eq_reverse
  searched _ _ _ _ _ _ hbounds hstep hlimit h := search_sliceText hbounds hstep hlimit h
  searched_halves k limit xs hk hlimit := by
    have hbound (i : Int) (hi : some i ∈ [none, some k, none]) : (Number.int i).isWritable = true := by
      obtain rfl : i = k := by simpa using hi
      exact hk
    have hbound' (i : Int) (hi : some i ∈ [some k, none, none]) : (Number.int i).isWritable = true := by
      obtain rfl : i = k := by simpa using hi
      exact hk
    have hstep : (none : Option Int) ≠ some 0 := nofun
    have hfront := Slice.selects_select xs none (some k) hstep
    have hback := Slice.selects_select xs (some k) none hstep
    refine ⟨_, _, search_sliceText hbound hstep hlimit hfront, search_sliceText hbound' hstep hlimit hback, ?_⟩
    rw [← List.filter_append, hfront.append hback]
  searched_reverse limit xs hlimit := by
    have hneg : (some (-1) : Option Int) ≠ some 0 := by simp
    have hbound (i : Int) (hi : some i ∈ [none, none, some (-1)]) : (Number.int i).isWritable = true := by
      obtain rfl : i = -1 := by simpa using hi
      exact Number.isWritable_digit (by decide)
    have hselects := Slice.selects_select xs none none hneg
    rw [search_sliceText hbound hneg hlimit hselects, hselects.eq_reverse, List.filter_reverse]

/-- From past the end down to the second of four items, by two; around a null; and inside a projection, of which
    one item is no array. -/
theorem sliceLaws_down :
    search "[9:0:-2]" (.array [.int 0, .int 1, .null, .int 3]) 1 = .ok (.array [.int 3, .int 1]) ∧
    (∃ front back, search "[:-2]" (.array [.int 0, .int 1, .null, .int 3]) 1 = .ok (.array front) ∧
      search "[-2:]" (.array [.int 0, .int 1, .null, .int 3]) 1 = .ok (.array back) ∧
      front ++ back = [.int 0, .int 1, .int 3]) ∧
    ∃ w, visit (.plain Builtin.table 2) (.slice (some (.arrayWildcard none)) (some 1) none none) .root
        (.array [.array [.int 0, .int 1], .int 7]) = .ok ⟨w, 2⟩ ∧
      Projected.Inside (Value.Sliced (some 1) none 1) 1 (.array [.array [.int 0, .int 1], .int 7]) w := by
  have hwalk : Selects [.int 0, .int 1, .null, .int 3] (some 9) (some 0) (-2) [(.int 3 : Json), .int 1] :=
    .down (by decide) (.next (by decide) (by decide) rfl (.next (by decide) (by decide) rfl (.stop (by decide))))
  have hbounds (i : Int) (hi : some i ∈ [some 9, some 0, some (-2)]) : (Number.int i).isWritable = true := by
    have hsmall : i = 9 ∨ i = 0 ∨ i = -2 := by simpa using hi
    exact Number.isWritable_digit (by omega)
  have hdown := sliceLaws.searched (some 9) (some 0) (some (-2)) 1 _ _ hbounds (by decide) le_rfl hwalk
  have hhalves := sliceLaws.searched_halves (-2) 1 [.int 0, .int 1, .null, .int 3]
    (Number.isWritable_digit (by decide)) le_rfl
  rw [show sliceText (some 9) (some 0) (some (-2)) = "[9:0:-2]" by decide] at hdown
  rw [show sliceText none (some (-2)) none = "[:-2]" by decide,
    show sliceText (some (-2)) none none = "[-2:]" by decide] at hhalves
  exact ⟨hdown, hhalves, sliceLaws.visited _ _ _ _ none .root _ ⟨_, 1⟩ nofun (by decide) rfl⟩

end Expr
end JsonQuery
