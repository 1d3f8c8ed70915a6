import JsonQuery.Function.Order
import JsonQuery.Proofs.Number.Exact
import Mathlib.Data.List.Induction
import Mathlib.Data.List.Sort
import Mathlib.Data.String.Basic
import Mathlib.Order.OrderDual

/-! Sorting and extrema by keys. Keys that are all numbers, none of them a NaN, or all strings are linearly ordered:
    numbers by exact value, strings by code point. Under such keys sorting gives the elements in the order of key and
    place, which is what a stable sort gives, and so the first of the sorted elements is the first with the least
    key. The last of the elements sorted backwards is the first with the greatest key. These are also what a
    single pass finds that changes its mind only for a better key. -/

namespace JsonQuery

variable {ρ : Type}

namespace Value

/-- One key comes before another: numbers by exact value, strings by code point. Keys of different kinds and NaNs are
    not ordered. -/
def Below : Value ρ → Value ρ → Prop
  | .number a, .number b => ∃ v w, a.exactValue? = some v ∧ b.exactValue? = some w ∧ v < w
  | .string a, .string b => a.toList < b.toList
  | _, _ => False

/-- Keys that are all numbers, none of them a NaN, or all strings. -/
def Ordered (keys : List (Value ρ)) : Prop :=
  (∀ k ∈ keys, ∃ n : Number, k = .number n ∧ n ≠ .double .nan) ∨ ∀ k ∈ keys, ∃ s, k = .string s

theorem keyLess_iff (k k' : Value ρ) : k.keyLess k' = true ↔ k.Below k' := by
  cases k <;> cases k' <;> try exact ⟨nofun, False.elim⟩
  · exact Number.less_iff _ _
  · exact decide_eq_true_iff

theorem Below.asymm {k k' : Value ρ} (h : k.Below k') : ¬ k'.Below k := by
  cases k <;> cases k' <;> try exact h.elim
  · rintro ⟨v', w', hv', hw', hlt'⟩
    obtain ⟨v, w, hv, hw, hlt⟩ := h
    cases hv.symm.trans hw'
    cases hw.symm.trans hv'
    exact lt_asymm hlt hlt'
  · exact lt_asymm (α := String) h

theorem Ordered.reverse {keys : List (Value ρ)} (h : Ordered keys) : Ordered keys.reverse :=
  h.imp (fun h k hk => h k (List.mem_reverse.1 hk)) fun h k hk => h k (List.mem_reverse.1 hk)

/-- Keys of one kind have ranks in some linear order. -/
theorem Ordered.exists_rank {keys : List (Value ρ)} (h : Ordered keys) :
    ∃ (β : Type) (_ : LinearOrder β) (rank : Value ρ → β),
      ∀ k ∈ keys, ∀ k' ∈ keys, (k.Below k' ↔ rank k < rank k') := by
  rcases h with h | h
  · refine ⟨WithBot (WithTop ℚ), inferInstance, fun k => (k.number?.bind Number.exactValue?).getD ⊥, ?_⟩
    intro k hk k' hk'
    obtain ⟨n, rfl, hn⟩ := h k hk
    obtain ⟨n', rfl, hn'⟩ := h k' hk'
    obtain ⟨v, hv⟩ := Number.exactValue?_ne_none hn
    obtain ⟨w, hw⟩ := Number.exactValue?_ne_none hn'
    simp [Below, number?, hv, hw]
  · refine ⟨String, inferInstance, fun k => k.string?.getD "", ?_⟩
    intro k hk k' hk'
    obtain ⟨s, rfl⟩ := h k hk
    obtain ⟨s', rfl⟩ := h k' hk'
    exact Iff.rfl

end Value

namespace Keyed

variable {xs : Keyed ρ} {ys : List (Value ρ)} {x y : Value ρ}

/-! ### Sorting -/

/-- Some elements in the order of key and place: of two that are in this order the one has the lesser key, or the other
    does not and the one came first. -/
def StablySorted (xs : Keyed ρ) (ys : List (Value ρ)) : Prop :=
  ∃ zs : List ((Value ρ × Value ρ) × Nat), zs.Perm xs.zipIdx ∧ ys = zs.map (fun z => z.1.2) ∧
    zs.Pairwise fun a b => a.1.1.Below b.1.1 ∨ (¬ b.1.1.Below a.1.1 ∧ a.2 < b.2)

theorem StablySorted.perm (h : StablySorted xs ys) : ys.Perm (xs.map Prod.snd) := by
  obtain ⟨zs, hperm, rfl, -⟩ := h
  have hmap := hperm.map fun z => z.1.2
  have helements : xs.zipIdx.map (fun z => z.1.2) = xs.map Prod.snd := by
    show xs.zipIdx.map (Prod.snd ∘ Prod.fst) = _
    rw [← List.map_map, List.zipIdx_map_fst]
  rwa [helements] at hmap

/-- Elements of a row and their numbers, sorted by rank and then by number. -/
theorem mergeSort_pairwise {α β : Type} [LinearOrder β] (rank : α → β) (xs : List α) :
    (xs.zipIdx.mergeSort (List.zipIdxLE fun a b => decide (rank a ≤ rank b))).Pairwise fun a b =>
      rank a.1 < rank b.1 ∨ (rank a.1 = rank b.1 ∧ a.2 < b.2) := by
  have htrans : ∀ a b c : α × Nat, List.zipIdxLE (fun a b => decide (rank a ≤ rank b)) a b = true →
      List.zipIdxLE (fun a b => decide (rank a ≤ rank b)) b c = true →
      List.zipIdxLE (fun a b => decide (rank a ≤ rank b)) a c = true := by
    intro a b c
    simp only [List.zipIdxLE, decide_eq_true_eq]
    grind
  have htotal : ∀ a b : α × Nat, (List.zipIdxLE (fun a b => decide (rank a ≤ rank b)) a b ||
      List.zipIdxLE (fun a b => decide (rank a ≤ rank b)) b a) = true := by
    intro a b
    simp only [List.zipIdxLE, decide_eq_true_eq, Bool.or_eq_true]
    grind
  have hnodup : (xs.zipIdx.mergeSort (List.zipIdxLE fun a b => decide (rank a ≤ rank b))).Pairwise
      fun a b => a.2 ≠ b.2 := by
    rw [← List.pairwise_map]
    refine ((List.mergeSort_perm _ _).map Prod.snd).nodup_iff.2 ?_
    rw [List.zipIdx_map_snd]
    exact List.nodup_range'
  refine ((List.pairwise_mergeSort htrans htotal xs.zipIdx).and hnodup).imp fun {a b} hab => ?_
  obtain ⟨hle, hne⟩ := hab
  simp only [List.zipIdxLE, decide_eq_true_eq] at hle
  split at hle
  next hab =>
    split at hle
    next hba => exact .inr ⟨le_antisymm hab hba, lt_of_le_of_ne (of_decide_eq_true hle) hne⟩
    next hba => exact .inl (not_le.1 hba)
  next => cases hle

/-- Sorting is stable. -/
theorem sorted_stable (h : Value.Ordered (xs.map Prod.fst)) : StablySorted xs xs.sorted := by
  obtain ⟨β, _, rank, hrank⟩ := h.exists_rank
  have hmem : ∀ {p}, p ∈ xs → p.1 ∈ xs.map Prod.fst := fun hp => List.mem_map_of_mem hp
  have hle : xs.mergeSort (fun a b => !b.1.keyLess a.1) =
      xs.mergeSort fun a b => decide (rank a.1 ≤ rank b.1) := by
    have hmap := List.map_mergeSort (f := id) (l := xs) (r := fun a b => !b.1.keyLess a.1)
      (s := fun a b => decide (rank a.1 ≤ rank b.1)) fun a ha b hb => by
        have hiff := (Value.keyLess_iff b.1 a.1).trans (hrank b.1 (hmem hb) a.1 (hmem ha))
        cases hless : b.1.keyLess a.1 <;> simp [hless] at hiff <;> simp [hiff]
    simpa using hmap
  refine ⟨xs.zipIdx.mergeSort (List.zipIdxLE fun a b => decide (rank a.1 ≤ rank b.1)), List.mergeSort_perm _ _, ?_, ?_⟩
  · rw [sorted, hle, ← List.mergeSort_zipIdx, List.map_map]
    rfl
  · refine (mergeSort_pairwise (fun p : Value ρ × Value ρ => rank p.1) xs).imp_of_mem fun {a b} ha hb hab => ?_
    have ha := hmem (List.fst_mem_of_mem_zipIdx ((List.mergeSort_perm _ _).mem_iff.1 ha))
    have hb := hmem (List.fst_mem_of_mem_zipIdx ((List.mergeSort_perm _ _).mem_iff.1 hb))
    rw [hrank _ ha _ hb, hrank _ hb _ ha]
    exact hab.imp_right fun ⟨heq, hlt⟩ => ⟨not_lt.2 heq.le, hlt⟩

/-! ### Extrema -/

/-- The element with a key that none is better than, the first of several such elements. -/
def IsFirst (better : Value ρ → Value ρ → Prop) (xs : Keyed ρ) (x : Value ρ) : Prop :=
  ∃ (i : Nat) (k : Value ρ), xs[i]? = some (k, x) ∧
    ∀ (j : Nat) (k' y : Value ρ), xs[j]? = some (k', y) → ¬ better k' k ∧ (j < i → better k k')

theorem IsFirst.unique {better : Value ρ → Value ρ → Prop} (hx : IsFirst better xs x) (hy : IsFirst better xs y) :
    x = y := by
  obtain ⟨i, k, hi, hfirst⟩ := hx
  obtain ⟨j, k', hj, hfirst'⟩ := hy
  rcases Nat.lt_trichotomy i j with hlt | rfl | hlt
  · exact absurd ((hfirst' i k x hi).2 hlt) (hfirst j k' y hj).1
  · cases hi.symm.trans hj
    rfl
  · exact absurd ((hfirst j k' y hj).2 hlt) (hfirst' i k x hi).1

/-- A pass that changes its mind only for a lesser rank ends with the first of the elements of least rank. -/
theorem foldl_first {α β : Type} [LinearOrder β] (rank : α → β) (better : α → α → Bool) (x : α) (rest : List α)
    (h : ∀ a ∈ x :: rest, ∀ b ∈ x :: rest, (better a b = true ↔ rank a < rank b)) :
    ∃ i : Nat, (x :: rest)[i]? = some (rest.foldl (fun b a => if better a b then a else b) x) ∧
      ∀ (j : Nat) (a : α), (x :: rest)[j]? = some a →
        rank (rest.foldl (fun b a => if better a b then a else b) x) ≤ rank a ∧
        (j < i → rank (rest.foldl (fun b a => if better a b then a else b) x) < rank a) := by
  induction rest using List.reverseRecOn with
  | nil => exact ⟨0, rfl, fun j a hj => by cases j <;> simp_all⟩
  | append_singleton rest a ih =>
    have hsub : ∀ b ∈ x :: rest, b ∈ x :: (rest ++ [a]) := fun b hb => by
      rw [← List.cons_append]
      exact List.mem_append_left _ hb
    obtain ⟨i, hi, hfirst⟩ := ih fun b hb c hc => h b (hsub b hb) c (hsub c hc)
    rw [List.foldl_append, List.foldl_cons, List.foldl_nil]
    generalize rest.foldl (fun b a => if better a b then a else b) x = b at hi hfirst
    have hlast : ∀ (j : Nat) (c : α), (x :: (rest ++ [a]))[j]? = some c →
        ((x :: rest)[j]? = some c ∧ j < (x :: rest).length) ∨ (c = a ∧ j = (x :: rest).length) := by
      intro j c hj
      rw [← List.cons_append] at hj
      rcases Nat.lt_or_ge j (x :: rest).length with hlt | hge
      · rw [List.getElem?_append_left hlt] at hj
        exact .inl ⟨hj, hlt⟩
      · rw [List.getElem?_append_right hge, List.getElem?_singleton] at hj
        split at hj
        next hzero =>
          cases hj
          exact .inr ⟨rfl, by omega⟩
        next => cases hj
    have hbetter := h a (by simp) b (hsub b (List.mem_of_getElem? hi))
    split
    next hab =>
      have hlt := hbetter.1 hab
      refine ⟨(x :: rest).length, by rw [← List.cons_append, List.getElem?_concat_length], fun j c hj => ?_⟩
      rcases hlast j c hj with ⟨hj, -⟩ | ⟨rfl, rfl⟩
      · have hless := lt_of_lt_of_le hlt (hfirst j c hj).1
        exact ⟨hless.le, fun _ => hless⟩
      · exact ⟨le_refl _, fun hlt => absurd hlt (Nat.lt_irrefl _)⟩
    next hab =>
      have hle := not_lt.1 fun hlt => hab (hbetter.2 hlt)
      have hlength : i < (x :: rest).length := (List.getElem?_eq_some_iff.1 hi).1
      refine ⟨i, by rw [← List.cons_append, List.getElem?_append_left hlength, hi], fun j c hj => ?_⟩
      rcases hlast j c hj with ⟨hj, -⟩ | ⟨rfl, rfl⟩
      · exact hfirst j c hj
      · exact ⟨hle, fun hlt => absurd hlt (by omega)⟩

/-- A pass finds the first of the best elements. -/
theorem best?_isFirst {β : Type} [LinearOrder β] (rank : Value ρ → β) (better : Value ρ → Value ρ → Bool)
    (h : ∀ k ∈ xs.map Prod.fst, ∀ k' ∈ xs.map Prod.fst, (better k k' = true ↔ rank k < rank k'))
    (hx : xs.best? better = some x) : IsFirst (fun k k' => better k k' = true) xs x := by
  cases xs with
  | nil => cases hx
  | cons p rest =>
    have hmem : ∀ {q}, q ∈ p :: rest → q.1 ∈ (p :: rest).map Prod.fst := fun hq => List.mem_map_of_mem hq
    obtain ⟨i, hi, hfirst⟩ := foldl_first (fun q : Value ρ × Value ρ => rank q.1) (fun a b => better a.1 b.1) p rest
      fun a ha b hb => h a.1 (hmem ha) b.1 (hmem hb)
    cases hx
    refine ⟨i, _, hi, fun j k' y hj => ?_⟩
    have hbest := hmem (List.mem_of_getElem? hi)
    have hother := hmem (List.mem_of_getElem? hj)
    obtain ⟨hle, hlt⟩ := hfirst j (k', y) hj
    exact ⟨fun hbetter => not_lt.2 hle ((h _ hother _ hbest).1 hbetter), fun hji => (h _ hbest _ hother).2 (hlt hji)⟩

theorem least?_isFirst (h : Value.Ordered (xs.map Prod.fst)) (hx : xs.least? = some x) :
    IsFirst Value.Below xs x := by
  obtain ⟨β, _, rank, hrank⟩ := h.exists_rank
  have hfirst := best?_isFirst rank Value.keyLess
    (fun k hk k' hk' => (Value.keyLess_iff k k').trans (hrank k hk k' hk')) hx
  simpa only [Value.keyLess_iff] using hfirst

theorem greatest?_isFirst (h : Value.Ordered (xs.map Prod.fst)) (hx : xs.greatest? = some x) :
    IsFirst (fun k k' => k'.Below k) xs x := by
  obtain ⟨β, _, rank, hrank⟩ := h.exists_rank
  have hfirst := best?_isFirst (fun k => OrderDual.toDual (rank k)) (fun k k' => k'.keyLess k)
    (fun k hk k' hk' => (Value.keyLess_iff k' k).trans (hrank k' hk' k hk)) hx
  simpa only [Value.keyLess_iff] using hfirst

/-! ### Extrema and sorting -/

theorem StablySorted.head_isFirst (h : StablySorted xs ys) (hx : ys.head? = some x) :
    IsFirst Value.Below xs x := by
  obtain ⟨zs, hperm, rfl, hsorted⟩ := h
  obtain _ | ⟨⟨⟨k, x'⟩, i⟩, zs⟩ := zs
  · cases hx
  obtain rfl : x' = x := Option.some.inj hx
  have hmem : ∀ {p} {j : Nat}, xs[j]? = some p ↔ (p, j) ∈ ((k, x'), i) :: zs := fun {p j} => by
    rw [← List.mk_mem_zipIdx_iff_getElem?, hperm.mem_iff]
  refine ⟨i, k, hmem.2 List.mem_cons_self, fun j k' y hj => ?_⟩
  rcases List.mem_cons.1 (hmem.1 hj) with heq | hrest
  · cases heq
    exact ⟨fun hbelow => hbelow.asymm hbelow, fun hlt => absurd hlt (Nat.lt_irrefl _)⟩
  · rcases (List.pairwise_cons.1 hsorted).1 _ hrest with hbelow | ⟨habove, hlt⟩
    · exact ⟨hbelow.asymm, fun _ => hbelow⟩
    · exact ⟨habove, fun hji => absurd hlt (Nat.lt_asymm hji)⟩

theorem StablySorted.last_isFirst (h : StablySorted xs.reverse ys) (hx : ys.getLast? = some x) :
    IsFirst (fun k k' => k'.Below k) xs x := by
  obtain ⟨zs, hperm, rfl, hsorted⟩ := h
  obtain rfl | ⟨zs, ⟨⟨k, x'⟩, i⟩, rfl⟩ := List.eq_nil_or_concat zs
  · cases hx
  rw [List.concat_eq_append, List.map_append, List.map_singleton, List.getLast?_concat] at hx
  obtain rfl : x' = x := Option.some.inj hx
  rw [List.concat_eq_append] at hperm hsorted
  have hmem : ∀ {p} {j : Nat}, xs.reverse[j]? = some p ↔ (p, j) ∈ zs ++ [((k, x'), i)] := fun {p j} => by
    rw [← List.mk_mem_zipIdx_iff_getElem?, hperm.mem_iff]
  -- the place of an element in the row from its place in the row backwards
  have hplace : ∀ {p : Value ρ × Value ρ} {j : Nat}, xs[j]? = some p →
      j < xs.length ∧ xs.reverse[xs.length - 1 - j]? = some p := by
    intro p j hj
    have hlt := (List.getElem?_eq_some_iff.1 hj).1
    refine ⟨hlt, ?_⟩
    rw [List.getElem?_reverse (by omega), ← hj]
    congr 1
    omega
  have hi : xs.reverse[i]? = some (k, x') := hmem.2 (List.mem_append_right _ List.mem_cons_self)
  have hlt : i < xs.length := by
    have hlt := (List.getElem?_eq_some_iff.1 hi).1
    rwa [List.length_reverse] at hlt
  rw [List.getElem?_reverse hlt] at hi
  refine ⟨xs.length - 1 - i, k, hi, fun j k' y hj => ?_⟩
  obtain ⟨hjlt, hj⟩ := hplace hj
  rcases List.mem_append.1 (hmem.1 hj) with hrest | heq
  · rcases (List.pairwise_append.1 hsorted).2.2 _ hrest _ List.mem_cons_self with hbelow | ⟨habove, hlater⟩
    · exact ⟨hbelow.asymm, fun _ => hbelow⟩
    · exact ⟨habove, fun hji => absurd hlater (by omega)⟩
  · cases List.mem_singleton.1 heq
    exact ⟨fun hbelow => hbelow.asymm hbelow, fun hji => absurd hji (by omega)⟩

theorem best?_eq_none {better : Value ρ → Value ρ → Bool} : xs.best? better = none ↔ xs = [] := by
  cases xs with
  | nil => exact ⟨fun _ => rfl, fun _ => rfl⟩
  | cons p rest => exact ⟨nofun, nofun⟩

theorem StablySorted.eq_nil (h : StablySorted xs ys) : ys = [] ↔ xs = [] := by
  rw [← List.length_eq_zero_iff, h.perm.length_eq, List.length_map, List.length_eq_zero_iff]

/-- The first element with the least key is the first of the elements in the order of their keys. -/
theorem least?_eq_head? (h : Value.Ordered (xs.map Prod.fst)) (hs : StablySorted xs ys) : xs.least? = ys.head? := by
  cases hx : xs.least? with
  | none => rw [hs.eq_nil.2 (best?_eq_none.1 hx), List.head?_nil]
  | some x =>
    cases hy : ys.head? with
    | none =>
      rw [hs.eq_nil.1 (List.head?_eq_none_iff.1 hy)] at hx
      cases hx
    | some y => rw [(least?_isFirst h hx).unique (hs.head_isFirst hy)]

/-- The first element with the greatest key is the last of the elements that were in the order of their keys, had they
    come in the opposite order. -/
theorem greatest?_eq_getLast? (h : Value.Ordered (xs.map Prod.fst)) (hs : StablySorted xs.reverse ys) :
    xs.greatest? = ys.getLast? := by
  cases hx : xs.greatest? with
  | none => rw [hs.eq_nil.2 (by rw [best?_eq_none.1 hx, List.reverse_nil]), List.getLast?_nil]
  | some x =>
    cases hy : ys.getLast? with
    | none =>
      rw [List.reverse_eq_nil_iff.1 (hs.eq_nil.1 (List.getLast?_eq_none_iff.1 hy))] at hx
      cases hx
    | some y => rw [(greatest?_isFirst h hx).unique (hs.last_isFirst hy)]

/-! ### Checking keys -/

/-- Values that are all numbers or all strings. -/
def OneKind (keys : List (Value ρ)) : Prop := (∀ k ∈ keys, k.kind = .number) ∨ ∀ k ∈ keys, k.kind = .string

theorem OneKind.reverse {keys : List (Value ρ)} (h : OneKind keys) : OneKind keys.reverse :=
  h.imp (fun h k hk => h k (List.mem_reverse.1 hk)) fun h k hk => h k (List.mem_reverse.1 hk)

theorem wantedKind?_eq_some {k : Value ρ} {kind : ValueKind} :
    wantedKind? k = some kind ↔ k.kind = kind ∧ (kind = .number ∨ kind = .string) := by
  cases k <;> cases kind <;> simp [wantedKind?, Value.kind]

/-- Keys pass their check if they are all numbers or all strings. -/
theorem checkKeys_of_oneKind (function : String) {keys : List (Value ρ)} (h : OneKind keys) :
    checkKeys function keys = .ok () := by
  cases keys with
  | nil => rfl
  | cons key keys =>
    have hwanted : ∀ k ∈ key :: keys, (some k.kind != wantedKind? key) = false := by
      intro k hk
      rcases h with h | h
      · rw [wantedKind?_eq_some.2 ⟨h key List.mem_cons_self, .inl rfl⟩, h k hk]
        rfl
      · rw [wantedKind?_eq_some.2 ⟨h key List.mem_cons_self, .inr rfl⟩, h k hk]
        rfl
    have hfind : (key :: keys).find? (fun k => some k.kind != wantedKind? key) = none :=
      List.find?_eq_none.2 fun k hk => by rw [hwanted k hk]; exact Bool.false_ne_true
    rw [checkKeys, hfind]

/-- Other keys are refused, by a failure of the function that needs them. -/
theorem checkKeys_of_not_oneKind (function : String) {keys : List (Value ρ)} (h : ¬ OneKind keys) :
    ∃ wanted received, checkKeys function keys = .error (.wrongKey function wanted received) := by
  cases keys with
  | nil => exact absurd (.inl nofun) h
  | cons key keys =>
    cases hfind : (key :: keys).find? (fun k => some k.kind != wantedKind? key) with
    | some k => exact ⟨wantedKind? key, k.kind, by rw [checkKeys, hfind]⟩
    | none =>
      refine absurd ?_ h
      have hkind : ∀ k ∈ key :: keys, wantedKind? key = some k.kind := fun k hk => by
        have hk := List.find?_eq_none.1 hfind k hk
        rw [bne_iff_ne, not_not] at hk
        exact hk.symm
      rcases (wantedKind?_eq_some.1 (hkind key List.mem_cons_self)).2 with hkey | hkey
      · exact .inl fun k hk => Option.some.inj ((hkind k hk).symm.trans (hkey ▸ hkind key List.mem_cons_self))
      · exact .inr fun k hk => Option.some.inj ((hkind k hk).symm.trans (hkey ▸ hkind key List.mem_cons_self))

end Keyed

theorem Value.Ordered.oneKind {keys : List (Value ρ)} (h : Ordered keys) : Keyed.OneKind keys := by
  rcases h with h | h
  · refine .inl fun k hk => ?_
    obtain ⟨n, rfl, -⟩ := h k hk
    rfl
  · refine .inr fun k hk => ?_
    obtain ⟨s, rfl⟩ := h k hk
    rfl

theorem Keyed.OneKind.ordered {keys : List (Value ρ)} (h : OneKind keys)
    (hnan : ∀ k ∈ keys, k ≠ .number (.double .nan)) : Value.Ordered keys := by
  rcases h with h | h
  · refine .inl fun k hk => ?_
    have hkind := h k hk
    have hk := hnan k hk
    cases k with
    | number n => exact ⟨n, rfl, fun hn => hk (congrArg _ hn)⟩
    | _ => cases hkind
  · refine .inr fun k hk => ?_
    have hkind := h k hk
    cases k with
    | string s => exact ⟨s, rfl⟩
    | _ => cases hkind

end JsonQuery
