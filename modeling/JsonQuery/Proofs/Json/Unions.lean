import JsonQuery.Proofs.Json.Members

/-! Laws of unions. What is put into members is a row of pairs, and of the pairs two things count that go by
    opposite rules: the keys keep the order in which they came first, and of the values the last ones stay. Both
    are kept by the members that the pairs themselves stand for, so putting these in is putting the pairs in, and
    members that were united before can be united in any groups. -/

namespace JsonQuery.Members

variable {α : Type} {key : String} {ms more : Members α}

/-! ### One pair among many -/

theorem mem_keys_put_self (key : String) (v : α) (ms : Members α) : key ∈ keys (put key v ms) := by
  have hget : get? key (put key v ms) = some v := by rw [get?_put, if_pos rfl]
  exact mem_keys_of_get? hget

theorem union_cons (ms : Members α) (p : String × α) (more : Members α) :
    union ms (p :: more) = union (put p.1 p.2 ms) more := rfl

/-- A key that is there can be given its value before or after all other keys. -/
theorem put_union_of_not_mem (v : α) : ∀ {more ms : Members α}, key ∈ keys ms → key ∉ keys more →
    put key v (union ms more) = union (put key v ms) more := by
  intro more
  induction more with
  | nil => exact fun _ _ => rfl
  | cons p more ih =>
    intro ms hms hmore
    have hp : key ≠ p.1 := fun hk => hmore (hk ▸ List.mem_cons_self)
    have hrest : key ∉ keys more := fun hmem => hmore (List.mem_cons_of_mem p.1 hmem)
    rw [union_cons, union_cons, ih (mem_keys_put p.2 hms) hrest, put_comm_of_mem hp v p.2 hms]

/-- Giving a key its last value before the members are put in or after that is the same. -/
theorem union_put (v : α) : ∀ {more : Members α}, Distinct more → ∀ ms : Members α,
    union ms (put key v more) = put key v (union ms more) := by
  intro more
  induction more with
  | nil => exact fun _ _ => rfl
  | cons p more ih =>
    intro h ms
    obtain ⟨hp, hmore⟩ := List.nodup_cons.1 h
    by_cases hk : p.1 = key
    · -- the value comes before the other members on the left and after them on the right, and none of them has the key
      subst hk
      rw [put, if_pos rfl, union_cons, union_cons,
        put_union_of_not_mem v (mem_keys_put_self p.1 p.2 ms) hp, put_put]
    · rw [put, if_neg hk, union_cons, union_cons, ih hmore]

/-- Putting in the members that a row of pairs stands for is putting in the pairs. -/
theorem union_ofPairs (ms : Members α) (pairs : List (String × α)) : union ms (ofPairs pairs) = union ms pairs := by
  induction pairs using List.reverseRecOn with
  | nil => rfl
  | append_singleton pairs p ih =>
    rw [ofPairs_append, union_put p.2 (distinct_ofPairs pairs), ih, union_append]

/-! ### Order and values -/

/-- Each key stands where it came first. -/
theorem keys_ofPairs (pairs : List (String × α)) : keys (ofPairs pairs) = (pairs.map Prod.fst).eraseDups := by
  induction pairs using List.reverseRecOn with
  | nil => rfl
  | append_singleton pairs p ih =>
    have hmem : p.1 ∈ keys (ofPairs pairs) ↔ p.1 ∈ pairs.map Prod.fst := by rw [ih, List.mem_eraseDups]
    rw [ofPairs_append, List.map_append, List.eraseDups_append, ← ih]
    by_cases hp : p.1 ∈ keys (ofPairs pairs)
    · have hdrop : (List.map Prod.fst [p]).removeAll (pairs.map Prod.fst) = [] := by
        simpa [List.removeAll] using hmem.1 hp
      rw [keys_put_of_mem p.2 hp, hdrop]
      simp
    · have hkeep : (List.map Prod.fst [p]).removeAll (pairs.map Prod.fst) = [p.1] := by
        simpa [List.removeAll] using mt hmem.2 hp
      rw [keys_put_of_not_mem p.2 hp, hkeep]
      rfl

/-- A key has what is put in for it, if anything is. -/
theorem get?_union (key : String) (ms more : Members α) :
    get? key (union ms more) = (get? key (ofPairs more)).or (get? key ms) := by
  induction more using List.reverseRecOn with
  | nil => rfl
  | append_singleton more p ih =>
    rw [union_append, ofPairs_append, get?_put, get?_put, ih]
    split <;> rfl

end JsonQuery.Members
