import JsonQuery.Json.Members
import Mathlib.Data.List.Induction
import Mathlib.Data.List.Perm.Subperm

/-! Laws of members. Giving a key the value that it has changes nothing, of two values given to one key the later
    one counts, and what is done to one key can be done before or after what is done to another, as long as no
    new key changes places with a new key. -/

namespace JsonQuery.Members

variable {α : Type} {key key' : String} {ms more : Members α}

/-! ### Looking up -/

theorem get?_eq_none : ∀ {ms : Members α}, get? key ms = none ↔ key ∉ keys ms := by
  intro ms
  induction ms with
  | nil => simp [get?, keys]
  | cons p rest ih =>
    by_cases h : p.1 = key
    · simp [get?, keys, h]
    · rw [get?, if_neg h, ih]
      simp [keys, Ne.symm h]

theorem mem_keys_of_get? {v : α} (h : get? key ms = some v) : key ∈ keys ms := by
  refine Decidable.byContradiction fun hmem => ?_
  rw [get?_eq_none.2 hmem] at h
  cases h

theorem mem_of_get? {v : α} : ∀ {ms : Members α}, get? key ms = some v → (key, v) ∈ ms := by
  intro ms
  induction ms with
  | nil => exact nofun
  | cons p rest ih =>
    intro h
    rw [get?] at h
    split at h
    next hp =>
      cases h
      exact hp ▸ List.mem_cons_self
    next => exact List.mem_cons_of_mem _ (ih h)

theorem get?_erase (key key' : String) : ∀ ms : Members α,
    get? key' (erase key ms) = if key = key' then none else get? key' ms := by
  intro ms
  induction ms with
  | nil => exact (ite_self none).symm
  | cons p rest ih =>
    by_cases hp : p.1 = key
    · have herase : erase key (p :: rest) = erase key rest := by simp [erase, hp]
      rw [herase, ih]
      by_cases h : key = key'
      · rw [if_pos h, if_pos h]
      · rw [if_neg h, if_neg h, get?, if_neg (hp ▸ h)]
    · have herase : erase key (p :: rest) = p :: erase key rest := by simp [erase, hp]
      rw [herase, get?, get?, ih]
      by_cases h : p.1 = key'
      · rw [if_pos h, if_pos h, if_neg fun hk => hp (h.trans hk.symm)]
      · rw [if_neg h, if_neg h]

/-! ### One key -/

theorem put_get? {v : α} : ∀ {ms : Members α}, get? key ms = some v → put key v ms = ms := by
  intro ms
  induction ms with
  | nil => exact nofun
  | cons p rest ih =>
    intro h
    rw [get?] at h
    rw [put]
    split at h
    next hp =>
      cases h
      rw [if_pos hp, ← hp]
    next hp => rw [if_neg hp, ih h]

theorem put_of_not_mem {key : String} (value : α) :
    ∀ {ms : Members α}, key ∉ keys ms → put key value ms = ms ++ [(key, value)] := by
  intro ms
  induction ms with
  | nil => exact fun _ => rfl
  | cons p rest ih =>
    intro h
    have hk : ¬ p.1 = key := fun hk => h (hk ▸ List.mem_cons_self)
    rw [put, if_neg hk, ih fun hmem => h (List.mem_cons_of_mem p.1 hmem)]
    rfl

theorem put_put (key : String) (v w : α) : ∀ ms : Members α, put key w (put key v ms) = put key w ms := by
  intro ms
  induction ms with
  | nil => simp [put]
  | cons p rest ih =>
    by_cases hp : p.1 = key
    · simp [put, hp]
    · rw [put, if_neg hp, put, if_neg hp, ih, put, if_neg hp]

theorem erase_put (key : String) (v : α) : ∀ ms : Members α, erase key (put key v ms) = erase key ms := by
  intro ms
  induction ms with
  | nil => simp [put, erase]
  | cons p rest ih =>
    by_cases hp : p.1 = key
    · simp [put, erase, hp]
    · simpa [put, erase, hp] using ih

theorem erase_of_not_mem (h : key ∉ keys ms) : erase key ms = ms := by
  rw [erase, List.filter_eq_self]
  intro p hp
  have hne : p.1 ≠ key := fun hk => h (hk ▸ List.mem_map_of_mem hp)
  simpa using hne

/-! ### Two keys -/

theorem erase_put_of_ne (h : key ≠ key') (v : α) : ∀ ms : Members α,
    erase key (put key' v ms) = put key' v (erase key ms) := by
  intro ms
  induction ms with
  | nil => simp [put, erase, h.symm]
  | cons p rest ih =>
    by_cases hp : p.1 = key'
    · simp [put, erase, hp, h.symm]
    · by_cases hk : p.1 = key
      · simpa [put, erase, hp, hk, h] using ih
      · simpa [put, erase, hp, hk] using ih

/-- A value is given to a key that is there without moving anything. -/
theorem put_comm_of_mem (h : key ≠ key') (v w : α) : ∀ {ms : Members α}, key ∈ keys ms →
    put key v (put key' w ms) = put key' w (put key v ms) := by
  intro ms
  induction ms with
  | nil => exact nofun
  | cons p rest ih =>
    intro hmem
    by_cases hp : p.1 = key
    · simp [put, hp, h]
    · have hrest : key ∈ keys rest := (List.mem_cons.1 hmem).resolve_left (Ne.symm hp)
      by_cases hk : p.1 = key'
      · simp [put, hk, h.symm]
      · simp [put, hp, hk, ih hrest]

theorem mem_keys_put (v : α) (h : key ∈ keys ms) : key ∈ keys (put key' v ms) := by
  by_cases hmem : key' ∈ keys ms
  · rwa [keys_put_of_mem v hmem]
  · rw [keys_put_of_not_mem v hmem]
    exact List.mem_append_left _ h

/-! ### Many keys -/

theorem union_append (ms more : Members α) (p : String × α) :
    union ms (more ++ [p]) = put p.1 p.2 (union ms more) := by
  rw [union, List.foldl_append]
  rfl

theorem ofPairs_append (pairs : List (String × α)) (p : String × α) :
    ofPairs (pairs ++ [p]) = put p.1 p.2 (ofPairs pairs) := union_append [] pairs p

theorem get?_append (key : String) :
    ∀ ms more : Members α, get? key (ms ++ more) = (get? key ms).or (get? key more) := by
  intro ms more
  induction ms with
  | nil => rfl
  | cons p rest ih =>
    rw [List.cons_append, get?, get?]
    split
    next => rfl
    next => exact ih

theorem mem_keys_union : ∀ (more : Members α) {ms : Members α}, key ∈ keys ms → key ∈ keys (union ms more) := by
  intro more
  induction more with
  | nil => exact id
  | cons p more ih => exact fun h => ih (mem_keys_put p.2 h)

theorem mem_of_mem_put {p : String × α} {v : α} : ∀ {ms : Members α}, p ∈ put key v ms → p = (key, v) ∨ p ∈ ms := by
  intro ms
  induction ms with
  | nil => exact fun h => .inl (List.mem_singleton.1 h)
  | cons q rest ih =>
    intro h
    rw [put] at h
    split at h
    next => exact (List.mem_cons.1 h).imp_right (List.mem_cons_of_mem _)
    next =>
      rcases List.mem_cons.1 h with rfl | hrest
      · exact .inr List.mem_cons_self
      · exact (ih hrest).imp_right (List.mem_cons_of_mem _)

theorem mem_of_mem_union {p : String × α} :
    ∀ {more ms : Members α}, p ∈ union ms more → p ∈ ms ∨ p ∈ more := by
  intro more
  induction more with
  | nil => exact .inl
  | cons q more ih =>
    intro ms h
    rcases @ih (put q.1 q.2 ms) h with h | h
    · rcases mem_of_mem_put h with rfl | h
      · exact .inr List.mem_cons_self
      · exact .inl h
    · exact .inr (List.mem_cons_of_mem _ h)

theorem mem_of_mem_ofPairs {p : String × α} {pairs : List (String × α)} (h : p ∈ ofPairs pairs) : p ∈ pairs :=
  (mem_of_mem_union h).resolve_left List.not_mem_nil

/-! ### Distinct keys -/

instance (ms : Members α) : Decidable (Distinct ms) := inferInstanceAs (Decidable ms.keys.Nodup)

theorem get?_of_mem {v : α} : ∀ {ms : Members α}, Distinct ms → (key, v) ∈ ms → get? key ms = some v := by
  intro ms
  induction ms with
  | nil => exact nofun
  | cons p rest ih =>
    intro h hmem
    obtain ⟨hp, hrest⟩ := List.nodup_cons.1 h
    rcases List.mem_cons.1 hmem with rfl | hmem
    · rw [get?, if_pos rfl]
    · have hne : p.1 ≠ key := fun hk => hp (hk ▸ List.mem_map_of_mem hmem)
      rw [get?, if_neg hne, ih hrest hmem]

theorem distinct_of_perm (h : Distinct ms) (hperm : ms.Perm more) : Distinct more :=
  (hperm.map Prod.fst).nodup_iff.1 h

/-- Where no key stands twice, what a key has does not depend on the order of the members. -/
theorem get?_of_perm (h : Distinct ms) (hperm : ms.Perm more) (key : String) : get? key ms = get? key more := by
  cases hget : get? key ms with
  | some v => exact (get?_of_mem (distinct_of_perm h hperm) (hperm.mem_iff.1 (mem_of_get? hget))).symm
  | none =>
    have hkeys : key ∉ keys more := mt (hperm.map Prod.fst).mem_iff.2 (get?_eq_none.1 hget)
    exact (get?_eq_none.2 hkeys).symm

/-- Members of which each key is among as many others have the same keys as these. -/
theorem keys_perm_of_subset (h : Distinct ms) (hsub : keys ms ⊆ keys more) (hlength : more.length ≤ ms.length) :
    (keys ms).Perm (keys more) := by
  have hsubperm : (keys ms).Subperm (keys more) := List.Nodup.subperm h hsub
  refine hsubperm.perm_of_length_le ?_
  rwa [keys, keys, List.length_map, List.length_map]

theorem distinct_put (v : α) (h : Distinct ms) : Distinct (put key v ms) := by
  rw [Distinct]
  by_cases hmem : key ∈ keys ms
  · rwa [keys_put_of_mem v hmem]
  · rw [keys_put_of_not_mem v hmem]
    exact List.nodup_append.2 ⟨h, List.pairwise_singleton _ _, fun k hk k' hk' => by
      rw [List.mem_singleton.1 hk']
      exact fun he => hmem (he ▸ hk)⟩

theorem distinct_ofPairs (pairs : List (String × α)) : Distinct (ofPairs pairs) := by
  induction pairs using List.reverseRecOn with
  | nil => exact List.nodup_nil
  | append_singleton pairs p ih =>
    rw [ofPairs_append]
    exact distinct_put p.2 ih

theorem union_of_distinct : ∀ {more ms : Members α}, Distinct (ms ++ more) → union ms more = ms ++ more := by
  intro more
  induction more with
  | nil => exact fun {ms} _ => (List.append_nil ms).symm
  | cons p more ih =>
    intro ms h
    have hk : p.1 ∉ keys ms := by
      intro hk
      rw [Distinct, keys, List.map_append, List.nodup_append] at h
      exact h.2.2 p.1 hk p.1 List.mem_cons_self rfl
    show union (put p.1 p.2 ms) more = _
    rw [put_of_not_mem p.2 hk, ih (by rwa [List.append_assoc]), List.append_assoc]
    rfl

theorem ofPairs_of_distinct {ms : Members α} (h : Distinct ms) :
    ofPairs ms = ms := @union_of_distinct α ms [] h

end JsonQuery.Members
