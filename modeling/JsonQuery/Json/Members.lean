/-! Members of an object: pairs of a key and a value in the order in which the keys first came. `put` gives a
    key a value without moving it; `ofPairs` and `union` are runs of `put`, so a repeated key stands where it
    came first and holds what it was given last. -/

namespace JsonQuery

/-- Keys with their values, in order. -/
abbrev Members (α : Type) := List (String × α)

namespace Members

variable {α : Type}

/-- The value of a key. -/
def get? (key : String) : Members α → Option α
  | [] => none
  | (k, v) :: rest => if k = key then some v else get? key rest

/-- Gives a key a value: in its place if it has one, else at the end. -/
def put (key : String) (value : α) : Members α → Members α
  | [] => [(key, value)]
  | (k, v) :: rest => if k = key then (key, value) :: rest else (k, v) :: put key value rest

/-- Takes a key away. -/
def erase (key : String) (ms : Members α) : Members α := ms.filter fun (k, _) => k != key

/-- Puts the second members into the first, in order. -/
def union (ms more : Members α) : Members α := more.foldl (fun acc (k, v) => put k v acc) ms

/-- The members that a row of pairs stands for. -/
def ofPairs (pairs : List (String × α)) : Members α := union [] pairs

/-- The keys, in order. -/
def keys (ms : Members α) : List String := ms.map Prod.fst

/-- The values, in the order of their keys. -/
def values (ms : Members α) : List α := ms.map Prod.snd

/-- Whether no key stands twice. -/
def Distinct (ms : Members α) : Prop := ms.keys.Nodup

theorem get?_put (key key' : String) (value : α) : ∀ ms : Members α,
    get? key' (put key value ms) = if key = key' then some value else get? key' ms
  | [] => by simp [put, get?]
  | (k, v) :: rest => by
    unfold put
    by_cases h : k = key
    · subst h; by_cases h' : k = key' <;> simp [get?, h']
    · by_cases h' : k = key'
      · subst h'; simp [get?, h, Ne.symm h]
      · simp [get?, h, h', get?_put key key' value rest]

theorem keys_put_of_mem {key : String} (value : α) : ∀ {ms : Members α},
    key ∈ keys ms → keys (put key value ms) = keys ms
  | (k, v) :: rest, h => by
    unfold put
    by_cases hk : k = key
    · simp [keys, hk]
    · have : key ∈ keys rest := by simpa [keys, Ne.symm hk] using h
      simpa [keys, hk] using keys_put_of_mem value this

theorem keys_put_of_not_mem {key : String} (value : α) : ∀ {ms : Members α},
    key ∉ keys ms → keys (put key value ms) = keys ms ++ [key]
  | [], _ => rfl
  | (k, v) :: rest, h => by
    have hk : ¬ k = key := fun e => h (by simp [keys, e])
    have hr : key ∉ keys rest := fun e => h (by simp only [keys, List.map_cons]; exact List.mem_cons_of_mem _ e)
    unfold put
    simpa [keys, hk] using keys_put_of_not_mem value hr

end Members
end JsonQuery
