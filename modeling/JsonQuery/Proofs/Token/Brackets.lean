import JsonQuery.Token.Basic
import Mathlib.Data.List.Induction

/-! Brackets. A row of tokens is matched from its start on: a bracket that opens is put on top of those that
    are open already, and one that closes takes the innermost away, if it is the one that closes that. What is
    left are the brackets that the row leaves open. -/

namespace JsonQuery

/-- The mark that closes what a mark opens. -/
def Mark.closer? : Mark → Option Mark
  | .lbracket | .filter => some .rbracket
  | .lbrace => some .rbrace
  | .lparen => some .rparen
  | _ => none

/-- Whether a mark closes a bracket. -/
def Mark.closes : Mark → Bool
  | .rbracket | .rbrace | .rparen => true
  | _ => false

/-- The mark that closes what a lexeme opens. -/
def Lexeme.closer? : Lexeme → Option Mark
  | .mark m => m.closer?
  | _ => none

/-- Whether a lexeme closes a bracket. -/
def Lexeme.closes : Lexeme → Bool
  | .mark m => m.closes
  | _ => false

/-- The brackets open after a token, the innermost first; nothing if the token closes a bracket other than the
    innermost. -/
def Token.matched? (unclosed : List Token) (t : Token) : Option (List Token) :=
  if t.lexeme.closer?.isSome then some (t :: unclosed)
  else if t.lexeme.closes then
    match unclosed with
    | opener :: outer => if opener.lexeme.closer?.map Lexeme.mark = some t.lexeme then some outer else none
    | [] => none
  else some unclosed

/-- The brackets that a row of tokens leaves open, the innermost first; nothing if a bracket is closed by
    another mark than its own. -/
def unclosed? (ts : List Token) : Option (List Token) := ts.foldlM Token.matched? []

/-- What closes a bracket opens none. -/
theorem closes_of_closer? {l : Lexeme} {closer : Mark} (h : l.closer? = some closer) :
    closer.closes = true ∧ closer.closer? = none := by
  cases l with
  | mark m => cases m <;> cases h <;> exact ⟨rfl, rfl⟩
  | _ => cases h

section
variable {ts unclosed : List Token} {t opener : Token}

theorem unclosed?_concat (h : unclosed? ts = some unclosed) (t : Token) :
    unclosed? (ts ++ [t]) = Token.matched? unclosed t := by
  unfold unclosed? at h ⊢
  rw [List.foldlM_append, h]
  cases hm : Token.matched? unclosed t <;> simp [hm]

theorem matched?_plain (hopens : t.lexeme.closer? = none) (hcloses : t.lexeme.closes = false) :
    Token.matched? unclosed t = some unclosed := by
  simp [Token.matched?, hopens, hcloses]

theorem matched?_opener {closer : Mark} (h : t.lexeme.closer? = some closer) :
    Token.matched? unclosed t = some (t :: unclosed) := by
  simp [Token.matched?, h]

theorem matched?_closer {closer : Mark} (hopener : opener.lexeme.closer? = some closer)
    (ht : t.lexeme = .mark closer) : Token.matched? (opener :: unclosed) t = some unclosed := by
  obtain ⟨hcloses, hopens⟩ := closes_of_closer? hopener
  have hopens : t.lexeme.closer? = none := by rw [ht]; exact hopens
  have hcloses : t.lexeme.closes = true := by rw [ht]; exact hcloses
  rw [Token.matched?, hopens, hcloses]
  simp [hopener, ht]

/-- The brackets open after a token were open before, but for the token. -/
theorem mem_of_matched? {outer : List Token} (h : Token.matched? outer t = some unclosed) {u : Token}
    (hu : u ∈ unclosed) : u ∈ outer ∨ u = t := by
  unfold Token.matched? at h
  split at h
  next =>
    cases h
    exact (List.mem_cons.1 hu).symm
  next =>
    split at h
    next =>
      split at h
      next =>
        split at h
        next =>
          cases h
          exact .inl (List.mem_cons_of_mem _ hu)
        next => cases h
      next => cases h
    next =>
      cases h
      exact .inl hu

/-- The brackets that a row of tokens leaves open are among the tokens. -/
theorem mem_of_unclosed? (h : unclosed? ts = some unclosed) : ∀ u ∈ unclosed, u ∈ ts := by
  induction ts using List.reverseRecOn generalizing unclosed with
  | nil =>
    cases h
    exact nofun
  | append_singleton ts t ih =>
    intro u hu
    unfold unclosed? at h ih
    rw [List.foldlM_append] at h
    obtain ⟨outer, houter, h⟩ := Option.bind_eq_some_iff.1 h
    obtain ⟨last, hlast, h⟩ := Option.bind_eq_some_iff.1 h
    cases h
    rcases mem_of_matched? hlast hu with hu | rfl
    · exact List.mem_append_left _ (ih houter u hu)
    · exact List.mem_append_right _ List.mem_cons_self

end

end JsonQuery
