/-! Finding a text within a text. -/

namespace JsonQuery.Text

/-- Whether a text stands anywhere in another; the empty text stands in every text. -/
def occursIn (part : List Char) : List Char → Bool
  | [] => part.isEmpty
  | c :: cs => part.isPrefixOf (c :: cs) || occursIn part cs

theorem occursIn_iff {part : List Char} : ∀ {cs : List Char}, occursIn part cs = true ↔ part <:+: cs
  | [] => by simp [occursIn]
  | c :: cs => by
    rw [occursIn, Bool.or_eq_true, occursIn_iff, List.isPrefixOf_iff_prefix, List.infix_cons_iff]

end JsonQuery.Text
