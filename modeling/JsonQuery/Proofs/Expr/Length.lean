import JsonQuery.Proofs.Expr.Height

/-! Heights and lengths. Every node of a tree but a reference, which is none of its own, is written with a
    lexeme that is its own. So no tree is higher than the row of lexemes is long that it stands for. -/

namespace JsonQuery.Expr

open Grammar

section
variable {ls ms : List Lexeme} {l r : Lexeme} {n m : Nat}

theorem max_le_length (hn : n ≤ ls.length) (hm : m ≤ ms.length) : max n m + 1 ≤ (ls ++ l :: ms).length := by
  rw [List.length_append, List.length_cons]
  omega

theorem succ_le_length (hn : n ≤ ls.length) : n + 1 ≤ (l :: (ls ++ [r])).length := by
  rw [List.length_cons, List.length_append]
  omega

end

theorem height_selector {b : Option Expr} : ∀ {ls : List Lexeme} {e : Expr}, Selector b ls e →
    e.height = heightOption b + 1
  | _, _, .index _ | _, _, .slice _ _ | _, _, .stepped _ _ _ _ => rfl

mutual

/-- A tree is no higher than its row of lexemes is long. -/
theorem height_pipeline : ∀ {ls : List Lexeme} {e : Expr}, Pipeline ls e → e.height ≤ ls.length
  | _, _, .disjunction h => height_disjunction h
  | _, _, .pipe hl hr => max_le_length (height_pipeline hl) (height_disjunction hr)

theorem height_disjunction : ∀ {ls : List Lexeme} {e : Expr}, Disjunction ls e → e.height ≤ ls.length
  | _, _, .conjunction h => height_conjunction h
  | _, _, .or hl hr => max_le_length (height_disjunction hl) (height_conjunction hr)

theorem height_conjunction : ∀ {ls : List Lexeme} {e : Expr}, Conjunction ls e → e.height ≤ ls.length
  | _, _, .comparison h => height_comparison h
  | _, _, .and hl hr => max_le_length (height_conjunction hl) (height_comparison hr)

theorem height_comparison : ∀ {ls : List Lexeme} {e : Expr}, Comparison ls e → e.height ≤ ls.length
  | _, _, .not h => Nat.succ_le_succ (height_comparison h)
  | _, _, .operands h => height_operands h
  | _, _, .operandsNot _ hl hr =>
    max_le_length (height_operands hl) (Nat.succ_le_succ (height_comparison hr))

theorem height_operands : ∀ {ls : List Lexeme} {e : Expr}, Operands ls e → e.height ≤ ls.length
  | _, _, .postfixed h => height_postfixed h
  | _, _, .comparison _ hl hr => max_le_length (height_operands hl) (height_postfixed hr)

theorem height_postfixed : ∀ {ls : List Lexeme} {e : Expr}, Postfixed ls e → e.height ≤ ls.length
  | _, _, .primary h => height_primary h
  | _, _, .suffixed hb hs => by
    have hb := height_postfixed hb
    have hs := height_suffix hs
    rw [List.length_append]
    omega

theorem height_suffix : ∀ {b : Expr} {ls : List Lexeme} {e : Expr}, Suffix b ls e →
    e.height ≤ b.height + ls.length
  | b, _, _, .field h => by
    have h := height_field h
    have := height_pos b
    simp only [height, List.length_cons]
    omega
  | b, _, _, .values => Nat.le_succ (b.height + 1)
  | _, _, _, .bracketed h => height_bracketed h

theorem height_bracketed : ∀ {b : Option Expr} {ls : List Lexeme} {e : Expr}, Bracketed b ls e →
    e.height ≤ heightOption b + ls.length
  | _, _, _, .selector h => by
    rw [height_selector h, List.length_cons]
    omega
  | b, _, _, .items => Nat.add_le_add_left (show 1 ≤ 3 by decide) (heightOption b)
  | b, _, _, .flatten => Nat.le_refl (heightOption b + 1)
  | _, _, _, .filter h => by
    have h := height_pipeline h
    simp only [height, List.length_cons, List.length_append]
    omega

theorem height_field : ∀ {ls : List Lexeme} {e : Expr}, Field ls e → e.height ≤ ls.length
  | _, _, .name _ | _, _, .quotedName _ => Nat.le_refl 1
  | _, _, .call h => height_call h
  | _, _, .list h => succ_le_length (height_row h)
  | _, _, .hash h => height_hash h

theorem height_primary : ∀ {ls : List Lexeme} {e : Expr}, Primary ls e → e.height ≤ ls.length
  | _, _, .literal _ | _, _, .rawString _ | _, _, .name _ | _, _, .quotedName _ | _, _, .current
  | _, _, .values => Nat.le_refl 1
  | _, _, .call h => height_call h
  | _, _, .parentheses h => Nat.le_of_succ_le (succ_le_length (height_pipeline h))
  | ls, _, .bracketed h => Nat.zero_add ls.length ▸ height_bracketed h
  | _, _, .list h _ => succ_le_length (height_row h)
  | _, _, .hash h => height_hash h

theorem height_row : ∀ {ls : List Lexeme} {es : List Expr}, Row Pipeline ls es → heightList es ≤ ls.length
  | _, _, .one h => Nat.max_le.2 ⟨height_pipeline h, Nat.zero_le _⟩
  | _, _, .more h hr => Nat.le_of_succ_le (max_le_length (height_pipeline h) (height_row hr))

theorem height_hash : ∀ {ls : List Lexeme} {e : Expr}, Hash ls e → e.height ≤ ls.length
  | _, _, .pairs h => succ_le_length (height_pairs h)

theorem height_pair : ∀ {ls : List Lexeme} {p : String × Expr}, Pair ls p → p.2.height ≤ ls.length
  | _, _, .pair _ h =>
    have h := height_pipeline h
    Nat.le_succ_of_le (Nat.le_succ_of_le h)

theorem height_pairs : ∀ {ls : List Lexeme} {ps : List (String × Expr)}, Row Pair ls ps →
    heightPairs ps ≤ ls.length
  | _, _, .one h => Nat.max_le.2 ⟨height_pair h, Nat.zero_le _⟩
  | _, _, .more h hr => Nat.le_of_succ_le (max_le_length (height_pair h) (height_pairs hr))

theorem height_call : ∀ {ls : List Lexeme} {e : Expr}, Call ls e → e.height ≤ ls.length
  | _, _, .none _ => Nat.le_of_ble_eq_true rfl
  | _, _, .some h => Nat.le_succ_of_le (succ_le_length (height_arguments h))

theorem height_argument : ∀ {ls : List Lexeme} {e : Expr}, Grammar.Argument ls e → e.height ≤ ls.length
  | _, _, .value h => height_pipeline h
  | _, _, .reference h =>
    have h := height_pipeline h
    Nat.le_succ_of_le h

theorem height_arguments : ∀ {ls : List Lexeme} {args : List Expr}, Row Grammar.Argument ls args →
    heightList args ≤ ls.length
  | _, _, .one h => Nat.max_le.2 ⟨height_argument h, Nat.zero_le _⟩
  | _, _, .more h hr => Nat.le_of_succ_le (max_le_length (height_argument h) (height_arguments hr))

end

end JsonQuery.Expr
