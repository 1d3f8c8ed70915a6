import JsonQuery.Proofs.Expr.Parse

/-! The shape of the trees that texts denote. To the right of a point stands a field, a call or a
    multiselect; references are arguments only; no step is 0 and no multiselect is empty. Which names
    functions may have, and which values may stand in literals or be indices and bounds, is left open. -/

namespace JsonQuery.Expr

/-- Whether an expression may stand to the right of a point. -/
def isField : Expr → Bool
  | identifier _ | call .. | multiselectList _ | multiselectHash _ => true
  | _ => false

mutual

/-- The trees of texts in which functions have names of some kind, and literals, indices and bounds have values of
    some kind. -/
def Shaped (name : String → Prop) (value : Json → Prop) : Expr → Prop
  | identifier _ | current | rawString _ => True
  | literal v => value v
  | index base i => value (.number (.int i)) ∧ ShapedOption name value base
  | flatten base | objectWildcard base | arrayWildcard base => ShapedOption name value base
  | slice base start stop step =>
    step ≠ some 0 ∧ (∀ i, some i ∈ [start, stop, step] → value (.number (.int i))) ∧ ShapedOption name value base
  | subexpression l r => r.isField = true ∧ Shaped name value l ∧ Shaped name value r
  | pipe l r | or l r | and l r | comparison _ l r => Shaped name value l ∧ Shaped name value r
  | not operand => Shaped name value operand
  | filter source predicate => ShapedOption name value source ∧ Shaped name value predicate
  | multiselectList items => items ≠ [] ∧ ShapedList name value items
  | multiselectHash pairs => pairs ≠ [] ∧ ShapedPairs name value pairs
  | call function args => name function ∧ ShapedArgs name value args
  | reference _ | extension _ => False

/-- A child that is absent or of that shape. -/
def ShapedOption (name : String → Prop) (value : Json → Prop) : Option Expr → Prop
  | none => True
  | some e => Shaped name value e

/-- Trees of that shape. -/
def ShapedList (name : String → Prop) (value : Json → Prop) : List Expr → Prop
  | [] => True
  | e :: es => Shaped name value e ∧ ShapedList name value es

/-- Keyed trees of that shape. -/
def ShapedPairs (name : String → Prop) (value : Json → Prop) : List (String × Expr) → Prop
  | [] => True
  | (_, e) :: es => Shaped name value e ∧ ShapedPairs name value es

/-- Arguments: trees of that shape, and references to some. -/
def ShapedArgs (name : String → Prop) (value : Json → Prop) : List Expr → Prop
  | [] => True
  | reference e :: es => Shaped name value e ∧ ShapedArgs name value es
  | e :: es => Shaped name value e ∧ ShapedArgs name value es

end

variable {name : String → Prop} {value : Json → Prop}

theorem shapedArgs_value {e : Expr} {es : List Expr} (he : Shaped name value e)
    (hes : ShapedArgs name value es) : ShapedArgs name value (e :: es) := by
  cases e with
  | reference e => exact he.elim
  | _ => exact ⟨he, hes⟩

/-! ### The functions called -/

/-- The functions called at the nodes of some trees are of some kind. -/
def CallsOnly (name : String → Prop) (nodes : List Expr) : Prop := ∀ f args, call f args ∈ nodes → name f

theorem CallsOnly.left {xs ys : List Expr} (h : CallsOnly name (xs ++ ys)) : CallsOnly name xs :=
  fun f args hf => h f args (List.mem_append_left ys hf)

theorem CallsOnly.right {xs ys : List Expr} (h : CallsOnly name (xs ++ ys)) : CallsOnly name ys :=
  fun f args hf => h f args (List.mem_append_right xs hf)

theorem CallsOnly.tail {x : Expr} {xs : List Expr} (h : CallsOnly name (x :: xs)) : CallsOnly name xs :=
  fun f args hf => h f args (List.mem_cons_of_mem x hf)

mutual

theorem shaped_of_walk : ∀ {e : Expr}, Shaped (fun _ => True) value e → CallsOnly name e.walk →
    Shaped name value e
  | identifier _, _, _ | current, _, _ | rawString _, _, _ => trivial
  | literal _, h, _ => h
  | flatten _, h, hc | objectWildcard _, h, hc | arrayWildcard _, h, hc => shapedOption_of_walk h hc.tail
  | index _ _, ⟨hi, h⟩, hc => ⟨hi, shapedOption_of_walk h hc.tail⟩
  | slice _ _ _ _, ⟨hstep, hbounds, h⟩, hc => ⟨hstep, hbounds, shapedOption_of_walk h hc.tail⟩
  | subexpression _ _, ⟨hfield, hl, hr⟩, hc =>
    ⟨hfield, shaped_of_walk hl hc.tail.left, shaped_of_walk hr hc.tail.right⟩
  | pipe _ _, ⟨hl, hr⟩, hc | or _ _, ⟨hl, hr⟩, hc | and _ _, ⟨hl, hr⟩, hc | comparison _ _ _, ⟨hl, hr⟩, hc =>
    ⟨shaped_of_walk hl hc.tail.left, shaped_of_walk hr hc.tail.right⟩
  | not operand, h, hc => shaped_of_walk (e := operand) h hc.tail
  | filter _ _, ⟨hs, hp⟩, hc => ⟨shapedOption_of_walk hs hc.tail.left, shaped_of_walk hp hc.tail.right⟩
  | multiselectList _, ⟨hne, h⟩, hc => ⟨hne, shapedList_of_walk h hc.tail⟩
  | multiselectHash _, ⟨hne, h⟩, hc => ⟨hne, shapedPairs_of_walk h hc.tail⟩
  | call f args, ⟨_, h⟩, hc => ⟨hc f args List.mem_cons_self, shapedArgs_of_walk h hc.tail⟩

theorem shapedOption_of_walk : ∀ {base : Option Expr}, ShapedOption (fun _ => True) value base →
    CallsOnly name (walkOption base) → ShapedOption name value base
  | none, _, _ => trivial
  | some e, h, hc => shaped_of_walk (e := e) h hc

theorem shapedList_of_walk : ∀ {es : List Expr}, ShapedList (fun _ => True) value es →
    CallsOnly name (walkList es) → ShapedList name value es
  | [], _, _ => trivial
  | _ :: _, ⟨he, hes⟩, hc => ⟨shaped_of_walk he hc.left, shapedList_of_walk hes hc.right⟩

theorem shapedPairs_of_walk : ∀ {ps : List (String × Expr)}, ShapedPairs (fun _ => True) value ps →
    CallsOnly name (walkPairs ps) → ShapedPairs name value ps
  | [], _, _ => trivial
  | (_, _) :: _, ⟨he, hes⟩, hc => ⟨shaped_of_walk he hc.left, shapedPairs_of_walk hes hc.right⟩

theorem shapedArgs_of_walk : ∀ {es : List Expr}, ShapedArgs (fun _ => True) value es →
    CallsOnly name (walkList es) → ShapedArgs name value es
  | [], _, _ => trivial
  | e :: es, h, hc => by
    cases e with
    | reference e => exact ⟨shaped_of_walk h.1 hc.left.tail, shapedArgs_of_walk h.2 hc.right⟩
    | _ => exact shapedArgs_value (shaped_of_walk h.1 hc.left) (shapedArgs_of_walk h.2 hc.right)

end

theorem mem_referencedFunctions {e : Expr} {f : String} {args : List Expr} (h : call f args ∈ e.walk) :
    f ∈ e.referencedFunctions := List.mem_eraseDups.2 (List.mem_filterMap.2 ⟨_, h, rfl⟩)

/-! ### Trees that the grammar derives -/

open Grammar

/-- Any name and any value. -/
abbrev WellShaped : Expr → Prop := Shaped (fun _ => True) fun _ => True

theorem isField_of_field {ls : List Lexeme} {e : Expr} (h : Grammar.Field ls e) : e.isField = true := by
  cases h with
  | call h => cases h <;> rfl
  | hash h => cases h; rfl
  | _ => rfl

theorem wellShaped_of_selector {b : Option Expr} {ls : List Lexeme} {e : Expr}
    (hb : ShapedOption (fun _ => True) (fun _ => True) b) : Selector b ls e → WellShaped e
  | .index _ => ⟨trivial, hb⟩
  | .slice _ _ => ⟨by simp, fun _ _ => trivial, hb⟩
  | .stepped _ _ _ hne => ⟨hne, fun _ _ => trivial, hb⟩

mutual

theorem wellShaped_of_pipeline : ∀ {ls : List Lexeme} {e : Expr}, Pipeline ls e → WellShaped e
  | _, _, .disjunction h => wellShaped_of_disjunction h
  | _, _, .pipe hl hr => ⟨wellShaped_of_pipeline hl, wellShaped_of_disjunction hr⟩

theorem wellShaped_of_disjunction : ∀ {ls : List Lexeme} {e : Expr}, Disjunction ls e → WellShaped e
  | _, _, .conjunction h => wellShaped_of_conjunction h
  | _, _, .or hl hr => ⟨wellShaped_of_disjunction hl, wellShaped_of_conjunction hr⟩

theorem wellShaped_of_conjunction : ∀ {ls : List Lexeme} {e : Expr}, Conjunction ls e → WellShaped e
  | _, _, .comparison h => wellShaped_of_comparison h
  | _, _, .and hl hr => ⟨wellShaped_of_conjunction hl, wellShaped_of_comparison hr⟩

theorem wellShaped_of_comparison : ∀ {ls : List Lexeme} {e : Expr}, Comparison ls e → WellShaped e
  | _, _, .not h =>
    have h := wellShaped_of_comparison h
    h
  | _, _, .operands h => wellShaped_of_operands h
  | _, _, .operandsNot _ hl hr =>
    have hr := wellShaped_of_comparison hr
    ⟨wellShaped_of_operands hl, hr⟩

theorem wellShaped_of_operands : ∀ {ls : List Lexeme} {e : Expr}, Operands ls e → WellShaped e
  | _, _, .postfixed h => wellShaped_of_postfixed h
  | _, _, .comparison _ hl hr => ⟨wellShaped_of_operands hl, wellShaped_of_postfixed hr⟩

theorem wellShaped_of_postfixed : ∀ {ls : List Lexeme} {e : Expr}, Postfixed ls e → WellShaped e
  | _, _, .primary h => wellShaped_of_primary h
  | _, _, .suffixed hb hs => wellShaped_of_suffix (wellShaped_of_postfixed hb) hs

theorem wellShaped_of_suffix : ∀ {b : Expr} {ls : List Lexeme} {e : Expr}, WellShaped b → Suffix b ls e →
    WellShaped e
  | _, _, _, hb, .field h => ⟨isField_of_field h, hb, wellShaped_of_field h⟩
  | _, _, _, hb, .values => hb
  | b, _, _, hb, .bracketed h => @wellShaped_of_bracketed (some b) _ _ hb h

theorem wellShaped_of_bracketed : ∀ {b : Option Expr} {ls : List Lexeme} {e : Expr},
    ShapedOption (fun _ => True) (fun _ => True) b → Bracketed b ls e → WellShaped e
  | _, _, _, hb, .selector h => wellShaped_of_selector hb h
  | _, _, _, hb, .items => hb
  | _, _, _, hb, .flatten => hb
  | _, _, _, hb, .filter h => ⟨hb, wellShaped_of_pipeline h⟩

theorem wellShaped_of_field : ∀ {ls : List Lexeme} {e : Expr}, Field ls e → WellShaped e
  | _, _, .name _ => trivial
  | _, _, .quotedName _ => trivial
  | _, _, .call h => wellShaped_of_call h
  | _, _, .list h => wellShaped_of_row h
  | _, _, .hash h => wellShaped_of_hash h

theorem wellShaped_of_primary : ∀ {ls : List Lexeme} {e : Expr}, Primary ls e → WellShaped e
  | _, _, .literal _ => trivial
  | _, _, .rawString _ => trivial
  | _, _, .name _ => trivial
  | _, _, .quotedName _ => trivial
  | _, _, .current => trivial
  | _, _, .values => trivial
  | _, _, .call h => wellShaped_of_call h
  | _, _, .parentheses h => wellShaped_of_pipeline h
  | _, _, .bracketed h => @wellShaped_of_bracketed none _ _ trivial h
  | _, _, .list h _ => wellShaped_of_row h
  | _, _, .hash h => wellShaped_of_hash h

theorem wellShaped_of_row : ∀ {ls : List Lexeme} {es : List Expr}, Row Pipeline ls es →
    es ≠ [] ∧ ShapedList (fun _ => True) (fun _ => True) es
  | _, _, .one h => ⟨by simp, wellShaped_of_pipeline h, trivial⟩
  | _, _, .more h hr => ⟨by simp, wellShaped_of_pipeline h, (wellShaped_of_row hr).2⟩

theorem wellShaped_of_hash : ∀ {ls : List Lexeme} {e : Expr}, Hash ls e → WellShaped e
  | _, _, .pairs h => wellShaped_of_pairs h

theorem wellShaped_of_pairs : ∀ {ls : List Lexeme} {ps : List (String × Expr)}, Row Pair ls ps →
    ps ≠ [] ∧ ShapedPairs (fun _ => True) (fun _ => True) ps
  | _, _, .one (.pair _ h) => ⟨by simp, wellShaped_of_pipeline h, trivial⟩
  | _, _, .more (.pair _ h) hr => ⟨by simp, wellShaped_of_pipeline h, (wellShaped_of_pairs hr).2⟩

theorem wellShaped_of_call : ∀ {ls : List Lexeme} {e : Expr}, Call ls e → WellShaped e
  | _, _, .none _ => ⟨trivial, trivial⟩
  | _, _, .some h => ⟨trivial, shapedArgs_of_row h⟩

theorem shapedArgs_of_row : ∀ {ls : List Lexeme} {args : List Expr}, Row Grammar.Argument ls args →
    ShapedArgs (fun _ => True) (fun _ => True) args
  | _, _, .one (.value h) => shapedArgs_value (wellShaped_of_pipeline h) trivial
  | _, _, .one (.reference h) => ⟨wellShaped_of_pipeline h, trivial⟩
  | _, _, .more (.value h) hr => shapedArgs_value (wellShaped_of_pipeline h) (shapedArgs_of_row hr)
  | _, _, .more (.reference h) hr => ⟨wellShaped_of_pipeline h, shapedArgs_of_row hr⟩

end

/-- The tree of a text has the shape, and its functions are those that are listed for it. -/
theorem shaped_of_parse {text : String} {bound : Int} {e : Expr} (h : parse text bound = .ok e)
    (hname : ∀ f ∈ e.referencedFunctions, name f) : Shaped name (fun _ => True) e :=
  shaped_of_walk (wellShaped_of_pipeline (parse_sound h).1) fun f _ hf => hname f (mem_referencedFunctions hf)

end JsonQuery.Expr
