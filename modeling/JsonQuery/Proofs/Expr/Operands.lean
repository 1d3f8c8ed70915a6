import JsonQuery.Proofs.Expr.Parse
import JsonQuery.Proofs.Expr.Walk
import Mathlib.Data.List.Forall2

/-! Operands. What a text is about are its operands: the fields that it names, the functions that it calls, the
    current value, and what it quotes. Each is told by one token and by what comes right after: a name before a
    parenthesis is that of a function, and a name before a colon is a key and no operand. In the tree the
    operands are the nodes of five kinds. The parser neither drops nor repeats nor reorders any: the walk of the
    tree comes by them in the order of the text. -/

namespace JsonQuery

/-- What a token is about. -/
inductive Operand where
  | field (name : String)
  | called (function : String)
  | current
  | rawString (text : String)
  | literal (text : String)
  deriving DecidableEq

/-- A mark that is no operand and does not tell what a name is. -/
def Mark.isPlain : Mark → Bool
  | .current | .colon | .lparen => false
  | _ => true

namespace Operand

/-- What a lexeme is about, given the one right after it. -/
def ofLexeme? : Lexeme → Option Lexeme → Option Operand
  | .name s, next =>
    if next = some (.mark .colon) then none
    else if next = some (.mark .lparen) then some (.called s)
    else some (.field s)
  | .quotedName s, next => if next = some (.mark .colon) then none else some (.field s)
  | .mark .current, _ => some .current
  | .rawString s, _ => some (.rawString s)
  | .literal s, _ => some (.literal s)
  | _, _ => none

/-- The operands of a row of lexemes, in order. -/
def ofLexemes : List Lexeme → List Operand
  | [] => []
  | l :: ls => (ofLexeme? l ls.head?).toList ++ ofLexemes ls

/-- The node that an operand stands for. -/
inductive Denotes : Operand → Expr → Prop
  | field (name : String) : Denotes (.field name) (.identifier name)
  | called (function : String) (args : List Expr) : Denotes (.called function) (.call function args)
  | current : Denotes .current .current
  | rawString (text : String) : Denotes (.rawString text) (.rawString text)
  | literal {text : String} {v : Json} : Json.read .literal text.toList = .ok v →
    Denotes (.literal text) (.literal v)

end Operand

namespace Expr

open Operand (ofLexeme? ofLexemes Denotes)

/-- Whether a node is an operand. -/
def isOperand : Expr → Bool
  | identifier _ | call .. | current | rawString _ | literal _ => true
  | _ => false

/-- The operands among the nodes of a tree, in the order of its walk. -/
def operands (e : Expr) : List Expr := e.walk.filter isOperand

/-- The operands of a tree are its root, if that is one, and those of its children. -/
theorem operands_eq (e : Expr) :
    e.operands = (if e.isOperand then [e] else []) ++ e.children.flatMap operands := by
  have hchildren : (e.children.flatMap walk).filter isOperand = e.children.flatMap operands :=
    List.filter_flatMap ..
  rw [operands, walk_eq, List.filter_cons, hchildren]
  split <;> rfl

section
variable {e l r : Expr}

theorem operands_leaf (he : e.isOperand = true) (hc : e.children = []) : e.operands = [e] := by
  rw [operands_eq, he, hc]
  rfl

theorem operands_inner (he : e.isOperand = false) : e.operands = e.children.flatMap operands := by
  rw [operands_eq, he]
  rfl

theorem operands_unary (he : e.isOperand = false) (hc : e.children = [l]) : e.operands = l.operands := by
  rw [operands_inner he, hc, List.flatMap_singleton]

theorem operands_binary (he : e.isOperand = false) (hc : e.children = [l, r]) :
    e.operands = l.operands ++ r.operands := by
  rw [operands_inner he, hc, List.flatMap_cons, List.flatMap_singleton]

end

/-! ### Rows of lexemes and their operands -/

/-- Nothing comes next that tells what a name is. -/
def PlainNext (rest : List Lexeme) : Prop :=
  rest.head? ≠ some (.mark .colon) ∧ rest.head? ≠ some (.mark .lparen)

/-- A row of lexemes has some nodes for its operands, whatever plain comes next. -/
def Yields (ls : List Lexeme) (nodes : List Expr) : Prop :=
  ∀ rest, PlainNext rest →
    ∃ os, ofLexemes (ls ++ rest) = os ++ ofLexemes rest ∧ List.Forall₂ Denotes os nodes

/-- A lexeme that is no operand, whatever comes next. -/
def Silent (l : Lexeme) : Prop := ∀ next, ofLexeme? l next = none

theorem Silent.mark {m : Mark} (hm : m.isPlain = true) : Silent (.mark m) := by
  cases m <;> first | exact fun _ => rfl | cases hm

namespace Yields

variable {ls ms : List Lexeme} {nodes more : List Expr} {l : Lexeme} {m m' : Mark}

theorem nil : Yields [] [] := fun _ _ => ⟨[], rfl, .nil⟩

theorem of_eq (heq : nodes = more) (h : Yields ls more) : Yields ls nodes := heq ▸ h

theorem skip (hl : Silent l) (h : Yields ls nodes) : Yields (l :: ls) nodes := by
  intro rest hrest
  obtain ⟨os, hos, hall⟩ := h rest hrest
  exact ⟨os, by rw [List.cons_append, ofLexemes, hl, hos]; rfl, hall⟩

theorem of_silent : ∀ {ls : List Lexeme}, (∀ l ∈ ls, Silent l) → Yields ls [] := by
  intro ls
  induction ls with
  | nil => exact fun _ => .nil
  | cons l ls ih => exact fun h => .skip (h l List.mem_cons_self) (ih fun d hd => h d (List.mem_cons_of_mem l hd))

/-- A lexeme that is an operand where nothing comes next that tells what a name is. -/
theorem leaf {o : Operand} {e : Expr} (hl : ∀ rest, PlainNext rest → ofLexeme? l rest.head? = some o)
    (he : e.isOperand = true) (hc : e.children = []) (ho : Denotes o e) : Yields [l] e.operands := by
  intro rest hrest
  refine ⟨[o], ?_, ?_⟩
  · rw [List.singleton_append, ofLexemes, hl rest hrest]
    rfl
  · rw [operands_leaf he hc]
    exact .cons ho .nil

theorem append (hms : ∀ rest, PlainNext (ms ++ rest)) (h : Yields ls nodes) (h' : Yields ms more) :
    Yields (ls ++ ms) (nodes ++ more) := by
  intro rest hrest
  obtain ⟨ps, hps, hmore⟩ := h' rest hrest
  obtain ⟨os, hos, hall⟩ := h (ms ++ rest) (hms rest)
  exact ⟨os ++ ps, by rw [List.append_assoc, hos, hps, List.append_assoc], List.rel_append hall hmore⟩

/-- Two rows with a mark between them have the operands of the one and then those of the other. -/
theorem joined (hm : m.isPlain = true) (h : Yields ls nodes) (h' : Yields ms more) :
    Yields (ls ++ .mark m :: ms) (nodes ++ more) := by
  refine h.append (fun rest => ?_) (h'.skip (.mark hm))
  constructor <;> rintro ⟨⟩ <;> cases hm

/-- What comes from a mark on may have no operands. -/
theorem before (hm : m.isPlain = true) (h : Yields ls nodes) (h' : Yields ms []) :
    Yields (ls ++ .mark m :: ms) nodes := by
  have hjoined := h.joined hm h'
  rwa [List.append_nil] at hjoined

theorem closed (hm : m.isPlain = true) (h : Yields ls nodes) : Yields (ls ++ [.mark m]) nodes := h.before hm .nil

theorem enclosed (hm : m.isPlain = true) (hm' : m'.isPlain = true) (h : Yields ls nodes) :
    Yields (.mark m :: (ls ++ [.mark m'])) nodes := (h.closed hm').skip (.mark hm)

end Yields

/-! ### The grammar -/

open Grammar

theorem silent_of_integer {ls : List Lexeme} {i : Int} (h : Integer ls i) : ∀ l ∈ ls, Silent l := by
  cases h with
  | plain n => simp [Silent, ofLexeme?]
  | minus n => simp [Silent, ofLexeme?]

theorem silent_of_bound {ls : List Lexeme} {b : Option Int} (h : Bound ls b) : ∀ l ∈ ls, Silent l := by
  cases h with
  | absent => simp
  | present h => exact silent_of_integer h

theorem silent_of_selector {b : Option Expr} {ls : List Lexeme} {e : Expr} (h : Selector b ls e) :
    ∀ l ∈ ls, Silent l := by
  have hcolon : Silent (.mark .colon) := fun _ => rfl
  cases h with
  | index h => exact silent_of_integer h
  | slice hstart hstop =>
    exact List.forall_mem_append.2 ⟨silent_of_bound hstart, List.forall_mem_cons.2 ⟨hcolon, silent_of_bound hstop⟩⟩
  | stepped hstart hstop hstep _ =>
    exact List.forall_mem_append.2 ⟨silent_of_bound hstart, List.forall_mem_cons.2 ⟨hcolon,
      List.forall_mem_append.2 ⟨silent_of_bound hstop, List.forall_mem_cons.2 ⟨hcolon, silent_of_bound hstep⟩⟩⟩⟩

theorem operands_selector {b : Option Expr} {ls : List Lexeme} {e : Expr} (h : Selector b ls e) :
    e.operands = b.toList.flatMap operands := by
  cases h <;> exact operands_inner rfl

theorem operands_filter (source : Option Expr) (predicate : Expr) :
    (filter source predicate).operands = source.toList.flatMap operands ++ predicate.operands := by
  rw [operands_inner rfl, children, List.flatMap_append, List.flatMap_singleton]

theorem yields_star : Yields [.mark .star] [] := .skip (.mark rfl) .nil

theorem yields_name (s : String) : Yields [.name s] (identifier s).operands := by
  refine .leaf (fun _ hrest => ?_) rfl rfl (.field s)
  rw [ofLexeme?, if_neg hrest.1, if_neg hrest.2]

theorem yields_quotedName (s : String) : Yields [.quotedName s] (identifier s).operands :=
  .leaf (fun _ hrest => if_neg hrest.1) rfl rfl (.field s)

/-- A key is no operand. -/
theorem yields_key {l : Lexeme} {k : String} {ls : List Lexeme} {nodes : List Expr} (hk : Key l k)
    (h : Yields ls nodes) : Yields (l :: .mark .colon :: ls) nodes := by
  intro rest hrest
  obtain ⟨os, hos, hall⟩ := h rest hrest
  refine ⟨os, ?_, hall⟩
  rw [← hos]
  cases hk <;> rfl

/-- The name before a parenthesis is that of the function, and its operand comes before those in the
    parentheses. -/
theorem yields_call {f : String} {ls : List Lexeme} {args : List Expr} (h : Yields ls (args.flatMap operands)) :
    Yields (.name f :: .mark .lparen :: ls) (call f args).operands := by
  intro rest hrest
  obtain ⟨os, hos, hall⟩ := h rest hrest
  refine ⟨.called f :: os, ?_, ?_⟩
  · rw [List.cons_append, List.cons_append, List.cons_append, ← hos]
    rfl
  · rw [operands_eq]
    exact .cons (.called f args) hall

mutual

/-- The operands of a tree are those of the row of lexemes that it stands for. -/
theorem yields_pipeline : ∀ {ls : List Lexeme} {e : Expr}, Pipeline ls e → Yields ls e.operands
  | _, _, .disjunction h => yields_disjunction h
  | _, _, .pipe hl hr => .of_eq (operands_binary rfl rfl) ((yields_pipeline hl).joined rfl (yields_disjunction hr))

theorem yields_disjunction : ∀ {ls : List Lexeme} {e : Expr}, Disjunction ls e → Yields ls e.operands
  | _, _, .conjunction h => yields_conjunction h
  | _, _, .or hl hr => .of_eq (operands_binary rfl rfl) ((yields_disjunction hl).joined rfl (yields_conjunction hr))

theorem yields_conjunction : ∀ {ls : List Lexeme} {e : Expr}, Conjunction ls e → Yields ls e.operands
  | _, _, .comparison h => yields_comparison h
  | _, _, .and hl hr => .of_eq (operands_binary rfl rfl) ((yields_conjunction hl).joined rfl (yields_comparison hr))

theorem yields_comparison : ∀ {ls : List Lexeme} {e : Expr}, Comparison ls e → Yields ls e.operands
  | _, _, .not h => .of_eq (operands_unary rfl rfl) ((yields_comparison h).skip (.mark rfl))
  | _, _, .operands h => yields_operands h
  | _, _, .operandsNot _ hl hr =>
    have hr := (yields_comparison hr).skip (.mark (m := .not) rfl)
    .of_eq (operands_binary rfl rfl) ((yields_operands hl).joined rfl (.of_eq (operands_unary rfl rfl) hr))

theorem yields_operands : ∀ {ls : List Lexeme} {e : Expr}, Operands ls e → Yields ls e.operands
  | _, _, .postfixed h => yields_postfixed h
  | _, _, .comparison _ hl hr =>
    .of_eq (operands_binary rfl rfl) ((yields_operands hl).joined rfl (yields_postfixed hr))

theorem yields_postfixed : ∀ {ls : List Lexeme} {e : Expr}, Postfixed ls e → Yields ls e.operands
  | _, _, .primary h => yields_primary h
  | _, _, .suffixed hb hs => yields_suffix hs (yields_postfixed hb)

theorem yields_suffix : ∀ {b : Expr} {ls ks : List Lexeme} {e : Expr}, Suffix b ls e → Yields ks b.operands →
    Yields (ks ++ ls) e.operands
  | _, _, _, _, .field h, hb => .of_eq (operands_binary rfl rfl) (hb.joined rfl (yields_field h))
  | _, _, _, _, .values, hb => .of_eq (operands_unary rfl rfl) (hb.before rfl yields_star)
  | _, _, _, _, .bracketed h, hb => yields_bracketed h (.of_eq (List.flatMap_singleton operands _) hb)

theorem yields_bracketed : ∀ {b : Option Expr} {ls ks : List Lexeme} {e : Expr}, Bracketed b ls e →
    Yields ks (b.toList.flatMap operands) → Yields (ks ++ ls) e.operands
  | _, _, _, _, .selector h, hb =>
    .of_eq (operands_selector h) (hb.before rfl ((Yields.of_silent (silent_of_selector h)).closed rfl))
  | _, _, _, _, .items, hb => .of_eq (operands_inner rfl) (hb.before rfl (yields_star.closed rfl))
  | _, _, _, _, .flatten, hb => .of_eq (operands_inner rfl) (hb.closed rfl)
  | _, _, _, _, .filter h, hb => .of_eq (operands_filter _ _) (hb.joined rfl ((yields_pipeline h).closed rfl))

theorem yields_field : ∀ {ls : List Lexeme} {e : Expr}, Field ls e → Yields ls e.operands
  | _, _, .name s => yields_name s
  | _, _, .quotedName s => yields_quotedName s
  | _, _, .call h => yields_functionCall h
  | _, _, .list h => .of_eq (operands_inner rfl) ((yields_row h).enclosed rfl rfl)
  | _, _, .hash h => yields_hash h

theorem yields_primary : ∀ {ls : List Lexeme} {e : Expr}, Primary ls e → Yields ls e.operands
  | _, _, .literal hv => .leaf (fun _ _ => rfl) rfl rfl (.literal hv)
  | _, _, .rawString s => .leaf (fun _ _ => rfl) rfl rfl (.rawString s)
  | _, _, .name s => yields_name s
  | _, _, .quotedName s => yields_quotedName s
  | _, _, .current => .leaf (fun _ _ => rfl) rfl rfl .current
  | _, _, .values => .of_eq (operands_inner rfl) yields_star
  | _, _, .call h => yields_functionCall h
  | _, _, .parentheses h => ((yields_pipeline h).closed rfl).skip fun _ => rfl
  | ls, _, .bracketed h => show Yields ([] ++ ls) _ from yields_bracketed h .nil
  | _, _, .list h _ => .of_eq (operands_inner rfl) ((yields_row h).enclosed rfl rfl)
  | _, _, .hash h => yields_hash h

theorem yields_row : ∀ {ls : List Lexeme} {es : List Expr}, Row Pipeline ls es → Yields ls (es.flatMap operands)
  | _, _, .one h => .of_eq (List.flatMap_singleton operands _) (yields_pipeline h)
  | _, _, .more h hr => (yields_pipeline h).joined rfl (yields_row hr)

theorem yields_hash : ∀ {ls : List Lexeme} {e : Expr}, Hash ls e → Yields ls e.operands
  | _, _, .pairs h => .of_eq (operands_inner rfl) ((yields_pairs h).enclosed rfl rfl)

theorem yields_pairs : ∀ {ls : List Lexeme} {ps : List (String × Expr)}, Row Pair ls ps →
    Yields ls ((ps.map Prod.snd).flatMap operands)
  | _, _, .one (.pair hk h) => .of_eq (List.flatMap_singleton operands _) (yields_key hk (yields_pipeline h))
  | _, _, .more (.pair hk h) hr => (yields_key hk (yields_pipeline h)).joined rfl (yields_pairs hr)

theorem yields_functionCall : ∀ {ls : List Lexeme} {e : Expr}, Call ls e → Yields ls e.operands
  | _, _, .none _ => yields_call (Yields.nil.closed rfl)
  | _, _, .some h => yields_call ((yields_arguments h).closed rfl)

theorem yields_argument : ∀ {ls : List Lexeme} {e : Expr}, Grammar.Argument ls e → Yields ls e.operands
  | _, _, .value h => yields_pipeline h
  | _, _, .reference h => .of_eq (operands_unary rfl rfl) ((yields_pipeline h).skip (.mark rfl))

theorem yields_arguments : ∀ {ls : List Lexeme} {args : List Expr}, Row Grammar.Argument ls args →
    Yields ls (args.flatMap operands)
  | _, _, .one h => .of_eq (List.flatMap_singleton operands _) (yields_argument h)
  | _, _, .more h hr => (yields_argument h).joined rfl (yields_arguments hr)

end

/-! ### Texts -/

/-- The operands of the tree of a text are those of its tokens. -/
theorem operands_of_parse {text : String} {limit : Int} {e : Expr} (h : parse text limit = .ok e) :
    List.Forall₂ Denotes (ofLexemes ((Scan.ofText text.toList).tokens.map Token.lexeme)) e.operands := by
  obtain ⟨os, hos, hall⟩ := yields_pipeline (parse_sound h).1 [] ⟨nofun, nofun⟩
  rw [List.append_nil] at hos
  rwa [hos.trans (List.append_nil os)]

/-- The walk of a tree is the node at its root and then the walks of its children from left to right, and listing
    with a stack gives its nodes one by one and ends after the last. In the tree of a text that is accepted,
    whatever the limit, the operands among these nodes are those of the tokens of the text, one for one and in
    their order. -/
theorem walk_lists :
    (∀ e : Expr, e.walk = e :: e.children.flatMap walk ∧ ∀ n ≤ e.walk.length,
      (Listing.run n ⟨[e], []⟩).listed = e.walk.take n ∧
        ((Listing.run n ⟨[e], []⟩).stack = [] ↔ n = e.walk.length)) ∧
    ∀ {text : String} {limit : Int} {e : Expr}, parse text limit = .ok e →
      List.Forall₂ Denotes (ofLexemes ((Scan.ofText text.toList).tokens.map Token.lexeme))
        (e.walk.filter isOperand) :=
  ⟨fun e => ⟨walk_eq e, fun _ hn => run_listing hn⟩, operands_of_parse⟩

/-- A key before a field of its name, and a call with a reference and a literal. -/
theorem walk_lists_key : ∃ e, parse "\x7ba: a\x7d.f(&@, \x601\x60)" 14 = .ok e ∧
    List.Forall₂ Denotes [.field "a", .called "f", .current, .literal "1"] (e.walk.filter isOperand) ∧
    ((Listing.run 6 ⟨[e], []⟩).stack = [] ↔ 6 = e.walk.length) := by
  have hcut : Cut "\x7ba: a\x7d.f(&@, \x601\x60)".toList [.mark .lbrace, .name "a", .mark .colon, .name "a",
      .mark .rbrace, .mark .dot, .name "f", .mark .lparen, .mark .reference, .mark .current, .mark .comma,
      .literal "1", .mark .rparen] := by decide +kernel
  have hread : Json.read .literal "1".toList = .ok (.int 1) := rfl
  have hpair := Pair.pair (.name "a") (pipeline_of_postfixed (.primary (.name "a")))
  have hone := Grammar.Argument.value (pipeline_of_postfixed (.primary (.literal hread)))
  have hcurrent := Grammar.Argument.reference (pipeline_of_postfixed (.primary .current))
  have hcall := Call.some (f := "f") (.more hcurrent (.one hone))
  have hparse : parse "\x7ba: a\x7d.f(&@, \x601\x60)" 14 = .ok _ := parse_of_cut hcut (by decide) (pipeline_of_postfixed
    (.suffixed (.primary (.hash (.pairs (.one hpair)))) (.field (.call hcall))))
  have hrow : ofLexemes ((Scan.ofText "\x7ba: a\x7d.f(&@, \x601\x60)".toList).tokens.map Token.lexeme) =
      [.field "a", .called "f", .current, .literal "1"] := by decide +kernel
  exact ⟨_, hparse, hrow ▸ walk_lists.2 hparse, ((walk_lists.1 _).2 6 (by decide)).2⟩

end Expr
end JsonQuery
