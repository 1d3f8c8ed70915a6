import JsonQuery.Expr.Parser

/-! The grammar of query expressions, over rows of lexemes and with the tree that each row stands for.
    Nothing here mentions the parser. There is one relation for each level of operators, from the pipe,
    which binds least, down to the postfix forms; a level holds every row of the level that binds tighter.
    All binary operators group to the left. What a `!` negates takes in every comparison after it, so a
    negation stands alone or as the last operand of a row of comparisons.

        pipeline     ::=  disjunction  |  pipeline '|' disjunction
        disjunction  ::=  conjunction  |  disjunction '||' conjunction
        conjunction  ::=  comparison   |  conjunction '&&' comparison
        comparison   ::=  '!' comparison  |  operands  |  operands op '!' comparison
        operands     ::=  postfix  |  operands op postfix
        postfix      ::=  primary  |  postfix suffix -/

namespace JsonQuery.Grammar

/-- Items separated by commas: at least one, and no comma after the last. -/
inductive Row {α : Type} (Item : List Lexeme → α → Prop) : List Lexeme → List α → Prop
  | one {ls : List Lexeme} {x : α} : Item ls x → Row Item ls [x]
  | more {ls ms : List Lexeme} {x : α} {xs : List α} :
    Item ls x → Row Item ms xs → Row Item (ls ++ .mark .comma :: ms) (x :: xs)

/-- An integer: a number with an optional minus. -/
inductive Integer : List Lexeme → Int → Prop
  | plain (n : Nat) : Integer [.number n] n
  | minus (n : Nat) : Integer [.mark .minus, .number n] (-n)

/-- A bound of a slice: an integer, or nothing. -/
inductive Bound : List Lexeme → Option Int → Prop
  | absent : Bound [] none
  | present {ls : List Lexeme} {i : Int} : Integer ls i → Bound ls (some i)

/-- An index or a slice without its brackets. A step is never 0. -/
inductive Selector (base : Option Expr) : List Lexeme → Expr → Prop
  | index {ls : List Lexeme} {i : Int} : Integer ls i → Selector base ls (.index base i)
  | slice {ls ms : List Lexeme} {start stop : Option Int} : Bound ls start → Bound ms stop →
    Selector base (ls ++ .mark .colon :: ms) (.slice base start stop none)
  | stepped {ls ms ns : List Lexeme} {start stop step : Option Int} : Bound ls start → Bound ms stop →
    Bound ns step → step ≠ some 0 →
    Selector base (ls ++ .mark .colon :: (ms ++ .mark .colon :: ns)) (.slice base start stop step)

/-- A key of a multiselect hash. -/
inductive Key : Lexeme → String → Prop
  | name (s : String) : Key (.name s) s
  | quotedName (s : String) : Key (.quotedName s) s

mutual

/-- Disjunctions joined by `|`. -/
inductive Pipeline : List Lexeme → Expr → Prop
  | disjunction {ls : List Lexeme} {e : Expr} : Disjunction ls e → Pipeline ls e
  | pipe {ls ms : List Lexeme} {l r : Expr} : Pipeline ls l → Disjunction ms r →
    Pipeline (ls ++ .mark .pipe :: ms) (.pipe l r)

/-- Conjunctions joined by `||`. -/
inductive Disjunction : List Lexeme → Expr → Prop
  | conjunction {ls : List Lexeme} {e : Expr} : Conjunction ls e → Disjunction ls e
  | or {ls ms : List Lexeme} {l r : Expr} : Disjunction ls l → Conjunction ms r →
    Disjunction (ls ++ .mark .or :: ms) (.or l r)

/-- Comparisons joined by `&&`. -/
inductive Conjunction : List Lexeme → Expr → Prop
  | comparison {ls : List Lexeme} {e : Expr} : Comparison ls e → Conjunction ls e
  | and {ls ms : List Lexeme} {l r : Expr} : Conjunction ls l → Comparison ms r →
    Conjunction (ls ++ .mark .and :: ms) (.and l r)

/-- Operands joined by comparators, the last of which may be a negation, or a negation alone. -/
inductive Comparison : List Lexeme → Expr → Prop
  | not {ls : List Lexeme} {e : Expr} : Comparison ls e → Comparison (.mark .not :: ls) (.not e)
  | operands {ls : List Lexeme} {e : Expr} : Operands ls e → Comparison ls e
  | operandsNot {ls ms : List Lexeme} {l r : Expr} (op : Comparator) : Operands ls l → Comparison ms r →
    Comparison (ls ++ .mark (.comparator op) :: .mark .not :: ms) (.comparison op l (.not r))

/-- Postfix forms joined by comparators. -/
inductive Operands : List Lexeme → Expr → Prop
  | postfixed {ls : List Lexeme} {e : Expr} : Postfixed ls e → Operands ls e
  | comparison {ls ms : List Lexeme} {l r : Expr} (op : Comparator) : Operands ls l → Postfixed ms r →
    Operands (ls ++ .mark (.comparator op) :: ms) (.comparison op l r)

/-- A primary followed by any number of suffixes, which nest to the left. -/
inductive Postfixed : List Lexeme → Expr → Prop
  | primary {ls : List Lexeme} {e : Expr} : Primary ls e → Postfixed ls e
  | suffixed {ls ms : List Lexeme} {b e : Expr} : Postfixed ls b → Suffix b ms e → Postfixed (ls ++ ms) e

/-- What may follow an expression and take it as its base. -/
inductive Suffix : Expr → List Lexeme → Expr → Prop
  | field {b r : Expr} {ls : List Lexeme} : Field ls r → Suffix b (.mark .dot :: ls) (.subexpression b r)
  | values {b : Expr} : Suffix b [.mark .dot, .mark .star] (.objectWildcard (some b))
  | bracketed {b e : Expr} {ls : List Lexeme} : Bracketed (some b) ls e → Suffix b ls e

/-- The forms in square brackets that apply to a base, or to the current value. -/
inductive Bracketed : Option Expr → List Lexeme → Expr → Prop
  | selector {b : Option Expr} {ls : List Lexeme} {e : Expr} : Selector b ls e →
    Bracketed b (.mark .lbracket :: (ls ++ [.mark .rbracket])) e
  | items {b : Option Expr} :
    Bracketed b [.mark .lbracket, .mark .star, .mark .rbracket] (.arrayWildcard b)
  | flatten {b : Option Expr} : Bracketed b [.mark .flatten] (.flatten b)
  | filter {b : Option Expr} {ls : List Lexeme} {p : Expr} : Pipeline ls p →
    Bracketed b (.mark .filter :: (ls ++ [.mark .rbracket])) (.filter b p)

/-- What may stand to the right of a point, the star apart. -/
inductive Field : List Lexeme → Expr → Prop
  | name (s : String) : Field [.name s] (.identifier s)
  | quotedName (s : String) : Field [.quotedName s] (.identifier s)
  | call {ls : List Lexeme} {e : Expr} : Call ls e → Field ls e
  | list {ls : List Lexeme} {es : List Expr} : Row Pipeline ls es →
    Field (.mark .lbracket :: (ls ++ [.mark .rbracket])) (.multiselectList es)
  | hash {ls : List Lexeme} {e : Expr} : Hash ls e → Field ls e

/-- What an expression starts with. A lone star in brackets is the wildcard and no multiselect list. -/
inductive Primary : List Lexeme → Expr → Prop
  | literal {text : String} {v : Json} : Json.read .literal text.toList = .ok v →
    Primary [.literal text] (.literal v)
  | rawString (s : String) : Primary [.rawString s] (.rawString s)
  | name (s : String) : Primary [.name s] (.identifier s)
  | quotedName (s : String) : Primary [.quotedName s] (.identifier s)
  | current : Primary [.mark .current] .current
  | values : Primary [.mark .star] (.objectWildcard none)
  | call {ls : List Lexeme} {e : Expr} : Call ls e → Primary ls e
  | parentheses {ls : List Lexeme} {e : Expr} : Pipeline ls e →
    Primary (.mark .lparen :: (ls ++ [.mark .rparen])) e
  | bracketed {ls : List Lexeme} {e : Expr} : Bracketed none ls e → Primary ls e
  | list {ls : List Lexeme} {es : List Expr} : Row Pipeline ls es → ls ≠ [.mark .star] →
    Primary (.mark .lbracket :: (ls ++ [.mark .rbracket])) (.multiselectList es)
  | hash {ls : List Lexeme} {e : Expr} : Hash ls e → Primary ls e

/-- A multiselect hash. -/
inductive Hash : List Lexeme → Expr → Prop
  | pairs {ls : List Lexeme} {ps : List (String × Expr)} : Row Pair ls ps →
    Hash (.mark .lbrace :: (ls ++ [.mark .rbrace])) (.multiselectHash ps)

/-- A key, a colon and the expression of the key. -/
inductive Pair : List Lexeme → String × Expr → Prop
  | pair {l : Lexeme} {k : String} {ls : List Lexeme} {e : Expr} : Key l k → Pipeline ls e →
    Pair (l :: .mark .colon :: ls) (k, e)

/-- A call of a function, with any number of arguments. -/
inductive Call : List Lexeme → Expr → Prop
  | none (f : String) : Call [.name f, .mark .lparen, .mark .rparen] (.call f [])
  | some {f : String} {ls : List Lexeme} {args : List Expr} : Row Argument ls args →
    Call (.name f :: .mark .lparen :: (ls ++ [.mark .rparen])) (.call f args)

/-- An argument: an expression, or a reference to one. -/
inductive Argument : List Lexeme → Expr → Prop
  | value {ls : List Lexeme} {e : Expr} : Pipeline ls e → Argument ls e
  | reference {ls : List Lexeme} {e : Expr} : Pipeline ls e → Argument (.mark .reference :: ls) (.reference e)

end

theorem pipeline_of_postfixed {ls : List Lexeme} {e : Expr} (h : Postfixed ls e) : Pipeline ls e :=
  .disjunction (.conjunction (.comparison (.operands (.postfixed h))))

end JsonQuery.Grammar
