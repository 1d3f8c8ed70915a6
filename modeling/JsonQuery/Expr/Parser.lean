import JsonQuery.Expr.Basic
import JsonQuery.Expr.SyntaxError
import JsonQuery.Text.Blank

/-! Reading an expression from its tokens by operator precedence. An operand is read first; while the next token
    binds tighter than the operator before the operand, it extends what has been read. `room` is how much
    deeper the tree may get: each operand and each extension takes one, and what is read inside them has what
    is left, so the recursion is on the room and running out of it is the depth error. A parser of
    subexpressions is handed to the forms that hold some, together with the brackets that are open there.

    The stack of the machine may give out before the room does. When, is up to the machine: it is said for every
    token that may come next where an expression starts, together with the token that is looked at by then, since
    that is where the error is put. `parse` is for machines that have stack enough. -/

namespace JsonQuery

/-- When the stack of a machine gives out in the reading of a text: by where the next token starts, if one is left
    where an expression starts, the number of the token that is looked at by then. There need be none; any number
    past the last one says so. -/
structure ParserStack where
  givesOut : Option Nat → Option Nat

/-- A stack that never gives out. -/
def ParserStack.ample : ParserStack := ⟨fun _ => none⟩

/-- Where the error is put when the stack gives out on a text of some length, by the next token: at the start of the
    token looked at, or at the end of the text. -/
def ParserStack.halt? (stack : ParserStack) (length : Nat) (s : Scan) (next : Option Token) : Option Nat :=
  (stack.givesOut (next.map Token.start)).map fun i => (s.tokens[i]?).elim length Token.start

/-- How tightly a lexeme binds what stands to its left; 0 for one that does not extend an expression. -/
def Lexeme.power : Lexeme → Nat
  | .mark .pipe => 1
  | .mark .or => 2
  | .mark .and => 3
  | .mark .not => 4
  | .mark (.comparator _) => 5
  | .mark .flatten => 9
  | .mark .star => 20
  | .mark .filter => 21
  | .mark .dot => 40
  | .mark .lbracket => 55
  | .mark .lparen => 60
  | _ => 0

namespace Expr

/-- What is known around the tokens being read: the limit on the depth, how the tokens end, and the brackets
    left open, the innermost first. -/
structure Context where
  limit : Int
  ending : Ending
  unclosed : List Token

/-- A parser takes tokens from the head of a row of them. -/
abbrev Parser := StateT (List Token) (Except SyntaxError)

/-- The context inside a bracket. -/
def Context.inside (ctx : Context) (opener : Token) : Context :=
  { ctx with unclosed := opener :: ctx.unclosed }

/-- The token at the end, if the text is free of faults up to there. -/
def Context.last (ctx : Context) : Except SyntaxError Token :=
  match ctx.ending with
  | .finish t => .ok t
  | .fault f => .error (.lexical f)

/-- The first of some tokens, or the one at the end. -/
def Context.first (ctx : Context) : List Token → Except SyntaxError Token
  | t :: _ => .ok t
  | [] => ctx.last

/-- The next token, which is left where it is. -/
def peek (ctx : Context) : Parser Token := fun ts => (ctx.first ts).map fun t => (t, ts)

/-- The token after the next. -/
def peekSecond (ctx : Context) : Parser Token := fun ts => (ctx.first ts.tail).map fun t => (t, ts)

/-- Takes the next token; the one at the end stays. -/
def advance (ctx : Context) : Parser Token := fun ts => (ctx.first ts).map fun t => (t, ts.tail)

/-- Fails at a token; at the end, on account of the innermost bracket left open. -/
def fail {α : Type} (ctx : Context) (cause : GrammarCause) (t : Token) : Parser α :=
  throw <|
    if t.lexeme = .finish then
      match ctx.unclosed with
      | [] => .incomplete cause none t.start
      | opener :: _ => .incomplete cause (some opener.lexeme) opener.start
    else .grammar cause t.start

/-- Fails because the expression is too deep. -/
def failDeep {α : Type} (ctx : Context) : Parser α := do
  fail ctx (.tooDeep ctx.limit) (← peek ctx)

/-- Takes a certain mark. -/
def expect (ctx : Context) (m : Mark) : Parser Unit := do
  let t ← peek ctx
  if t.lexeme = .mark m then
    discard (advance ctx)
  else
    fail ctx (.expected (.mark m) t.lexeme) t

/-- Takes a comma where a row that `closer` ends goes on. -/
def separator (ctx : Context) (closer : Mark) : Parser Unit := do
  let t ← peek ctx
  if t.lexeme = .mark .comma then
    discard (advance ctx)
  else
    fail ctx (.notASeparator closer t.lexeme) t

/-- Takes items separated by commas, at least one, and the mark that closes the row. The count bounds the
    items; there are no more of them than tokens. -/
def row {α : Type} (ctx : Context) (closer : Mark) (item : Parser α) : Nat → Parser (List α)
  | 0 => return []
  | n + 1 => do
    let x ← item
    let t ← peek ctx
    if t.lexeme = .mark closer then
      discard (advance ctx)
      return [x]
    else
      separator ctx closer
      let xs ← row ctx closer item n
      return x :: xs

/-- Takes as many items as there are, and the mark that closes them. -/
def items {α : Type} (ctx : Context) (closer : Mark) (item : Parser α) : Parser (List α) :=
  fun ts => row ctx closer item (ts.length + 1) ts

/-! ### Indices and slices -/

/-- Takes a number. -/
def number (ctx : Context) : Parser Nat := do
  let t ← peek ctx
  match t.lexeme with
  | .number n =>
    discard (advance ctx)
    return n
  | found => fail ctx (.expected .number found) t

/-- Takes a number with an optional minus. -/
def integer (ctx : Context) : Parser Int := do
  let t ← peek ctx
  if t.lexeme = .mark .minus then
    discard (advance ctx)
    return -(← number ctx)
  else
    return (← number ctx)

/-- Whether a lexeme starts an integer. -/
def startsInteger : Lexeme → Bool
  | .number _ | .mark .minus => true
  | _ => false

/-- Whether a lexeme starts an index or a slice. -/
def startsSelector (l : Lexeme) : Bool := startsInteger l || l == .mark .colon

/-- Takes a bound of a slice, if there is one. -/
def bound (ctx : Context) : Parser (Option Int) := do
  let t ← peek ctx
  if startsInteger t.lexeme then
    return some (← integer ctx)
  else
    return none

/-- Takes the bracket that closes an index or a slice. -/
def closeSelector (ctx : Context) (mayGoOn : Bool) : Parser Unit := do
  let t ← peek ctx
  if t.lexeme = .mark .rbracket then
    discard (advance ctx)
  else
    fail ctx (.unclosedSelector mayGoOn t.lexeme) t

/-- Takes a slice from its first colon on. -/
def sliceFrom (ctx : Context) (base : Option Expr) (start : Option Int) : Parser Expr := do
  discard (advance ctx)
  let stop ← bound ctx
  let t ← peek ctx
  if t.lexeme = .mark .colon then
    discard (advance ctx)
    let t ← peek ctx
    let step ← bound ctx
    closeSelector ctx false
    if step = some 0 then
      fail ctx .zeroStep t
    else
      return .slice base start stop step
  else
    closeSelector ctx true
    return .slice base start stop none

/-- Takes an index or a slice and the closing bracket. -/
def selector (ctx : Context) (base : Option Expr) : Parser Expr := do
  let t ← peek ctx
  if t.lexeme = .mark .colon then
    sliceFrom ctx base none
  else
    let i ← integer ctx
    let t ← peek ctx
    if t.lexeme = .mark .colon then
      sliceFrom ctx base (some i)
    else
      closeSelector ctx true
      return .index base i

/-! ### Forms that hold subexpressions -/

/-- A parser of subexpressions, for the brackets open around it and the power of the operator before it. -/
abbrev SubParser := Context → Nat → Parser Expr

/-- Takes the items of a multiselect list. -/
def multiselectListFrom (sub : SubParser) (ctx : Context) : Parser Expr := do
  return .multiselectList (← items ctx .rbracket (sub ctx 0))

/-- Takes a key of a multiselect hash. -/
def key (ctx : Context) : Parser String := do
  let t ← peek ctx
  match t.lexeme with
  | .name s | .quotedName s =>
    discard (advance ctx)
    return s
  | found => fail ctx (.notAKey found) t

/-- Takes a key, a colon and the expression of the key. -/
def pair (sub : SubParser) (ctx : Context) : Parser (String × Expr) := do
  let k ← key ctx
  expect ctx .colon
  return (k, ← sub ctx 0)

/-- Takes the pairs of a multiselect hash. -/
def multiselectHashFrom (sub : SubParser) (ctx : Context) : Parser Expr := do
  return .multiselectHash (← items ctx .rbrace (pair sub ctx))

/-- Takes an argument: an expression, or a reference to one. -/
def argument (sub : SubParser) (ctx : Context) : Parser Expr := do
  let t ← peek ctx
  if t.lexeme = .mark .reference then
    discard (advance ctx)
    return .reference (← sub ctx 0)
  else
    sub ctx 0

/-- Takes the arguments of a call. -/
def callFrom (sub : SubParser) (ctx : Context) (function : String) : Parser Expr := do
  let t ← peek ctx
  if t.lexeme = .mark .rparen then
    discard (advance ctx)
    return .call function []
  else
    return .call function (← items ctx .rparen (argument sub ctx))

/-- Goes on after a name: a call if a parenthesis follows, else the field of that name. -/
def nameFrom (sub : SubParser) (ctx : Context) (name : String) : Parser Expr := do
  let t ← peek ctx
  if t.lexeme = .mark .lparen then
    discard (advance ctx)
    callFrom sub (ctx.inside t) name
  else
    return .identifier name

/-- Goes on after a quoted name, which calls nothing. -/
def quotedNameFrom (ctx : Context) (name : String) : Parser Expr := do
  let t ← peek ctx
  if t.lexeme = .mark .lparen then
    fail ctx .quotedFunctionName t
  else
    return .identifier name

/-- Takes the predicate of a filter and the closing bracket. -/
def filterFrom (sub : SubParser) (ctx : Context) (source : Option Expr) : Parser Expr := do
  let predicate ← sub ctx 0
  expect ctx .rbracket
  return .filter source predicate

/-- Goes on after a bracket where an expression starts. -/
def bracketFrom (sub : SubParser) (ctx : Context) : Parser Expr := do
  let t ← peek ctx
  if startsSelector t.lexeme then
    selector ctx none
  else if t.lexeme = .mark .star then
    let next ← peekSecond ctx
    if next.lexeme = .mark .rbracket then
      discard (advance ctx)
      discard (advance ctx)
      return .arrayWildcard none
    else
      multiselectListFrom sub ctx
  else
    multiselectListFrom sub ctx

/-- The JSON value of a literal. -/
def literalFrom (ctx : Context) (t : Token) (text : String) : Parser Expr :=
  match Json.read .literal text.toList with
  | .ok v => return .literal v
  | .error fault => fail ctx (.badLiteral text fault) t

/-- Goes on after the first token of an operand. -/
def operandFrom (sub : SubParser) (ctx : Context) (t : Token) : Parser Expr :=
  match t.lexeme with
  | .literal text => literalFrom ctx t text
  | .name s => nameFrom sub ctx s
  | .quotedName s => quotedNameFrom ctx s
  | .rawString s => return .rawString s
  | .mark .current => return .current
  | .mark .star => return .objectWildcard none
  | .mark .not => return .not (← sub ctx (Lexeme.mark .not).power)
  | .mark .lparen => do
    let e ← sub (ctx.inside t) 0
    expect (ctx.inside t) .rparen
    return e
  | .mark .lbracket => bracketFrom sub (ctx.inside t)
  | .mark .lbrace => multiselectHashFrom sub (ctx.inside t)
  | .mark .flatten => return .flatten none
  | .mark .filter => filterFrom sub (ctx.inside t) none
  | .number _ => fail ctx .strayNumber t
  | .mark .reference => fail ctx .strayReference t
  | found => fail ctx (.notAnExpression found) t

/-- Goes on after a point: the field, call or multiselect on its right. -/
def fieldFrom (sub : SubParser) (ctx : Context) (left : Expr) : Parser Expr := do
  let t ← peek ctx
  match t.lexeme with
  | .mark .star =>
    discard (advance ctx)
    return .objectWildcard (some left)
  | .name s =>
    discard (advance ctx)
    return .subexpression left (← nameFrom sub ctx s)
  | .quotedName s =>
    discard (advance ctx)
    return .subexpression left (← quotedNameFrom ctx s)
  | .mark .lbracket =>
    discard (advance ctx)
    return .subexpression left (← multiselectListFrom sub (ctx.inside t))
  | .mark .lbrace =>
    discard (advance ctx)
    return .subexpression left (← multiselectHashFrom sub (ctx.inside t))
  | found => fail ctx (.notAField found) t

/-- Goes on after a bracket that follows an expression. -/
def selectorFrom (ctx : Context) (left : Expr) : Parser Expr := do
  let t ← peek ctx
  if startsSelector t.lexeme then
    selector ctx (some left)
  else if t.lexeme = .mark .star then
    discard (advance ctx)
    expect ctx .rbracket
    return .arrayWildcard (some left)
  else
    fail ctx (.notASelector t.lexeme) t

/-- Goes on after the token by which an expression is extended. -/
def extendFrom (sub : SubParser) (ctx : Context) (t : Token) (left : Expr) : Parser Expr :=
  match t.lexeme with
  | .mark .dot => fieldFrom sub ctx left
  | .mark .pipe => return .pipe left (← sub ctx t.lexeme.power)
  | .mark .or => return .or left (← sub ctx t.lexeme.power)
  | .mark .and => return .and left (← sub ctx t.lexeme.power)
  | .mark (.comparator op) => return .comparison op left (← sub ctx t.lexeme.power)
  | .mark .flatten => return .flatten (some left)
  | .mark .filter => filterFrom sub (ctx.inside t) (some left)
  | .mark .lbracket => selectorFrom (ctx.inside t) left
  | .mark .lparen => fail ctx .callWithoutName t
  | found => fail ctx (.notAnOperator found) t

/-! ### Expressions -/

/-- Goes on unless the stack gives out. -/
def hold (halt? : Option Token → Option Nat) (ctx : Context) : Parser Unit := fun ts =>
  match halt? ts.head? with
  | some position => .error (.grammar (.exhausted ctx.limit) position)
  | none => .ok ((), ts)

mutual

/-- Takes an expression of which every operator outside brackets binds tighter than `power`. -/
def expressionOn (halt? : Option Token → Option Nat) : Nat → Context → Nat → Parser Expr
  | 0, ctx, _ => do
    hold halt? ctx
    failDeep ctx
  | room + 1, ctx, power => do
    hold halt? ctx
    let t ← advance ctx
    let left ← operandFrom (expressionOn halt? room) ctx t
    extendOn halt? room ctx power left

/-- Extends an expression while the next token binds tighter than `power`. -/
def extendOn (halt? : Option Token → Option Nat) : Nat → Context → Nat → Expr → Parser Expr
  | 0, ctx, power, left => do
    let t ← peek ctx
    if power < t.lexeme.power then
      failDeep ctx
    else
      return left
  | room + 1, ctx, power, left => do
    let t ← peek ctx
    if power < t.lexeme.power then
      discard (advance ctx)
      let left ← extendFrom (expressionOn halt? room) ctx t left
      extendOn halt? room ctx power left
    else
      return left

end

/-- Takes an expression, with stack enough. -/
def expression : Nat → Context → Nat → Parser Expr := expressionOn fun _ => none

/-- Extends an expression, with stack enough. -/
def extend : Nat → Context → Nat → Expr → Parser Expr := extendOn fun _ => none

theorem expression_zero (ctx : Context) (power : Nat) : expression 0 ctx power = failDeep ctx := by
  rw [expression, expressionOn]
  rfl

theorem expression_add_one (room : Nat) (ctx : Context) (power : Nat) :
    expression (room + 1) ctx power = (do
      let t ← advance ctx
      let left ← operandFrom (expression room) ctx t
      extend room ctx power left) := by
  rw [expression, expressionOn]
  rfl

theorem extend_zero (ctx : Context) (power : Nat) (left : Expr) :
    extend 0 ctx power left = (do
      let t ← peek ctx
      if power < t.lexeme.power then
        failDeep ctx
      else
        return left) := by
  rw [extend, extendOn]

theorem extend_add_one (room : Nat) (ctx : Context) (power : Nat) (left : Expr) :
    extend (room + 1) ctx power left = (do
      let t ← peek ctx
      if power < t.lexeme.power then
        discard (advance ctx)
        let left ← extendFrom (expression room) ctx t left
        extend room ctx power left
      else
        return left) := by
  rw [extend, extendOn]
  rfl

/-- Takes one expression and the end. -/
def wholeOn (halt? : Option Token → Option Nat) (room : Nat) (ctx : Context) : Parser Expr := do
  let e ← expressionOn halt? room ctx 0
  let t ← peek ctx
  if t.lexeme = .finish then
    return e
  else
    fail ctx (.trailing t.lexeme) t

/-- The expression that a row of tokens stands for. -/
def ofScanOn (halt? : Option Token → Option Nat) (limit : Int) (s : Scan) : Except SyntaxError Expr :=
  (wholeOn halt? limit.toNat ⟨limit, s.ending, []⟩).run' s.tokens

/-- The depth that expressions may have unless something else is asked for. -/
def defaultLimit : Int := 128

/-- The expression that a text stands for, on a machine with some stack. A text of white space alone is refused as
    empty. -/
def parseOn (stack : ParserStack) (text : String) (limit : Int) : Except SyntaxError Expr :=
  let cs := text.toList
  let s := Scan.ofText cs
  if Text.trim Text.isBlank cs = [] then
    let ctx : Context := ⟨limit, s.ending, []⟩
    (do fail ctx .empty (← peek ctx) : Parser Expr).run' s.tokens
  else
    ofScanOn (stack.halt? cs.length s) limit s

/-- Takes one expression and the end, with stack enough. -/
def whole (room : Nat) (ctx : Context) : Parser Expr := wholeOn (fun _ => none) room ctx

/-- The expression that a row of tokens stands for, with stack enough. -/
def ofScan (limit : Int) (s : Scan) : Except SyntaxError Expr := ofScanOn (fun _ => none) limit s

/-- The expression that a text stands for, with stack enough. -/
def parse (text : String) (limit : Int) : Except SyntaxError Expr := parseOn .ample text limit

theorem whole_eq (room : Nat) (ctx : Context) :
    whole room ctx = (do
      let e ← expression room ctx 0
      let t ← peek ctx
      if t.lexeme = .finish then
        return e
      else
        fail ctx (.trailing t.lexeme) t) := rfl

theorem ofScan_eq (limit : Int) (s : Scan) :
    ofScan limit s = (whole limit.toNat ⟨limit, s.ending, []⟩).run' s.tokens := rfl

theorem parse_eq (text : String) (limit : Int) :
    parse text limit =
      if Text.trim Text.isBlank text.toList = [] then
        (do
          let t ← peek ⟨limit, (Scan.ofText text.toList).ending, []⟩
          fail ⟨limit, (Scan.ofText text.toList).ending, []⟩ .empty t : Parser Expr).run'
            (Scan.ofText text.toList).tokens
      else
        ofScan limit (Scan.ofText text.toList) := rfl

end Expr
end JsonQuery
