import JsonQuery.Expr.Parser

/-! The parser as a machine. It does what the parser of the tokens does, but on one state that all its parts change:
    the tokens that are left, the brackets that are open, and a counter of the depth, which goes up at every entry and
    is taken back when a frame is left, however that is. Nothing in it recurses on the room that is left: the bound
    on its recursion and on its loops stands for nothing but that they go on, and a descent that comes to the bound is
    stalled, which is neither a tree nor an error. Three things are recorded besides: the tokens taken, the entries,
    and the turns of the loops. -/

namespace JsonQuery.Expr

/-- What the depth goes up for: an operand with all that extends it, or one extension. -/
inductive Entry where
  | operand
  | extension
  deriving DecidableEq

/-- The loops over what stands between brackets. -/
inductive Loop where
  | slice
  | list
  | hash
  | arguments
  deriving DecidableEq

/-- A turn of a loop, with the numbers of tokens left before it and after it. A comma between two turns is in
    neither. -/
structure Turn where
  loop : Loop
  before : Nat
  after : Nat
  deriving DecidableEq

namespace Descent

/-- What the parts of the machine share. The context has the brackets that are open; `entered` counts the entries of the
    frame that is run. -/
structure State where
  context : Context
  tokens : List Token
  depth : Int
  entered : Int
  taken : List Token
  entries : List Entry
  turns : List Turn

/-- Why there is no result: for an error, or because the bound was met. -/
inductive Halt where
  | failed (e : SyntaxError)
  | stalled

end Descent

/-- A part of the machine: from a state it comes to a result, or halts, in a state. -/
def Descent (α : Type) : Type := Descent.State → Except Descent.Halt α × Descent.State

namespace Descent

variable {α : Type}

instance : Monad Descent where
  pure a := fun s => (.ok a, s)
  bind m f := fun s =>
    match m s with
    | (.ok a, s') => f a s'
    | (.error h, s') => (.error h, s')

variable {β : Type} {s s' : State} {m : Descent α} {f : α → Descent β}

theorem bind_of_ok {a : α} (h : m s = (.ok a, s')) : (m >>= f) s = f a s' := by
  show (match m s with
    | (.ok a, s') => f a s'
    | (.error h, s') => (.error h, s')) = _
  rw [h]

theorem bind_of_error {e : Halt} (h : m s = (.error e, s')) : (m >>= f) s = (.error e, s') := by
  show (match m s with
    | (.ok a, s') => f a s'
    | (.error h, s') => (.error h, s')) = _
  rw [h]

/-! ### The state -/

/-- Changes the state. -/
def change (f : State → State) : Descent Unit := fun s => (.ok (), f s)

/-- Meets the bound. -/
def stall : Descent α := fun s => (.error .stalled, s)

/-- What a parser that takes nothing gives, or its error. -/
def look (p : Context → Parser α) : Descent α := fun s =>
  match p s.context s.tokens with
  | .ok (a, _) => (.ok a, s)
  | .error e => (.error (.failed e), s)

/-- The next token, which is left where it is. -/
def peek : Descent Token := look Expr.peek

/-- The token after the next. -/
def peekSecond : Descent Token := look Expr.peekSecond

/-- Fails at a token. -/
def fail (cause : GrammarCause) (t : Token) : Descent α := look fun ctx => Expr.fail ctx cause t

/-- The state past the token that comes next, if there is one. -/
def State.past (s : State) : State :=
  { s with tokens := s.tokens.tail, taken := s.taken ++ s.tokens.head?.toList }

/-- Takes the next token; the one at the end stays. -/
def advance : Descent Token := do
  let t ← peek
  change State.past
  return t

/-- Puts an opening bracket on those that are open. -/
def openBracket (opener : Token) : Descent Unit := change fun s => { s with context := s.context.inside opener }

/-- Takes the innermost of the open brackets away. -/
def closeBracket : Descent Unit :=
  change fun s => { s with context := { s.context with unclosed := s.context.unclosed.tail } }

/-- Fails if the depth is over the limit. -/
def checkDepth : Descent Unit := fun s => if s.context.limit < s.depth then look failDeep s else (.ok (), s)

/-- The state after an entry. -/
def State.deeper (entry : Entry) (s : State) : State :=
  { s with depth := s.depth + 1, entered := s.entered + 1, entries := s.entries ++ [entry] }

/-- Goes one deeper. -/
def enter (entry : Entry) : Descent Unit := do
  change (State.deeper entry)
  checkDepth

/-- The state of a frame that has no entries. -/
def State.fresh (s : State) : State := { s with entered := 0 }

/-- Runs a part that counts its entries by itself; in the end, also of a failed run, they are taken back. -/
def frame (body : Descent α) : Descent α := fun s =>
  let r := body s.fresh
  (r.1, { r.2 with depth := r.2.depth - r.2.entered, entered := s.entered })

/-- The state after a turn of a loop. -/
def State.turned (loop : Loop) (before : Nat) (s : State) : State :=
  { s with turns := s.turns ++ [⟨loop, before, s.tokens.length⟩] }

/-- Runs a part as a turn of a loop. -/
def turn (loop : Loop) (m : Descent α) : Descent α := fun s =>
  match m s with
  | (.ok a, s') => (.ok a, s'.turned loop s.tokens.length)
  | (.error h, s') => (.error h, s')

/-! ### Single tokens -/

/-- Takes a certain mark. -/
def expect (m : Mark) : Descent Unit := do
  let t ← peek
  if t.lexeme = .mark m then
    discard advance
  else
    fail (.expected (.mark m) t.lexeme) t

/-- Takes a comma where a row that `closer` ends goes on. -/
def separator (closer : Mark) : Descent Unit := do
  let t ← peek
  if t.lexeme = .mark .comma then
    discard advance
  else
    fail (.notASeparator closer t.lexeme) t

/-- Takes a number. -/
def number : Descent Nat := do
  let t ← peek
  match t.lexeme with
  | .number n =>
    discard advance
    return n
  | found => fail (.expected .number found) t

/-- Takes a number with an optional minus. -/
def integer : Descent Int := do
  let t ← peek
  if t.lexeme = .mark .minus then
    discard advance
    return -(← number)
  else
    return (← number)

/-- Takes a bound of a slice, if there is one. -/
def bound : Descent (Option Int) := do
  let t ← peek
  if startsInteger t.lexeme then
    return some (← integer)
  else
    return none

/-- Takes a key of a multiselect hash. -/
def key : Descent String := do
  let t ← peek
  match t.lexeme with
  | .name s | .quotedName s =>
    discard advance
    return s
  | found => fail (.notAKey found) t

/-! ### Loops -/

/-- Takes items separated by commas, and the mark that closes the row. -/
def row (loop : Loop) (closer : Mark) (item : Descent α) : Nat → Descent (List α)
  | 0 => stall
  | n + 1 => do
    let x ← turn loop item
    let t ← peek
    if t.lexeme = .mark closer then
      discard advance
      closeBracket
      return [x]
    else
      separator closer
      let xs ← row loop closer item n
      return x :: xs

/-- Takes as many items as there are. There are to be no more turns than tokens. -/
def items (loop : Loop) (closer : Mark) (item : Descent α) : Descent (List α) :=
  fun s => row loop closer item (s.tokens.length + 1) s

/-- Takes the bracket that closes an index or a slice. -/
def closeSelector (mayGoOn : Bool) : Descent Unit := do
  let t ← peek
  if t.lexeme = .mark .rbracket then
    discard advance
    closeBracket
  else
    fail (.unclosedSelector mayGoOn t.lexeme) t

/-- Takes a colon and the bound after it. -/
def stopFrom : Descent (Option Int) := do
  discard advance
  bound

/-- Takes a colon and the step after it, with the token that comes after the colon. -/
def stepFrom : Descent (Token × Option Int) := do
  discard advance
  let t ← peek
  let step ← bound
  return (t, step)

/-- Takes a slice from its first colon on; there are at most two turns. -/
def sliceFrom (base : Option Expr) (start : Option Int) : Descent Expr := do
  let stop ← turn .slice stopFrom
  let t ← peek
  if t.lexeme = .mark .colon then
    let (t, step) ← turn .slice stepFrom
    closeSelector false
    if step = some 0 then
      fail .zeroStep t
    else
      return .slice base start stop step
  else
    closeSelector true
    return .slice base start stop none

/-- Takes an index or a slice and the closing bracket. -/
def selector (base : Option Expr) : Descent Expr := do
  let t ← peek
  if t.lexeme = .mark .colon then
    sliceFrom base none
  else
    let i ← integer
    let t ← peek
    if t.lexeme = .mark .colon then
      sliceFrom base (some i)
    else
      closeSelector true
      return .index base i

/-! ### Forms that hold subexpressions -/

variable (sub : Nat → Descent Expr)

/-- Takes the items of a multiselect list. -/
def multiselectListFrom : Descent Expr := do
  return .multiselectList (← items .list .rbracket (sub 0))

/-- Takes a key, a colon and the expression of the key. -/
def pair : Descent (String × Expr) := do
  let k ← key
  expect .colon
  return (k, ← sub 0)

/-- Takes the pairs of a multiselect hash. -/
def multiselectHashFrom : Descent Expr := do
  return .multiselectHash (← items .hash .rbrace (pair sub))

/-- Takes an argument: an expression, or a reference to one. -/
def argument : Descent Expr := do
  let t ← peek
  if t.lexeme = .mark .reference then
    discard advance
    return .reference (← sub 0)
  else
    sub 0

/-- Takes the arguments of a call. -/
def callFrom (function : String) : Descent Expr := do
  let t ← peek
  if t.lexeme = .mark .rparen then
    discard advance
    closeBracket
    return .call function []
  else
    return .call function (← items .arguments .rparen (argument sub))

/-- Goes on after a name: a call if a parenthesis follows, else the field of that name. -/
def nameFrom (name : String) : Descent Expr := do
  let t ← peek
  if t.lexeme = .mark .lparen then
    discard advance
    openBracket t
    callFrom sub name
  else
    return .identifier name

/-- Takes the predicate of a filter and the closing bracket. -/
def filterFrom (source : Option Expr) : Descent Expr := do
  let predicate ← sub 0
  expect .rbracket
  closeBracket
  return .filter source predicate

/-- Goes on after a bracket where an expression starts. -/
def bracketFrom : Descent Expr := do
  let t ← peek
  if startsSelector t.lexeme then
    selector none
  else if t.lexeme = .mark .star then
    let next ← peekSecond
    if next.lexeme = .mark .rbracket then
      discard advance
      discard advance
      closeBracket
      return .arrayWildcard none
    else
      multiselectListFrom sub
  else
    multiselectListFrom sub

/-- Goes on after the first token of an operand. -/
def operandFrom (t : Token) : Descent Expr :=
  match t.lexeme with
  | .literal text => look fun ctx => literalFrom ctx t text
  | .name s => nameFrom sub s
  | .quotedName s => look fun ctx => quotedNameFrom ctx s
  | .rawString s => return .rawString s
  | .mark .current => return .current
  | .mark .star => return .objectWildcard none
  | .mark .not => return .not (← sub (Lexeme.mark .not).power)
  | .mark .lparen => do
    openBracket t
    let e ← sub 0
    expect .rparen
    closeBracket
    return e
  | .mark .lbracket => do
    openBracket t
    bracketFrom sub
  | .mark .lbrace => do
    openBracket t
    multiselectHashFrom sub
  | .mark .flatten => return .flatten none
  | .mark .filter => do
    openBracket t
    filterFrom sub none
  | .number _ => fail .strayNumber t
  | .mark .reference => fail .strayReference t
  | found => fail (.notAnExpression found) t

/-- Goes on after a point: the field, call or multiselect on its right. -/
def fieldFrom (left : Expr) : Descent Expr := do
  let t ← peek
  match t.lexeme with
  | .mark .star =>
    discard advance
    return .objectWildcard (some left)
  | .name s =>
    discard advance
    return .subexpression left (← nameFrom sub s)
  | .quotedName s =>
    discard advance
    return .subexpression left (← look fun ctx => quotedNameFrom ctx s)
  | .mark .lbracket =>
    discard advance
    openBracket t
    return .subexpression left (← multiselectListFrom sub)
  | .mark .lbrace =>
    discard advance
    openBracket t
    return .subexpression left (← multiselectHashFrom sub)
  | found => fail (.notAField found) t

/-- Goes on after a bracket that follows an expression. -/
def selectorFrom (left : Expr) : Descent Expr := do
  let t ← peek
  if startsSelector t.lexeme then
    selector (some left)
  else if t.lexeme = .mark .star then
    discard advance
    expect .rbracket
    closeBracket
    return .arrayWildcard (some left)
  else
    fail (.notASelector t.lexeme) t

/-- Goes on after the token by which an expression is extended. -/
def extendFrom (t : Token) (left : Expr) : Descent Expr :=
  match t.lexeme with
  | .mark .dot => fieldFrom sub left
  | .mark .pipe => return .pipe left (← sub t.lexeme.power)
  | .mark .or => return .or left (← sub t.lexeme.power)
  | .mark .and => return .and left (← sub t.lexeme.power)
  | .mark (.comparator op) => return .comparison op left (← sub t.lexeme.power)
  | .mark .flatten => return .flatten (some left)
  | .mark .filter => do
    openBracket t
    filterFrom sub (some left)
  | .mark .lbracket => do
    openBracket t
    selectorFrom left
  | .mark .lparen => fail .callWithoutName t
  | found => fail (.notAnOperator found) t

/-! ### Expressions -/

mutual

/-- Takes an expression of which every operator outside brackets binds tighter than `power`. -/
def expression : Nat → Nat → Descent Expr
  | 0, _ => stall
  | n + 1, power => frame do
    enter .operand
    let t ← advance
    let left ← operandFrom (expression n) t
    extend n power left

/-- Extends an expression while the next token binds tighter than `power`. -/
def extend : Nat → Nat → Expr → Descent Expr
  | 0, _, _ => stall
  | n + 1, power, left => do
    let t ← peek
    if power < t.lexeme.power then
      enter .extension
      let t ← advance
      let left ← extendFrom (expression n) t left
      extend n power left
    else
      return left

end

/-- Takes one expression and the end. -/
def whole (n : Nat) : Descent Expr := do
  let e ← expression n 0
  let t ← peek
  if t.lexeme = .finish then
    return e
  else
    fail (.trailing t.lexeme) t

/-- Before the first token of a scan. -/
def State.start (limit : Int) (s : Scan) : State := ⟨⟨limit, s.ending, []⟩, s.tokens, 0, 0, [], [], []⟩

/-- Reads a text. A text of white space alone is refused as empty. -/
def parse (n : Nat) (text : String) (limit : Int) : Except Halt Expr × State :=
  let start := State.start limit (Scan.ofText text.toList)
  if Text.trim Text.isBlank text.toList = [] then
    (do fail .empty (← peek) : Descent Expr) start
  else
    whole n start

end Descent
end JsonQuery.Expr
