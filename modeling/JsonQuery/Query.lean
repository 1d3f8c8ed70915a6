import JsonQuery.Eval.Reference

/-! Queries: an expression compiled once, to be evaluated against any number of documents under one table of
    functions and one limit on depth. `search` compiles and evaluates under the builtin functions, which give
    JSON for JSON; a query of its own may have functions that hand expressions on. `check` only parses and
    gives the error as a value; a number that is too long to be read is no error of the text, and comes up as it
    is. -/

namespace JsonQuery

/-- A compiled expression. -/
structure Query where
  text : String
  tree : Expr
  functions : FunctionTable Reference
  limit : Int

/-- Why a search fails: its text is not an expression, or the evaluation fails. -/
inductive SearchError where
  | syntactic (error : SyntaxError)
  | evaluation (error : EvalError)

namespace Query

/-- Compiles an expression; the limit is both on its text and on its evaluation. -/
def compile (text : String) (functions : FunctionTable Reference) (limit : Int) : Except SyntaxError Query := do
  return ⟨text, ← Expr.parse text limit, functions, limit⟩

/-- The value of a query at a document. -/
def search (stack : EvaluatorStack) (q : Query) (document : Json) : Except EvalError (Value Reference) :=
  q.tree.evaluateLinked stack q.functions q.limit document

end Query

/-- The value of an expression at a document, under the builtin functions, on a machine with some stacks. -/
def searchOn (parsing : ParserStack) (stack : EvaluatorStack) (text : String) (document : Json) (limit : Int) :
    Except SearchError Json :=
  match Expr.parseOn parsing text limit with
  | .error e => .error (.syntactic e)
  | .ok e => (e.evaluate (.plainOn stack Builtin.table limit) document).mapError .evaluation

/-- The value of an expression at a document, under the builtin functions and with stack enough. -/
def search (text : String) (document : Json) (limit : Int) : Except SearchError Json :=
  searchOn .ample (.ample 0) text document limit

theorem search_eq (text : String) (document : Json) (limit : Int) :
    search text document limit = match Expr.parse text limit with
      | .error e => .error (.syntactic e)
      | .ok e => (e.evaluate (.plain Builtin.table limit) document).mapError .evaluation := rfl

/-- The value of an expression at a document, under functions that may hand expressions on. -/
def searchWith (stack : EvaluatorStack) (functions : FunctionTable Reference) (text : String) (document : Json)
    (limit : Int) : Except SearchError (Value Reference) :=
  match Query.compile text functions limit with
  | .error e => .error (.syntactic e)
  | .ok q => (q.search stack document).mapError .evaluation

/-- What is wrong with the text of an expression, for those who prefer a record to a failure. -/
structure SyntaxReport where
  text : String
  reason : String
  position : Nat
  offset : Nat
  deriving DecidableEq

/-- The report of an error. -/
def SyntaxError.report (e : SyntaxError) (text : String) : SyntaxReport :=
  ⟨text, e.reason, e.position, e.offset text⟩

/-- What is wrong with a text, if anything is, unless a number in it is too long. -/
def check (text : String) (limit : Int) : Except Overlong (Option SyntaxReport) :=
  match Expr.parse text limit with
  | .ok _ => .ok none
  | .error e => match e.overlong? with
    | some number => .error number
    | none => .ok (some (e.report text))

end JsonQuery
