import JsonQuery.Query

/-! Working sessions. A session keeps tables of functions, compiled queries, texts to be cut into tokens and
    scans of such texts, each under a name; giving a name anew replaces what it stood for, and a request that
    fails leaves the session as it was. A scan keeps the text that its name had when it was started and is
    over after the token of the end or after a fault. -/

namespace JsonQuery

/-- A text being cut into tokens: the text, and the place reached unless the scan is over. -/
structure Scanning where
  text : String
  place : Option Cursor

/-- A scan of a text from its start. -/
def Scanning.start (text : String) : Scanning := ⟨text, some (Cursor.start text.toList)⟩

/-- What a scan says next. -/
inductive Heard where
  | token (t : Token)
  | fault (f : LexicalFault)
  | over

/-- What a scan says next, and the scan after that. -/
def Scanning.next (s : Scanning) : Heard × Scanning :=
  match s.place with
  | none => (.over, s)
  | some c => match c.next with
    | .token t after => (.token t, { s with place := some after })
    | .finish t => (.token t, { s with place := none })
    | .fault f => (.fault f, { s with place := none })

/-- What a session keeps. -/
structure Session where
  tables : Members (FunctionTable Reference)
  queries : Members Query
  texts : Members String
  scans : Members Scanning

namespace Session

/-- A new session knows the table of builtin functions and an empty one. -/
def new : Session := ⟨[("default", Builtin.table), ("empty", [])], [], [], []⟩

/-- What may be asked of a session. -/
inductive Request where
  | extend (name source : String) (functions : List (Function Reference))
  | table (name : String)
  | compile (name text table : String) (limit : Int)
  | search (name : String) (document : Json)
  | stream (name text : String)
  | scan (name stream : String)
  | next (name : String)

/-- What a session answers. -/
inductive Answer where
  | size (count : Nat)
  | names (names : List String)
  | compiled (query : Query)
  | value (v : Value Reference)
  | text (text : String)
  | started
  | heard (text : String) (what : Heard)
  | notAnExpression (text : String) (error : SyntaxError)
  | failed (text : String) (error : EvalError)
  | unknown (name : String)

/-- Answers a request, on a machine with some stack. -/
def handle (stack : EvaluatorStack) (s : Session) : Request → Answer × Session
  | .extend name source functions =>
    match s.tables.get? source with
    | none => (.unknown source, s)
    | some table =>
      let table := table.extend functions
      (.size table.length, { s with tables := s.tables.put name table })
  | .table name =>
    match s.tables.get? name with
    | none => (.unknown name, s)
    | some table => (.names table.keys, s)
  | .compile name text table limit =>
    match s.tables.get? table with
    | none => (.unknown table, s)
    | some functions => match Query.compile text functions limit with
      | .error e => (.notAnExpression text e, s)
      | .ok q => (.compiled q, { s with queries := s.queries.put name q })
  | .search name document =>
    match s.queries.get? name with
    | none => (.unknown name, s)
    | some q => match q.search stack document with
      | .error e => (.failed q.text e, s)
      | .ok v => (.value v, s)
  | .stream name text => (.text text, { s with texts := s.texts.put name text })
  | .scan name stream =>
    match s.texts.get? stream with
    | none => (.unknown stream, s)
    | some text => (.started, { s with scans := s.scans.put name (.start text) })
  | .next name =>
    match s.scans.get? name with
    | none => (.unknown name, s)
    | some scan =>
      let (what, after) := scan.next
      (.heard scan.text what, { s with scans := s.scans.put name after })

/-- Answers requests one after the other. -/
def run (stack : EvaluatorStack) (s : Session) : List Request → List Answer
  | [] => []
  | r :: rest => let (a, s) := s.handle stack r; a :: s.run stack rest

end Session
end JsonQuery
