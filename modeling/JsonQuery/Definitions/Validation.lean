import JsonQuery.Journal.Event
import JsonQuery.Query

/-! Expressions within definitions. A *site* is a string under one of certain keys, or a string in an array of
    strings alone under such a key, at any depth; whatever else stands under such a key is searched on. All
    sites are checked in document order; every one that is not an expression is an issue. A number that is too
    long to be read is not an issue but ends the run, with no result and no event for the run. -/

namespace JsonQuery

/-- An expression within definitions, and the path to it. -/
structure Site where
  location : String
  text : String
  deriving DecidableEq

/-- A site whose text is not an expression. -/
structure Issue where
  location : String
  report : SyntaxReport
  deriving DecidableEq

namespace Definitions

/-- The keys that hold expressions unless something else is asked for. -/
def defaultKeys : List String :=
  ["argument", "path", "input_token", "output_token", "result_key", "more_results", "limit_key"]

/-- The location of a member. -/
def memberLocation (parent key : String) : String := if parent = "" then key else parent ++ "." ++ key

/-- The location of an item. -/
def itemLocation (parent : String) (i : Nat) : String := parent ++ "[" ++ toString i ++ "]"

/-- The texts of an array that holds nothing but strings. -/
def texts? : List Json → Option (List String)
  | [] => some []
  | .string s :: rest => (texts? rest).map (s :: ·)
  | _ :: _ => none

/-- The sites of an array of texts, from an index on. -/
def textSites (location : String) : Nat → List String → List Site
  | _, [] => []
  | i, s :: rest => ⟨itemLocation location i, s⟩ :: textSites location (i + 1) rest

/-- The sites that a value under an expression key is by itself, if it holds expressions. -/
def ownSites? (location : String) : Json → Option (List Site)
  | .string s => some [⟨location, s⟩]
  | .array items => (texts? items).map (textSites location 0)
  | _ => none

mutual

/-- The sites within a value. -/
def sites (keys : List String) (location : String) : Json → List Site
  | .object members => memberSites keys location members
  | .array items => itemSites keys location 0 items
  | _ => []

/-- The sites within members. -/
def memberSites (keys : List String) (location : String) : List (String × Json) → List Site
  | [] => []
  | (k, v) :: rest =>
    let here := memberLocation location k
    (if keys.contains k then
      match ownSites? here v with
      | some own => own
      | none => sites keys here v
    else sites keys here v) ++ memberSites keys location rest

/-- The sites within items, from an index on. -/
def itemSites (keys : List String) (location : String) : Nat → List Json → List Site
  | _, [] => []
  | i, v :: rest => sites keys (itemLocation location i) v ++ itemSites keys location (i + 1) rest

end

/-- What a check of sites comes to: the issues found, and the number that ended it, if one did. -/
structure Findings where
  issues : List Issue
  overlong : Option Overlong

/-- One issue more, before the others. -/
def Findings.cons (i : Issue) (f : Findings) : Findings := { f with issues := i :: f.issues }

/-- Checks sites one after the other. -/
def findings (limit : Int) : List Site → Findings
  | [] => ⟨[], none⟩
  | s :: rest => match check s.text limit with
    | .error number => ⟨[], some number⟩
    | .ok none => findings limit rest
    | .ok (some report) => (findings limit rest).cons ⟨s.location, report⟩

/-- What a check of definitions comes to. -/
def findingsWithin (keys : List String) (limit : Int) (definitions : Json) : Findings :=
  findings limit (sites keys "" definitions)

/-- The issues found within definitions, in document order. -/
def issues (keys : List String) (limit : Int) (definitions : Json) : List Issue :=
  (findingsWithin keys limit definitions).issues

/-- The result of a check of definitions, if it is not ended by a number. -/
def validate (keys : List String) (limit : Int) (definitions : Json) : Except Overlong (List Issue) :=
  match (findingsWithin keys limit definitions).overlong with
  | some number => .error number
  | none => .ok (issues keys limit definitions)

/-- The logger of checks. -/
def logger : String := "sdkquery.expressions.validation"

/-- The event of an issue. -/
def issueEvent (i : Issue) : Event :=
  ⟨.warning, logger, "invalid_expression",
    [("location", .string i.location), ("expression", .string i.report.text),
      ("error", .string i.report.reason), ("offset", .int i.report.offset)]⟩

/-- The event of a whole run. -/
def summaryEvent (checked invalid : Nat) : Event :=
  ⟨.info, logger, "expressions_validated", [("checked", .int checked), ("invalid", .int invalid)]⟩

/-- The events of a run: one for every issue, and one for the run if it is not ended by a number. -/
def events (keys : List String) (limit : Int) (definitions : Json) : List Event :=
  (issues keys limit definitions).map issueEvent ++
    match validate keys limit definitions with
    | .ok found => [summaryEvent (sites keys "" definitions).length found.length]
    | .error _ => []

end Definitions
end JsonQuery
