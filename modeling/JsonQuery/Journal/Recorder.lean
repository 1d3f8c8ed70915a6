import JsonQuery.Definitions.Validation
import JsonQuery.Journal.Context

/-! A recorder has a bound context, which a store keeps, and a least level, and records events as entries. -/

namespace JsonQuery

/-- What a recorder may be asked for. -/
inductive RecorderStep where
  | bind (context : Members Json)
  | clear
  | enter (context : Members Json)
  | exit
  | log (event : Event)
  | validate (definitions : Json)

namespace RecorderStep

variable {σ : Type} (store : ContextStore σ)

/-- The context after a step. -/
def after (c : LogContext σ) : RecorderStep → LogContext σ
  | bind context => c.bind store context
  | clear => c.clear store
  | enter context => c.enter store context
  | exit => c.exit store
  | log _ | validate _ => c

/-- The events of a step. -/
def events : RecorderStep → List Event
  | log event => [event]
  | validate definitions => Definitions.events Definitions.defaultKeys Expr.defaultLimit definitions
  | _ => []

/-- What is bound after each of some steps, and the entries that the step makes. -/
def run (least : Int) (c : LogContext σ) : List RecorderStep → List (Members Json × List (Members Json))
  | [] => []
  | s :: rest =>
    let c := s.after store c
    (c.bound, Event.entries least c.bound s.events) :: run least c rest

end RecorderStep
end JsonQuery
