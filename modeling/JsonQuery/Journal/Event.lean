import JsonQuery.Json.Basic

/-! Events of a journal. An event has a level, the part of the library that it comes from, a name and fields.
    Its entry in a journal is an object: the fields, whatever the bound context adds to them, the name of the
    event, the level and the logger, which is called `root` if it has no name. A field wins over the context;
    name, level and logger win over both. The time of an event, under the key `timestamp`, is left to whoever
    writes the journal down. -/

namespace JsonQuery

/-- How grave an event is. -/
inductive Level where
  | debug | info | warning | error | critical
  deriving DecidableEq

namespace Level

/-- The name of a level. -/
def label : Level → String
  | debug => "debug"
  | info => "info"
  | warning => "warning"
  | error => "error"
  | critical => "critical"

/-- The number of a level, to which the least number wanted is compared. -/
def rank : Level → Int
  | debug => 10
  | info => 20
  | warning => 30
  | error => 40
  | critical => 50

/-- All levels, from the least grave. -/
def all : List Level := [debug, info, warning, error, critical]

end Level

/-- What has happened. -/
structure Event where
  level : Level
  logger : String
  name : String
  fields : Members Json

namespace Event

/-- The logger of an event as it is written in an entry. -/
def loggerText (e : Event) : String := if e.logger = "" then "root" else e.logger

/-- The entry of an event under a bound context. -/
def entry (context : Members Json) (e : Event) : Members Json :=
  let named := (context.union e.fields).put "event" (.string e.name)
  ((named.put "level" (.string e.level.label)).put "logger" (.string e.loggerText)).erase "timestamp"

/-- The entries of those events that are grave enough. -/
def entries (least : Int) (context : Members Json) (events : List Event) : List (Members Json) :=
  (events.filter fun e => least ≤ e.level.rank).map (entry context)

end Event
end JsonQuery
