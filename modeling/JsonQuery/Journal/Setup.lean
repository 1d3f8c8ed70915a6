import JsonQuery.Journal.Event
import JsonQuery.Text.LetterCase

/-! How a journal is set up: the least level that it takes and whether it is written as JSON. Both can be asked
    for; otherwise the environment says so by a level name and by the format `json`, both in any case. -/

namespace JsonQuery

/-- Environment variables. -/
abbrev Variables := List (String × String)

/-- The setting of a journal. -/
structure JournalSetup where
  level : Int
  json : Bool
  deriving DecidableEq

namespace JournalSetup

/-- The variable that names the least level. -/
def levelVariable : String := "SDKQUERY_LOG_LEVEL"

/-- The variable that names the format. -/
def formatVariable : String := "SDKQUERY_LOG_FORMAT"

/-- The levels that can be asked for by name. -/
def namedLevels : List (String × Int) :=
  [("CRITICAL", 50), ("FATAL", 50), ("ERROR", 40), ("WARNING", 30), ("WARN", 30), ("INFO", 20), ("DEBUG", 10),
    ("NOTSET", 0)]

/-- The level that is taken if none is asked for. -/
def defaultLevel : Int := 20

/-- The level of a name; one that is not known stands for the default. -/
def levelOfName (name : String) : Int := (namedLevels.lookup (Text.upper name)).getD defaultLevel

/-- The least level that an environment asks for. -/
def levelOf (vars : Variables) : Int :=
  match vars.lookup levelVariable with
  | some name => levelOfName name
  | none => defaultLevel

/-- Whether an environment asks for JSON. -/
def jsonOf (vars : Variables) : Bool :=
  match vars.lookup formatVariable with
  | some format => Text.lower format == "json"
  | none => false

/-- The setup under an environment, if JSON may be forced and a level may be given. -/
def choose (vars : Variables) (forceJson : Bool) (level : Option Int) : JournalSetup :=
  ⟨level.getD (levelOf vars), forceJson || jsonOf vars⟩

end JournalSetup
end JsonQuery
