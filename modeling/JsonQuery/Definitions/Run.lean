import JsonQuery.Journal.Context
import JsonQuery.Settings.Load

/-! A run over definitions: the settings are built from what is given or are loaded, and the definitions are
    checked under them. The name of the definitions, if they have one, is bound to the events of the check and
    to no others. -/

namespace JsonQuery.Definitions

/-- Why a run has no result: the settings are wrong, or a number is too long. -/
inductive RunError where
  | settings (error : SettingsError)
  | overlong (number : Overlong)

/-- The entries that a run makes, and what came of it. -/
structure Run where
  entries : List (Members Json)
  outcome : Except RunError (List Issue)

variable {σ : Type} (readers : Settings.Readers) (store : ContextStore σ)

/-- The settings of a run. -/
def settingsOf (given : Option (Members Json)) (s : Surroundings) : Logged Settings :=
  match given with
  | some ms => Settings.build readers ms s
  | none => Settings.load readers s

/-- Checks definitions; `source` is their name, and null if they have none. -/
def run (least : Int) (given : Option (Members Json)) (s : Surroundings) (source definitions : Json) : Run :=
  let settings := settingsOf readers given s
  let before := Event.entries least [] settings.events
  match settings.outcome with
  | .error e => ⟨before, .error (.settings e)⟩
  | .ok x =>
    let context := LogContext.empty.enter store [("source", source)]
    let checked := events x.expressionKeys x.maxDepth definitions
    ⟨before ++ Event.entries least context.bound checked,
      (validate x.expressionKeys x.maxDepth definitions).mapError .overlong⟩

end JsonQuery.Definitions
