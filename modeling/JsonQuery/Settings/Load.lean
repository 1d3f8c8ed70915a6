import JsonQuery.Settings.Field

/-! Loading settings. What is given directly lies over the environment, that over the file of the project, and
    that over the file of the user. The files are read first, then the environment, and then the settings that
    result are checked, all of them; the first that is not acceptable is reported. -/

namespace JsonQuery

/-- A place where a settings file may be, and its text if there is one. -/
structure FilePlace where
  path : String
  text : Option String

/-- What settings are loaded from besides what is given directly. -/
structure Surroundings where
  project : FilePlace
  user : FilePlace
  environment : Variables

/-- The events of doing something, and what came of it. -/
structure Logged (α : Type) where
  events : List Event
  outcome : Except SettingsError α

namespace Settings

/-- The logger of loading. -/
def logger : String := "sdkquery.config"

/-- An event without fields. -/
def note (level : Level) (text : String) : Event := ⟨level, logger, text, []⟩

/-- There is no file for the project. -/
def noProjectEvent : Event := note .info "No project configuration found, using defaults."

/-- A file is empty. -/
def emptyFileEvent (path : String) : Event :=
  note .warning ("Config file " ++ path ++ " is empty, using defaults.")

/-- There are no keys under which expressions would be found. -/
def noKeysEvent : Event :=
  note .warning
    "No expression keys configured. Configuration validation will not find any expressions."

/-- Whether a value in a file is passed over: what is false, empty or zero. -/
def isPassedOver : Json → Bool
  | .number n => n.equals (.int 0)
  | v => !v.isTruthy

variable (readers : Readers)

/-- The value that a file adds to the layers. A file that is not there, or whose value is passed over, adds an
    empty object. -/
def fileValue (place : FilePlace) : Logged Json :=
  match place.text with
  | none => ⟨[], .ok (.object [])⟩
  | some text => match readers.file text with
    | .empty => ⟨[emptyFileEvent place.path], .ok (.object [])⟩
    | .value v => ⟨[], .ok (if isPassedOver v then .object [] else v)⟩
    | .malformed reason => ⟨[], .error (.malformed place.path reason)⟩

/-- The values of both files, the highest first. -/
def fileValues (s : Surroundings) : Logged (List Json) :=
  let project := fileValue readers s.project
  match project.outcome with
  | .error e => ⟨project.events, .error e⟩
  | .ok high =>
    let user := fileValue readers s.user
    ⟨project.events ++ user.events, user.outcome.map fun low => [high, low]⟩

/-- The layer that variables make up, or the section that cannot be decoded. -/
def environmentLayer (vars : Variables) : Except String (Members Json) := readers.environment nameStart nameBreak vars

/-- The members that come of something given directly over the environment over the values of files. -/
def merge (given : Members Json) (vars : Variables) (files : List Json) : Except SettingsError (Members Json) :=
  match environmentLayer readers vars with
  | .error part => .error (.undecodable part)
  | .ok top => (Layer.layBelow (Layer.overlay (readers.given given) top) files).mapError .unlayered

/-- The settings that an object stands for, or the first that is not acceptable. -/
def ofMembers (ms : Members Json) : Except SettingFault Settings := do
  let maxDepth ← depthOf readers ms
  let keys ← keysOf readers ms
  let verbosity ← verbosityOf readers ms
  return ⟨maxDepth.getD default.maxDepth, keys.getD default.expressionKeys, verbosity.getD default.verbosity⟩

/-- Whether an object sets acceptable keys, but none. -/
def setsNoKeys (ms : Members Json) : Bool :=
  match keysOf readers ms with
  | .ok (some keys) => keys.isEmpty
  | _ => false

/-- The settings with something given directly. -/
def build (given : Members Json) (s : Surroundings) : Logged Settings :=
  let files := fileValues readers s
  match files.outcome.bind (merge readers given s.environment) with
  | .error e => ⟨files.events, .error e⟩
  | .ok ms =>
    let events := files.events ++ if setsNoKeys readers ms then [noKeysEvent] else []
    ⟨events, (ofMembers readers ms).mapError .invalid⟩

/-- The settings with nothing given directly. -/
def load (s : Surroundings) : Logged Settings :=
  let built := build readers [] s
  ⟨(if s.project.text.isNone then [noProjectEvent] else []) ++ built.events, built.outcome⟩

/-- The journal that settings ask for; its format is up to the environment. -/
def journal (x : Settings) (vars : Variables) : JournalSetup :=
  JournalSetup.choose vars false (some x.verbosity.level.rank)

end Settings
end JsonQuery
