import JsonQuery.Definitions.Validation
import JsonQuery.Settings.Layer

/-! Settings: the limit on the depth of expressions, the keys of definitions that hold expressions, and how much
    is reported. A setting that is not acceptable is a fault: what was wrong with it, the path of the field and
    the value that was given for it. -/

namespace JsonQuery

/-- How much is reported. -/
inductive Verbosity where
  | error | warning | info | debug
  deriving DecidableEq

/-- The name of a verbosity. -/
def Verbosity.label : Verbosity → String
  | .error => "error"
  | .warning => "warning"
  | .info => "info"
  | .debug => "debug"

/-- All verbosities. -/
def Verbosity.all : List Verbosity := [.error, .warning, .info, .debug]

/-- The least level of a journal of some verbosity. -/
def Verbosity.level : Verbosity → Level
  | .error => .error
  | .warning => .warning
  | .info => .info
  | .debug => .debug

/-- The settings. -/
structure Settings where
  maxDepth : Int
  expressionKeys : List String
  verbosity : Verbosity
  deriving DecidableEq

namespace Settings

/-- The greatest depth that may be set. -/
def depthLimit : Int := 256

/-- What is set if nothing else is. -/
def default : Settings := ⟨Expr.defaultLimit, Definitions.defaultKeys, .warning⟩

end Settings

/-- A setting that is not acceptable: what was wrong with it, in words, its path and the value that was given. -/
structure SettingFault where
  message : String
  field : List String
  value : Json

/-- A fault of what is held under a path. -/
def SettingFault.under (path : List String) (fault : SettingFault) : SettingFault :=
  ⟨fault.message, path ++ fault.field, fault.value⟩

/-- Why there are no settings: a file is malformed, a section cannot be read from the environment, the value of
    a file cannot be a layer, or a setting is not acceptable. -/
inductive SettingsError where
  | malformed (path reason : String)
  | undecodable (part : String)
  | unlayered (fault : LayerFault)
  | invalid (fault : SettingFault)

namespace SettingsError

/-- What was wrong, in words. -/
def message : SettingsError → String
  | malformed path reason => "Invalid YAML in " ++ path ++ ": " ++ reason
  | unlayered fault => fault.message
  | undecodable part => "error parsing value for field \"" ++ part ++ "\" from source \"EnvSettingsSource\""
  | invalid fault => "Invalid configuration: " ++ fault.message

/-- The path of the field that is not acceptable. -/
def field? : SettingsError → Option String
  | invalid fault => some (String.intercalate "." fault.field)
  | _ => none

/-- The value that is not acceptable, or null. -/
def value : SettingsError → Json
  | invalid fault => fault.value
  | _ => .null

end SettingsError
end JsonQuery
