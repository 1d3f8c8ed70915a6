import JsonQuery.Journal.Setup
import JsonQuery.Settings.Basic

/-! What settings are read with. How a file is written, how variables and what is given directly make up layers, and
    which values stand for an integer, for texts or for a verbosity is left to the readers that are brought along.
    What is laid down here is how the variables that hold settings are named. -/

namespace JsonQuery

/-- What a settings file holds. -/
inductive FileContent where
  | empty
  | value (v : Json)
  | malformed (reason : String)

namespace Settings

/-- What the names of variables that hold settings begin with. -/
def nameStart : String := "SDKQUERY_"

/-- What stands between the parts of such a name. -/
def nameBreak : String := "__"

/-- Readers of files, of what is given directly, of variables by the start and the breaks of their names, and of
    values. Variables make up a layer, or there is a section that cannot be decoded. -/
structure Readers where
  file : String → FileContent
  given : Members Json → Members Json
  environment : String → String → Variables → Except String (Members Json)
  integer : Json → Except SettingFault Int
  texts : Json → Except SettingFault (List String)
  verbosity : Json → Except SettingFault Verbosity

end Settings
end JsonQuery
