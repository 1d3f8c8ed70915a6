import JsonQuery.Settings.Readers

/-! Reading single settings. Each is read from what an object holds at its path, if it holds anything there. The
    sections on the way have to be objects, and a depth has to be within its bounds. -/

namespace JsonQuery.Settings

variable (readers : Readers)

/-- The depth that a value stands for. -/
def readDepth (v : Json) : Except SettingFault Int :=
  match readers.integer v with
  | .error fault => .error fault
  | .ok n =>
    if n < 1 then .error ⟨"Input should be greater than or equal to 1", [], v⟩
    else if depthLimit < n then .error ⟨"Input should be less than or equal to " ++ toString depthLimit, [], v⟩
    else .ok n

/-- What a section holds for a field, if it holds anything. -/
def sectionField (part kind field : String) : Option Json → Except SettingFault (Option Json)
  | none => .ok none
  | some (.object ms) => .ok (Members.get? field ms)
  | some v => .error ⟨"Input should be a valid dictionary or instance of " ++ kind, [part], v⟩

/-- What is read of what is held at a path, if anything is. -/
def readHeld {α : Type} (read : Json → Except SettingFault α) (path : List String) :
    Option Json → Except SettingFault (Option α)
  | none => .ok none
  | some v => ((read v).map some).mapError (·.under path)

/-- The depth that an object sets, if it sets one. -/
def depthOf (ms : Members Json) : Except SettingFault (Option Int) := do
  let held ← sectionField "engine" "EngineConfig" "max_depth" (ms.get? "engine")
  readHeld (readDepth readers) ["engine", "max_depth"] held

/-- The expression keys that an object sets, if it sets any. -/
def keysOf (ms : Members Json) : Except SettingFault (Option (List String)) := do
  let held ← sectionField "validation" "ValidationConfig" "expression_keys" (ms.get? "validation")
  readHeld readers.texts ["validation", "expression_keys"] held

/-- The verbosity that an object sets, if it sets one. -/
def verbosityOf (ms : Members Json) : Except SettingFault (Option Verbosity) :=
  readHeld readers.verbosity ["verbosity"] (ms.get? "verbosity")

end JsonQuery.Settings
