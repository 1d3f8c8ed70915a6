import JsonQuery.Proofs.Settings.Layers
import JsonQuery.Settings.Load

/-! What readers of settings promise. A layer has no key twice. A variable that goes by the path of a field gives the
    field its value, whatever the JSON holds that the variable of its section gives; the names of variables count in any
    case. The expression keys are decoded, and there is no layer where they are not JSON. No object is an integer, a row
    of texts or a verbosity. -/

namespace JsonQuery

open Layer (Regular sectionNames)
open Members (get?)

namespace Variables

/-- Variables by their names in lower case; of two names that differ in case the later one counts. -/
def lowered (vars : Variables) : Members String :=
  Members.ofPairs (vars.map fun (name, text) => (Text.lower name, text))

/-- The name of the variable at a path, in lower case. -/
def nameAt (path : List String) : String :=
  Text.lower Settings.nameStart ++ String.intercalate Settings.nameBreak path

/-- The text of the variable at a path. -/
def textAt? (vars : Variables) (path : List String) : Option String := (lowered vars).get? (nameAt path)

/-- Whether a variable goes by a longer path. -/
def goesBelow (vars : Variables) (path : List String) : Bool :=
  (lowered vars).keys.any fun name => (nameAt path ++ Settings.nameBreak).toList.isPrefixOf name.toList

/-- What the text of the variable of a setting stands for. The expression keys are given as JSON, unless nothing is
    given for them. -/
def decode? : Setting → String → Option Json
  | .keys, text => if text = "" then some (.string text) else Json.ofText? text
  | _, text => some (.string text)

/-- What the variable of a setting says. If there is none, but variables go below it, they make up an object. -/
def own? (vars : Variables) (x : Setting) : Option Json :=
  match textAt? vars x.path with
  | some text => decode? x text
  | none => if x ≠ .verbosity ∧ goesBelow vars x.path = true then some (.object []) else none

/-- The JSON that is given for a section. -/
def json? (vars : Variables) (part : String) : Option Json := (textAt? vars [part]).bind Json.ofText?

/-- What the JSON of its section holds for a setting. -/
def inSection? (vars : Variables) : Setting → Option Json
  | .verbosity => none
  | x => x.held (json? vars)

/-- Whether the JSON of each section, if there is any, is an object. -/
def SectionsAreObjects (vars : Variables) : Prop :=
  ∀ part ∈ sectionNames, ∀ text, textAt? vars [part] = some text → ∃ ms, Json.ofText? text = some (.object ms)

/-- Whether the variable of the expression keys, if it is there, can be decoded. -/
def Readable (vars : Variables) : Prop :=
  ∀ text, textAt? vars Setting.keys.path = some text → ∃ v, decode? .keys text = some v

/-- Whether no key of the JSON of its section spells a setting in another case. -/
def Plain (vars : Variables) (x : Setting) : Prop :=
  ∀ part field ms, x.path = [part, field] → json? vars part = some (.object ms) →
    ∀ k ∈ Members.keys ms, Text.lower k = field → k = field

instance (vars : Variables) : Decidable (SectionsAreObjects vars) :=
  inferInstanceAs (Decidable (∀ part ∈ sectionNames, ∀ text ∈ textAt? vars [part],
    ∃ ms, Json.ofText? text = some (.object ms)))

instance (vars : Variables) : Decidable (Readable vars) :=
  decidable_of_iff (∀ text ∈ textAt? vars Setting.keys.path, (decode? .keys text).isSome = true) <|
    forall₂_congr fun _ _ => Option.isSome_iff_exists

/-- What the reader of variables promises. -/
structure Laws (read : Variables → Except String (Members Json)) : Prop where
  regular {vars : Variables} {top : Members Json} : SectionsAreObjects vars → read vars = .ok top → Regular top
  held {vars : Variables} {top : Members Json} {x : Setting} : SectionsAreObjects vars → read vars = .ok top →
    Plain vars x → (x.held fun name => get? name top).map Value.outline =
      ((own? vars x).or (inSection? vars x)).map Value.outline
  readable {vars : Variables} : SectionsAreObjects vars → Readable vars → ∃ top, read vars = .ok top
  unreadable {vars : Variables} : SectionsAreObjects vars → ¬ Readable vars → read vars = .error "validation"

end Variables

namespace Settings

/-- Whether no key spells a name in another case. -/
def Plain (given : Members Json) (name : String) : Prop := ∀ k ∈ given.keys, Text.lower k = name → k = name

/-- A reader to which no object is acceptable, whatever its members are. -/
def RefusesObjects {α : Type} (read : Json → Except SettingFault α) : Prop :=
  ∃ message, ∀ ms, read (.object ms) = .error ⟨message, [], .object ms⟩

/-- What readers promise. -/
structure Readers.Laws (readers : Readers) : Prop where
  file {text : String} {ms : Members Json} : readers.file text = .value (.object ms) →
    ms.Distinct ∧ ∀ p ∈ ms, ∀ inner, p.2 = .object inner → Members.Distinct inner
  given {given : Members Json} : given.Distinct → (readers.given given).Distinct
  named {given : Members Json} {name : String} : given.Distinct → name ∈ "verbosity" :: sectionNames →
    Plain given name → get? name (readers.given given) = get? name given
  environment : Variables.Laws (environmentLayer readers)
  integer : RefusesObjects readers.integer
  texts : RefusesObjects readers.texts
  verbosity : RefusesObjects readers.verbosity

end Settings
end JsonQuery
