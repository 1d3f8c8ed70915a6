import JsonQuery.Json.Basic

/-! Layers of settings. A layer is an object; laid over another it wins key by key, objects within objects
    included, while any other value replaces what lies below. Layers are laid down from the highest to the
    lowest, each below all that have been laid: two objects under one key are merged even if a layer between
    them has something else there. Only an object can be a layer; other values have their faults. -/

namespace JsonQuery

/-- Why a value cannot be a layer: it is no container, it is an array below members that go by names, or it is
    an array, which has no members. -/
inductive LayerFault where
  | scalar (kind : String)
  | arrayBelow
  | array
  deriving DecidableEq

/-- What was wrong with a layer, in words. -/
def LayerFault.message : LayerFault → String
  | .scalar kind => "'" ++ kind ++ "' object has no attribute 'copy'"
  | .arrayBelow => "list indices must be integers or slices, not str"
  | .array => "'list' object has no attribute 'items'"

namespace Layer

mutual

/-- A value over what lies below it. -/
def overValue : Json → Option Json → Json
  | .object high, some (.object low) => .object (overlay high low)
  | v, _ => v

/-- The members of a layer over those of a lower one. -/
def overlay : List (String × Json) → Members Json → Members Json
  | [], low => low
  | (k, v) :: rest, low => overlay rest (Members.put k (overValue v (Members.get? k low)) low)

end

/-- What a value that is no container is called; null is nothing and stands for no members. -/
def scalarKind? : Json → Option String
  | .bool _ => some "bool"
  | .number (.int _) => some "int"
  | .number (.double _) => some "float"
  | .string _ => some "str"
  | .null | .array _ | .object _ => none

/-- The fault of an array under some members. Where there are none it is not noticed before the next value is
    laid down, of which a scalar has its own fault. -/
def arrayFault (above : Members Json) (below : List Json) : LayerFault :=
  if !above.isEmpty then .arrayBelow
  else match below.head?.bind scalarKind? with
    | some kind => .scalar kind
    | none => .array

/-- Some members with values laid below them, the highest first. -/
def layBelow (above : Members Json) : List Json → Except LayerFault (Members Json)
  | [] => .ok above
  | .object ms :: rest => layBelow (overlay above ms) rest
  | .array _ :: rest => .error (arrayFault above rest)
  | v :: rest => match scalarKind? v with
    | some kind => .error (.scalar kind)
    | none => layBelow above rest

end Layer
end JsonQuery
