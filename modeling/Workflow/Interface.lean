import Workflow.Document.Codec

/-! Declared interfaces of step kinds: which inputs, outputs and parameters a unit has, and of which types. -/

namespace Workflow

/-- The documented shape of a value and of its members, in code point order of their names. -/
inductive Shape where
  | mk (type : SemanticType) (description : String) (members : List (String × Shape))
  deriving Inhabited, Repr

structure InterfaceField where
  key : String
  type : SemanticType
  description : String := ""
  /-- The documented members of the value. -/
  members : Assoc Shape := []
  /-- Handed to the unit as it is and never searched for references. -/
  verbatim : Bool := false

structure Interface where
  description : String := ""
  inputs : List InterfaceField := []
  outputs : List InterfaceField := []
  params : List InterfaceField := []
  actions : List String := []

namespace Interface

def output? (i : Interface) (key : String) : Option InterfaceField := i.outputs.find? (·.key = key)

def isVerbatim (i : Interface) (key : String) : Bool := i.params.any fun f => f.key = key && f.verbatim

/-- The declared type of a parameter; parameters come before inputs of the same name. -/
def paramType? (i : Interface) (key : String) : Option SemanticType :=
  ((i.params ++ i.inputs).find? (·.key = key)).map InterfaceField.type

end Interface

/-! ### Interfaces as Json -/

mutual

def Shape.toJson : Shape → Json
  | .mk type description members => .present
    [("type", some type.toJson), ("description", describe? description),
      ("structure", if members.isEmpty then none else some (.obj (shapesToJson members)))]

def shapesToJson : List (String × Shape) → List (String × Json)
  | [] => []
  | (k, s) :: rest => (k, s.toJson) :: shapesToJson rest

end

mutual

def Shape.ofJson? : Json → Option Shape
  | .obj fields => do
    let v : Json := .obj fields
    let type ← Decode.withDefault .any SemanticType.ofJson? v "type"
    let description ← Decode.withDefault "" Decode.text v "description"
    some (.mk type description (← memberShapes? fields))
  | _ => none

/-- The shapes under the member that lists them; none if there is no such member. -/
def memberShapes? : List (String × Json) → Option (Assoc Shape)
  | [] => some []
  | (k, v) :: rest =>
    if k = "structure" then
      match v with
      | .obj fields => (shapes? fields).map Assoc.sorted
      | _ => none
    else memberShapes? rest

def shapes? : List (String × Json) → Option (List (String × Shape))
  | [] => some []
  | (k, v) :: rest => do some ((k, ← Shape.ofJson? v) :: (← shapes? rest))

end

namespace InterfaceField

def toJson (f : InterfaceField) : Json := .present
  [("key", some (.str f.key)), ("type", some f.type.toJson), ("description", describe? f.description),
    ("structure", if f.members.isEmpty then none else some (.obj (shapesToJson f.members))),
    ("opaque", if f.verbatim then some (.bool true) else none)]

def ofJson? (v : Json) : Option InterfaceField := do
  some {
    key := ← Decode.required Decode.text v "key"
    type := ← Decode.withDefault .any SemanticType.ofJson? v "type"
    description := ← Decode.withDefault "" Decode.text v "description"
    members := ← memberShapes? (← v.asObject?)
    verbatim := ← Decode.withDefault false Json.asBool? v "opaque" }

end InterfaceField

namespace Interface

def toJson (i : Interface) : Json := .present
  [("description", describe? i.description), ("inputs", some (.arr (i.inputs.map InterfaceField.toJson))),
    ("outputs", some (.arr (i.outputs.map InterfaceField.toJson))),
    ("params", some (.arr (i.params.map InterfaceField.toJson))), ("actions", some (.strs i.actions))]

def ofJson? (v : Json) : Option Interface := do
  let fields := Decode.listOf InterfaceField.ofJson?
  if v.asObject?.isNone then none
  else some {
    description := ← Decode.withDefault "" Decode.text v "description"
    inputs := ← Decode.withDefault [] fields v "inputs"
    outputs := ← Decode.withDefault [] fields v "outputs"
    params := ← Decode.withDefault [] fields v "params"
    actions := ← Decode.withDefault [] (Decode.listOf Decode.text) v "actions" }

end Interface

end Workflow
