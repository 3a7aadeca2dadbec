import Workflow.Document.Basic

/-! Documents as Json. Writing leaves out what is absent or empty; reading fills in the defaults, ignores unknown
members and fails on a member of the wrong type. -/

namespace Workflow

/-- Members of an object that are present, in order. -/
def Json.present (members : List (String × Option Json)) : Json :=
  .obj (members.filterMap fun (k, v) => v.map fun v => (k, v))

namespace Decode

/-- A member that must be there. -/
def required (read : Json → Option α) (v : Json) (key : String) : Option α := (v.get? key).bind read

/-- A member with a default. -/
def withDefault (default : α) (read : Json → Option α) (v : Json) (key : String) : Option α :=
  match v.get? key with
  | none => some default
  | some v => read v

/-- A member that may be absent or null. -/
def nullable (read : Json → Option α) (v : Json) (key : String) : Option (Option α) :=
  match v.get? key with
  | none | some .null => some none
  | some v => (read v).map some

def text (v : Json) : Option String := v.asString?

/-- One of a set of names: written as a text, or as the only key of a dict, without any content. -/
def variant : Json → Option String
  | .str name => some name
  | .obj [(name, .null)] => some name
  | _ => none

def listOf (read : Json → Option α) (v : Json) : Option (List α) := v.asArray?.bind (List.mapM read)

def mapOf (read : Json → Option α) (v : Json) : Option (Assoc α) :=
  v.asObject?.bind fun fields =>
    (fields.mapM fun (e : String × Json) => (read e.2).map fun w => (e.1, w)).map Assoc.sorted

end Decode

/-- The text of a nonempty description. -/
def describe? (text : String) : Option Json := if text.isEmpty then none else some (.str text)

namespace SemanticType

def toJson (t : SemanticType) : Json := .str t.display

def ofJson? (v : Json) : Option SemanticType := v.asString?.map parse

end SemanticType

namespace BatchPolicy

def name : BatchPolicy → String
  | .failFast => "fail_fast"
  | .carryOn => "continue"

def ofName? : String → Option BatchPolicy
  | "fail_fast" => some .failFast
  | "continue" => some .carryOn
  | _ => none

def ofJson? (v : Json) : Option BatchPolicy := (Decode.variant v).bind ofName?

end BatchPolicy

def Mode.ofJson? (v : Json) : Option Mode := (Decode.variant v).bind Mode.ofName?

namespace Batch

def toJson (b : Batch) : Json :=
  .obj [("items", .str b.items), ("as", .str b.itemName), ("error_handling", .str b.onError.name)]

def ofJson? (v : Json) : Option Batch := do
  some {
    items := ← Decode.required Decode.text v "items"
    itemName := ← Decode.withDefault "item" Decode.text v "as"
    onError := ← Decode.withDefault .failFast BatchPolicy.ofJson? v "error_handling" }

end Batch

namespace Step

def toJson (s : Step) : Json := .present
  [("id", some (.str s.id)), ("type", some (.str s.kind)), ("purpose", s.purpose.map .str),
    ("params", if s.params.isEmpty then none else some (.obj s.params)), ("batch", s.batch.map Batch.toJson)]

def ofJson? (v : Json) : Option Step := do
  some {
    id := ← Decode.required Decode.text v "id"
    kind := ← Decode.required Decode.text v "type"
    purpose := ← Decode.nullable Decode.text v "purpose"
    params := ← Decode.withDefault [] Json.asObject? v "params"
    batch := ← Decode.nullable Batch.ofJson? v "batch" }

end Step

namespace Edge

def toJson (e : Edge) : Json := .present
  [("from", some (.str e.source)), ("to", some (.str e.target)), ("action", e.label.map .str)]

def ofJson? (v : Json) : Option Edge := do
  some {
    source := ← Decode.required Decode.text v "from"
    target := ← Decode.required Decode.text v "to"
    label := ← Decode.nullable Decode.text v "action" }

end Edge

namespace InputSpec

def toJson (s : InputSpec) : Json := .present
  [("type", some s.type.toJson), ("description", describe? s.description), ("required", some (.bool s.required)),
    ("default", s.default), ("stdin", some (.bool s.stdin))]

/-- A default of null is no default. -/
def ofJson? (v : Json) : Option InputSpec := do
  if v.asObject?.isNone then none
  else some {
    type := ← Decode.withDefault .any SemanticType.ofJson? v "type"
    description := ← Decode.withDefault "" Decode.text v "description"
    required := ← Decode.withDefault true Json.asBool? v "required"
    default := ← Decode.nullable some v "default"
    stdin := ← Decode.withDefault false Json.asBool? v "stdin" }

end InputSpec

namespace OutputSpec

def toJson (s : OutputSpec) : Json := .present
  [("type", some s.type.toJson), ("description", describe? s.description), ("source", s.source.map .str)]

def ofJson? (v : Json) : Option OutputSpec := do
  if v.asObject?.isNone then none
  else some {
    type := ← Decode.withDefault .any SemanticType.ofJson? v "type"
    description := ← Decode.withDefault "" Decode.text v "description"
    source := ← Decode.nullable Decode.text v "source" }

end OutputSpec

/-- A map of specifications, left out when it is empty. -/
def specs? (toJson : α → Json) (m : Assoc α) : Option Json :=
  if m.isEmpty then none else some (.obj (m.map fun (k, v) => (k, toJson v)))

namespace Document

def toJson (d : Document) : Json := .present
  [("ir_version", some (.str d.version)), ("name", d.name.map .str), ("start_node", d.start.map .str),
    ("nodes", some (.arr (d.steps.map Step.toJson))), ("edges", some (.arr (d.edges.map Edge.toJson))),
    ("inputs", specs? InputSpec.toJson d.inputs), ("outputs", specs? OutputSpec.toJson d.outputs),
    ("template_resolution_mode", some (.str d.mode.name))]

/-- Reads a document without judging its shape any further. -/
def ofJson? (v : Json) : Option Document := do
  if v.asObject?.isNone then none
  else some {
    version := ← Decode.withDefault "0.1.0" Decode.text v "ir_version"
    name := ← Decode.nullable Decode.text v "name"
    start := ← Decode.nullable Decode.text v "start_node"
    steps := ← Decode.withDefault [] (Decode.listOf Step.ofJson?) v "nodes"
    edges := ← Decode.withDefault [] (Decode.listOf Edge.ofJson?) v "edges"
    inputs := ← Decode.withDefault [] (Decode.mapOf InputSpec.ofJson?) v "inputs"
    outputs := ← Decode.withDefault [] (Decode.mapOf OutputSpec.ofJson?) v "outputs"
    mode := ← Decode.withDefault .strict Mode.ofJson? v "template_resolution_mode" }

end Document

end Workflow
