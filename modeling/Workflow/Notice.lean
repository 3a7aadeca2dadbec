import Workflow.Fault
import Workflow.Document.Codec

/-! What the result of a run tells its reader: warnings that did not stop it and failures that did, both with the step
they are about where one is known. -/

namespace Workflow

structure Warning where
  stepId : Option String
  message : String
  category : Category
  /-- The declared type, when the warning is about a path below an output. -/
  outputType : Option String := none
  nestedPath : Option String := none
  deriving DecidableEq, Repr

structure Failure where
  stepId : Option String
  message : String
  category : Category
  phase : Option String
  fix : Option String
  deriving DecidableEq, Repr

def Json.orNull (text : Option String) : Json := (text.map Json.str).getD .null

def Category.ofJson? (v : Json) : Option Category := v.asString?.bind Category.ofName?

namespace Warning

def ofFault (f : Fault) : Warning :=
  let plain : Warning := { stepId := f.stepId?, message := f.message, category := f.category }
  match f with
  | .nestedAccess _ _ outputType nestedPath => { plain with outputType := outputType, nestedPath := nestedPath }
  | _ => plain

/-- A path that only `any` permits. -/
def ambiguousAccess (stepId placeholder outputType nestedPath : String) : Warning where
  stepId := stepId
  message :=
    s!"'{placeholder}' accesses '{nestedPath}' on output type '{outputType}'; " ++
      "only 'any' permits it, so the path is unchecked"
  category := .resolution
  outputType := outputType
  nestedPath := nestedPath

def toJson (w : Warning) : Json := .present
  [("node_id", some (.orNull w.stepId)), ("message", some (.str w.message)), ("category", some (.str w.category.name)),
    ("output_type", w.outputType.map .str), ("nested_path", w.nestedPath.map .str)]

def ofJson? (v : Json) : Option Warning := do
  some {
    stepId := ← Decode.nullable Decode.text v "node_id"
    message := ← Decode.required Decode.text v "message"
    category := ← Decode.required Category.ofJson? v "category"
    outputType := ← Decode.nullable Decode.text v "output_type"
    nestedPath := ← Decode.nullable Decode.text v "nested_path" }

end Warning

namespace Failure

def ofFault (f : Fault) : Failure where
  stepId := f.stepId?
  message := f.message
  category := f.category
  phase := some f.phase
  fix := f.fix?

def toJson (f : Failure) : Json := .present
  [("node_id", some (.orNull f.stepId)), ("message", some (.str f.message)), ("category", some (.str f.category.name)),
    ("phase", f.phase.map .str), ("fix", f.fix.map .str)]

end Failure

namespace Mode

/-- Settles a problem with a reference: strict mode raises it, permissive mode adds a warning to those so far. -/
def settle (mode : Mode) (issue : Fault) (warnings : List Warning) : Except Fault (List Warning) :=
  match mode with
  | .strict => .error issue
  | .permissive => .ok (warnings ++ [.ofFault issue])

end Mode

end Workflow
