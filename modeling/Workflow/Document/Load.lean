import Workflow.Document.Codec
import Workflow.Document.Schema
import Workflow.Json.Reader
import Workflow.Yaml.Reader
import Workflow.Fault

/-! Loading documents: a raw value must pass the schema, be readable as a document, and keep the rules of identity. -/

namespace Workflow.Document

def checkIdentity (d : Document) : Except Fault Unit :=
  if d.identityBreaches.isEmpty then .ok () else .error (.malformed d.identityBreaches)

def ofValue (v : Json) : Except Fault Document := do
  let violations := Schema.violations v
  if violations.isEmpty then
    match ofJson? v with
    | none => .error (.jsonSyntax "not a workflow document")
    | some d =>
      d.checkIdentity
      .ok d
  else .error (.malformed (violations.map Schema.Violation.message))

def ofJsonText (text : String) : Except Fault Document :=
  match Json.read? text with
  | none => .error (.jsonSyntax "not a single well-formed value")
  | some v => ofValue v

def ofYamlText (text : String) : Except Fault Document :=
  match Yaml.read? text with
  | none => .error (.yamlSyntax "not a single well-formed document")
  | some v => ofValue v

end Workflow.Document
