import Workflow.Json.Printer
import Workflow.Text.Basic

/-! The shape every workflow document must have, as checks on raw Json. A check names every violation with the place
where it stands. A value of the wrong type yields that violation alone; otherwise missing members come first and
then the members in the order of the schema, not of the document. -/

namespace Workflow.Schema

structure Violation where
  pointer : String
  problem : String
  deriving DecidableEq, Repr

/-- The violation as it is reported; at the root the place is left out. -/
def Violation.message (v : Violation) : String :=
  if v.pointer.isEmpty then v.problem else v.pointer ++ ": " ++ v.problem

abbrev Check := String → Json → List Violation

/-- A key as a step of a Json pointer. -/
def pointerStep (key : String) : String :=
  "/" ++ String.ofList (key.toList.flatMap fun c =>
    if c = '~' then ['~', '0'] else if c = '/' then ['~', '1'] else [c])

def wrongType (type : String) (pointer : String) (v : Json) : List Violation :=
  let shown := v.text
  [⟨pointer, s!"{shown} is not of type \"{type}\""⟩]

/-- A text that passes further rules. -/
def textWith (rules : List (String → Option String)) : Check := fun pointer v =>
  match v with
  | .str text => rules.filterMap fun rule => (rule text).map fun problem => ⟨pointer, v.text ++ problem⟩
  | _ => wrongType "string" pointer v

def anyText : Check := textWith []

def nonEmptyText : Check := textWith [fun text => if text.isEmpty then some " is shorter than 1 character" else none]

def isIdentifier : List Char → Bool
  | [] => false
  | c :: rest =>
    let isStart (c : Char) : Bool := ('A' ≤ c && c ≤ 'Z') || ('a' ≤ c && c ≤ 'z') || c = '_'
    isStart c && rest.all fun c => isStart c || c.isDigit

def identifierText : Check := textWith [fun text =>
  if isIdentifier text.toList then none else some " does not match \"^[A-Za-z_][A-Za-z0-9_]*$\""]

def boolean : Check := fun pointer v =>
  match v with
  | .bool _ => []
  | _ => wrongType "boolean" pointer v

def oneOf (names : List String) : Check := fun pointer v =>
  if names.any (fun name => v = .str name) then []
  else [⟨pointer, v.text ++ " is not one of " ++ (Json.strs names).text⟩]

def listOf (item : Check) : Check := fun pointer v =>
  match v with
  | .arr items => (items.zipIdx.map fun (v, i) => item (pointer ++ "/" ++ Text.ofNat i) v).flatten
  | _ => wrongType "array" pointer v

def mapOf (item : Check) : Check := fun pointer v =>
  match v with
  | .obj fields => fields.flatMap fun (k, v) => item (pointer ++ pointerStep k) v
  | _ => wrongType "object" pointer v

def object (required : List String) (members : List (String × Check)) : Check := fun pointer v =>
  match v with
  | .obj fields =>
    let missing := (required.filter fun k => !Assoc.contains fields k).map fun k =>
      ⟨pointer, (Json.str k).text ++ " is a required property"⟩
    let wrong := members.flatMap fun (k, check) =>
      match Assoc.get? fields k with
      | none => []
      | some v => check (pointer ++ pointerStep k) v
    missing ++ wrong
  | _ => wrongType "object" pointer v

def batch : Check :=
  object ["items"] [("items", anyText), ("as", identifierText), ("error_handling", oneOf ["fail_fast", "continue"])]

def step : Check :=
  object ["id", "type"]
    [("id", nonEmptyText), ("type", nonEmptyText), ("purpose", anyText), ("params", object [] []), ("batch", batch)]

def edge : Check :=
  object ["from", "to"] [("from", nonEmptyText), ("to", nonEmptyText), ("action", nonEmptyText)]

def input : Check :=
  object [] [("type", anyText), ("description", anyText), ("required", boolean), ("stdin", boolean)]

def output : Check := object [] [("type", anyText), ("description", anyText), ("source", anyText)]

def document : Check :=
  object ["nodes"]
    [("ir_version", anyText), ("name", anyText), ("start_node", nonEmptyText),
      ("template_resolution_mode", oneOf ["strict", "permissive"]), ("nodes", listOf step), ("edges", listOf edge),
      ("inputs", mapOf input), ("outputs", mapOf output)]

/-- Every violation of a raw document. -/
def violations (v : Json) : List Violation := document "" v

end Workflow.Schema
