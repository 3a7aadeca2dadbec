import Workflow.Json.Reader
import Workflow.Path

/-! Following a path into a value. A dict is entered by field name or by the digits of an index, a list by an index or
by digits written as a field. A text that holds a Json list or dict is entered as that list or dict. -/

namespace Workflow

/-- Why a path could not be followed: the position of the first segment that does not apply, and what the value
it was applied to looks like. -/
structure Obstacle where
  position : Nat
  parentType : String
  availableKeys : List String
  listLength : Option Nat
  deriving DecidableEq, Repr

namespace Json

/-- The list or dict that a text holds. -/
def ofContainerText? (text : String) : Option Json :=
  match Text.trimChars text.toList with
  | '\x7b' :: rest => readChars ('\x7b' :: rest)
  | '[' :: rest => readChars ('[' :: rest)
  | _ => none

/-- The child of a list or dict. -/
def child? : Json → Segment → Option Json
  | .obj fields, .field name => Assoc.get? fields name
  | .obj fields, .index n => Assoc.get? fields (Text.ofNat n)
  | .arr items, .index n => items[n]?
  | .arr items, .field name => (Text.word? name.toList).bind (items[·]?)
  | _, _ => none

def step? (v : Json) (segment : Segment) : Option Json :=
  match v with
  | .str text => (ofContainerText? text).bind (·.child? segment)
  | v => v.child? segment

def obstacle (v : Json) : Obstacle where
  position := 0
  parentType := v.typeName
  availableKeys := (v.asObject?.map Assoc.keys).getD []
  listLength := v.asArray?.map List.length

end Json

def Obstacle.later (o : Obstacle) : Obstacle := { o with position := o.position + 1 }

def Json.traverse (v : Json) : Path → Except Obstacle Json
  | [] => .ok v
  | segment :: rest =>
    match v.step? segment with
    | none => .error v.obstacle
    | some w => (w.traverse rest).mapError Obstacle.later

end Workflow
