import Workflow.Json.Basic
import Workflow.Text.Basic

/-! Declared types of inputs, outputs and parameters: a set of atoms, written with bars between them. Names that are not
known stand for `any`. The members of a type are kept in one fixed order and without repetition, so two declarations
of the same set are the same type. -/

namespace Workflow

inductive Atom where
  | str | int | float | bool | dict | list | any
  deriving DecidableEq, Repr

namespace Atom

def all : List Atom := [.str, .int, .float, .bool, .dict, .list, .any]

def name : Atom → String
  | .str => "str"
  | .int => "int"
  | .float => "float"
  | .bool => "bool"
  | .dict => "dict"
  | .list => "list"
  | .any => "any"

/-- The atom a name stands for; letter case does not matter. -/
def ofName (name : String) : Atom :=
  match Text.asciiLower name with
  | "str" | "string" | "text" => .str
  | "int" | "integer" => .int
  | "float" | "number" => .float
  | "bool" | "boolean" => .bool
  | "dict" | "object" | "map" => .dict
  | "list" | "array" => .list
  | _ => .any

/-- Whether a value has the type. An integer is also a float. -/
def accepts : Atom → Json → Bool
  | .any, _ => true
  | .str, .str _ => true
  | .int, .int _ => true
  | .float, .int _ | .float, .float _ => true
  | .bool, .bool _ => true
  | .dict, .obj _ => true
  | .list, .arr _ => true
  | _, _ => false

end Atom

structure SemanticType where
  members : List Atom
  deriving DecidableEq, Repr

/-- Whether a path may go below a value of some type. -/
inductive NestedAccess where
  | allowed
  /-- Only `any` permits it. -/
  | ambiguous
  | rejected
  deriving DecidableEq, Repr

/-- How a value misses a declared type. -/
structure TypeViolation where
  expected : String
  actual : String
  hint : String
  deriving DecidableEq, Repr

namespace SemanticType

def any : SemanticType := ⟨[.any]⟩

instance : Inhabited SemanticType := ⟨any⟩

/-- The type whose members are the given atoms. -/
def ofAtoms (atoms : List Atom) : SemanticType := ⟨Atom.all.filter atoms.contains⟩

def parse (declared : String) : SemanticType :=
  ofAtoms ((Text.splitOn '|' declared.toList).map fun part => Atom.ofName (Text.trim (String.ofList part)))

def display (t : SemanticType) : String := Text.join "|" (t.members.map Atom.name)

def isAny (t : SemanticType) : Bool := t.members = [.any]

def supportsNested (t : SemanticType) : Bool := t.members.contains .dict

def supportsIndex (t : SemanticType) : Bool := t.members.contains .list

/-- Whether a path may go below a value of this type, by an index or by a field name. -/
def nestedAccess (t : SemanticType) (byIndex : Bool) : NestedAccess :=
  if (if byIndex then t.supportsIndex else t.supportsNested) then .allowed
  else if t.members.contains .any then .ambiguous
  else .rejected

def accepts (t : SemanticType) (v : Json) : Bool := t.members.any (·.accepts v)

/-- Checks a value that fills a parameter; the hint depends on what stands where a text is wanted. -/
def check (declared : SemanticType) (v : Json) : Except TypeViolation Unit :=
  if declared.accepts v then .ok ()
  else
    let wanted := declared.display
    let found := v.typeName
    let hint :=
      match declared.members, v with
      | [.str], .obj fields => "Reference a string field instead, e.g. one of: " ++ Text.join ", " (Assoc.keys fields)
      | [.str], .arr items =>
        let size := items.length
        s!"The value is a list of {size} item(s); index it with [0] or join it upstream"
      | _, _ => s!"Expected {wanted}, got {found}"
    .error ⟨wanted, found, hint⟩

end SemanticType

end Workflow
