import Workflow.Template.Token
import Workflow.Traverse
import Workflow.Json.Printer
import Workflow.Text.Lowercase

/-! Resolving the references of templates against bound names first and context data second. A text that is exactly one
reference takes on the value referred to, with its type; any other text is rebuilt with each value written into it.
Looked-up values are never scanned again. -/

namespace Workflow

/-- What references are looked up in. -/
structure Scope where
  bindings : Fields
  data : Fields

/-- A reference that found nothing, the text it stood in, and what the scope holds instead. -/
structure Unresolved where
  reference : Reference
  source : String
  hint : String
  deriving DecidableEq, Repr

structure Resolved where
  value : Json
  unresolved : List Unresolved

namespace Resolved

def isComplete (r : Resolved) : Bool := r.unresolved.isEmpty

end Resolved

/-- The text of a value inside a larger text: texts bare, null as nothing, the rest as Json. -/
def Json.embedded : Json → String
  | .str text => text
  | .null => ""
  | v => v.text

namespace Scope

def root? (scope : Scope) (base : String) : Option Json :=
  (Assoc.get? scope.bindings base).or (Assoc.get? scope.data base)

def lookup? (scope : Scope) (r : Reference) : Option Json :=
  (scope.root? r.base).bind fun root => (root.traverse r.path).toOption

/-- The names that may be shown in a hint, in code point order and each once. -/
def visibleNames (scope : Scope) : List String :=
  let names := (Assoc.keys scope.bindings ++ Assoc.keys scope.data).filter fun k => !"__".isPrefixOf k
  (names.mergeSort fun a b => decide (a ≤ b)).eraseDups

/-- Names that contain the given one or are contained in it, whatever the letter case. -/
def alikeNames (scope : Scope) (base : String) : List String :=
  let wanted := Text.lowercase base
  (scope.visibleNames.filter fun k =>
    let k := Text.lowercase k
    Text.contains k wanted || Text.contains wanted k).take 3

def absentHint (scope : Scope) (base : String) : String :=
  let alike := scope.alikeNames base
  let names := scope.visibleNames
  if !alike.isEmpty then
    let list := Text.join ", " alike
    s!"'{base}' is not in the context. Did you mean: {list}?"
  else if names.isEmpty then s!"'{base}' is not in the context, which is empty"
  else
    let list := Text.join ", " names
    s!"'{base}' is not in the context. Available: {list}"

/-- Says what stands at the place where a path could not be followed. -/
def obstacleHint (r : Reference) (o : Obstacle) : String :=
  let parent := r.base ++ Path.render (r.path.take o.position)
  if !o.availableKeys.isEmpty then
    let fields := Text.join ", " o.availableKeys
    s!"Available fields on '{parent}': {fields}"
  else
    match o.listLength with
    | some size => s!"'{parent}' is a list of {size} item(s); index it like " ++ "$\x7b" ++ parent ++ "[0]\x7d"
    | none =>
      let kind := o.parentType
      let missing := Text.trimStart '.' (Path.render ((r.path.drop o.position).take 1))
      s!"'{parent}' is a {kind} and has no field '{missing}'"

/-- Explains a reference from what the scope holds. -/
def hint (scope : Scope) (r : Reference) : String :=
  match scope.root? r.base with
  | none => scope.absentHint r.base
  | some root =>
    match root.traverse r.path with
    | .ok _ =>
      let expr := r.expr
      s!"'{expr}' resolved"
    | .error o => obstacleHint r o

def missing (scope : Scope) (source : String) (r : Reference) : Unresolved := ⟨r, source, scope.hint r⟩

/-- The characters a token contributes; a reference that finds nothing stays as it is written. -/
def tokenText (scope : Scope) : Token → String
  | .literal cs => String.ofList cs
  | .reference r => ((scope.lookup? r).map Json.embedded).getD r.placeholder

/-- The references of a text that find nothing, in order and with repetitions. -/
def missingIn (scope : Scope) (text : String) : List Unresolved :=
  ((Template.textRefs text).filter fun r => (scope.lookup? r).isNone).map (scope.missing text)

def resolveText (scope : Scope) (text : String) : Resolved where
  value :=
    match Template.tokenize text with
    | [.reference r] => (scope.lookup? r).getD (.str text)
    | tokens => .str (String.join (tokens.map scope.tokenText))
  unresolved := scope.missingIn text

mutual

/-- Resolves every text inside a value down to a number of levels; what lies deeper is left as it is. -/
def resolve (scope : Scope) (depth : Nat) : Json → Resolved
  | .str text => scope.resolveText text
  | .arr items =>
    match depth with
    | 0 => ⟨.arr items, []⟩
    | depth + 1 =>
      let (items, unresolved) := resolveItems scope depth items
      ⟨.arr items, unresolved⟩
  | .obj fields =>
    match depth with
    | 0 => ⟨.obj fields, []⟩
    | depth + 1 =>
      let (fields, unresolved) := resolveFields scope depth fields
      ⟨.obj fields, unresolved⟩
  | v => ⟨v, []⟩

def resolveItems (scope : Scope) (depth : Nat) : List Json → List Json × List Unresolved
  | [] => ([], [])
  | v :: rest =>
    let r := resolve scope depth v
    let (items, unresolved) := resolveItems scope depth rest
    (r.value :: items, r.unresolved ++ unresolved)

def resolveFields (scope : Scope) (depth : Nat) : List (String × Json) → List (String × Json) × List Unresolved
  | [] => ([], [])
  | (k, v) :: rest =>
    let r := resolve scope depth v
    let (fields, unresolved) := resolveFields scope depth rest
    ((k, r.value) :: fields, r.unresolved ++ unresolved)

end

end Scope

end Workflow
