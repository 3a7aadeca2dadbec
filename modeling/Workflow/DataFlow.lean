import Workflow.Document.Basic
import Workflow.Template.Token
import Workflow.Graph
import Workflow.Similar

/-! What can be known of a document before it runs: at most one input reads standard input, edges form no cycle, and
every reference names an input, an external name or a step that runs strictly earlier. Steps that no path reaches
are warned about. -/

namespace Workflow

inductive Diagnostic where
  | cycle (path : List String)
  | forwardReference (stepId placeholder target : String)
  | undefinedReference (stepId placeholder name : String) (suggestions : List String)
  | multipleStdin (inputs : List String)
  | unreachable (stepId start : String)
  deriving DecidableEq, Repr

namespace Diagnostic

def isError : Diagnostic → Bool
  | .unreachable .. => false
  | _ => true

def stepId? : Diagnostic → Option String
  | .forwardReference stepId .. | .undefinedReference stepId .. | .unreachable stepId _ => some stepId
  | _ => none

def message : Diagnostic → String
  | .cycle path => "Cycle detected: " ++ Text.join " → " path
  | .forwardReference stepId placeholder target =>
    s!"Node '{stepId}' references '{placeholder}' but '{target}' does not run before it"
  | .undefinedReference stepId placeholder name _ =>
    s!"Node '{stepId}' references undefined '{name}' in '{placeholder}'"
  | .multipleStdin inputs => "Only one input may read stdin, found: " ++ Text.join ", " inputs
  | .unreachable stepId start => s!"Node '{stepId}' is not reachable from start node '{start}' and will never run"

def suggestion : Diagnostic → String
  | .cycle _ => "Remove an edge from the cycle; express iteration with batch instead"
  | .forwardReference stepId _ target =>
    s!"Add an edge from '{target}' to '{stepId}' so it runs first, or reference an earlier step"
  | .undefinedReference _ _ name suggestions =>
    if suggestions.isEmpty then s!"Declare '{name}' under inputs or pass it as a parameter"
    else "Did you mean: " ++ Text.join ", " suggestions ++ "?"
  | .multipleStdin _ => "Mark exactly one input with stdin: true"
  | .unreachable stepId _ => s!"Add an edge leading to '{stepId}'"

end Diagnostic

namespace Document

def graph (d : Document) : Graph := .ofEdges d.stepIds (d.edges.map fun e => (e.source, e.target))

/-- The start step that data flow assumes. -/
def assumedStart? (d : Document) : Option String := d.start.or d.stepIds.head?

end Document

namespace DataFlow

/-- The names references may begin with. The order of steps is known unless edges form a cycle. -/
structure Names where
  inputs : List String
  external : List String
  steps : List String
  order : Option (List String)
  itemNames : List String

def Names.ofDocument (d : Document) (order : Option (List String)) (external : List String) : Names where
  inputs := Assoc.keys d.inputs
  external := external
  steps := d.stepIds
  order := order
  itemNames := d.steps.filterMap fun step => step.batch.map Batch.itemName

namespace Names

def candidates (names : Names) : List String :=
  ((names.inputs ++ names.external ++ names.steps).mergeSort fun a b => decide (a ≤ b)).eraseDups

def isGiven (names : Names) (base : String) : Bool := names.inputs.contains base || names.external.contains base

/-- Whether a step is placed before another; an unknown place counts as earlier. -/
def runsBefore (order : List String) (target current : String) : Bool :=
  match order.idxOf? target, order.idxOf? current with
  | some t, some c => t < c
  | _, _ => true

def undefined (names : Names) (place : String) (r : Reference) : Diagnostic :=
  let similar := Similar.find r.base names.candidates 3
  let base := r.base
  let suggestions :=
    if names.itemNames.contains base && similar.isEmpty then
      [s!"'{base}' is a batch alias and only exists inside its own batch step"]
    else similar
  .undefinedReference place r.placeholder base suggestions

/-- What is wrong with a reference of a step, where `itemName` is the item name in scope. -/
def checkReference (names : Names) (stepId : String) (itemName : Option String) (r : Reference) : Option Diagnostic :=
  if itemName = some r.base || names.isGiven r.base then none
  else if names.steps.contains r.base then
    match names.order with
    | none => none
    | some order =>
      if runsBefore order r.base stepId then none else some (.forwardReference stepId r.placeholder r.base)
  else some (names.undefined stepId r)

/-- The parameters of a step see its item name; the text its items come from does not. -/
def checkStep (names : Names) (step : Step) : List Diagnostic :=
  let inParams := (Template.extractRefs (.obj step.params)).filterMap
    (names.checkReference step.id (step.batch.map Batch.itemName))
  let inItems :=
    match step.batch with
    | none => []
    | some batch => (Template.extractRefs (.str batch.items)).filterMap (names.checkReference step.id none)
  inParams ++ inItems

def checkOutput (names : Names) (name : String) (spec : OutputSpec) : List Diagnostic :=
  match spec.source with
  | none => []
  | some source =>
    (Template.extractRefs (.str source)).filterMap fun r =>
      if names.isGiven r.base || names.steps.contains r.base then none
      else some (names.undefined ("outputs." ++ name) r)

end Names

def checkReferences (d : Document) (order : Option (List String)) (external : List String) : List Diagnostic :=
  let names := Names.ofDocument d order external
  d.steps.flatMap names.checkStep ++ d.outputs.flatMap fun (name, spec) => names.checkOutput name spec

def checkStdin (d : Document) : List Diagnostic :=
  let readers := Assoc.keys (d.inputs.filter fun e => e.2.stdin)
  if 1 < readers.length then [.multipleStdin readers] else []

def checkReachability (d : Document) : List Diagnostic :=
  match d.assumedStart? with
  | none => []
  | some start => (d.graph.unreachableFrom start).map fun id => .unreachable id start

/-- Every finding about a document; `external` names what references may use although the document does not
declare it. -/
def validate (d : Document) (external : List String) : List Diagnostic :=
  let order := d.graph.order
  let cycles :=
    match order with
    | .ok _ => []
    | .error cycles => cycles.map .cycle
  checkStdin d ++ cycles ++ checkReferences d order.toOption external ++ checkReachability d

end DataFlow

end Workflow
