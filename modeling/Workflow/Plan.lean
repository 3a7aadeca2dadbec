import Workflow.Pipeline
import Workflow.Document.Load

/-! Plans: documents made ready to run. Building one goes through the phases parsing, validation, node resolution,
flow wiring and start detection; the first problem ends it, except that problems with references to declared outputs
are settled by the mode. Parameters without references become literals of the leaf, the others are left to the
template layer. -/

namespace Workflow

structure PlanOptions where
  /-- Overrides the mode of the document. -/
  mode : Option Mode := none
  limits : Limits := .standard
  baseDir : Option String := none
  /-- The name of the workflow on the call stack; the name of the document if absent. -/
  identity : Option String := none
  /-- Names that references may use although the document does not declare them. -/
  external : List String := []

/-- The targets of a step by action. -/
abbrev Exits := Assoc String

structure Plan where
  identity : String
  stepIds : List String
  pipelines : Assoc Pipeline
  exits : Assoc Exits
  start : String
  inputs : Assoc InputSpec
  outputs : Assoc OutputSpec
  mode : Mode
  limits : Limits
  /-- Reference problems that were let pass and accesses that could not be checked; every run begins with them. -/
  warnings : List Warning
  /-- Findings about the graph, for information only. -/
  diagnostics : List Warning

namespace Plan

def pipeline? (p : Plan) (stepId : String) : Option Pipeline := Assoc.get? p.pipelines stepId

/-- The target of the edge that leaves a step under an action. -/
def successor? (p : Plan) (stepId action : String) : Option String :=
  (Assoc.get? p.exits stepId).bind fun exits => Assoc.get? exits action

def hasSuccessors (p : Plan) (stepId : String) : Bool :=
  ((Assoc.get? p.exits stepId).map fun exits => !exits.isEmpty).getD false

/-! ### Validation -/

/-- A document as data flow sees it: verbatim parameters are left out, since their references belong to another
document. -/
def view (registry : Registry) (d : Document) : Document :=
  let visible (step : Step) (key : String) : Bool :=
    !((registry.interface? step.kind).map fun i => i.isVerbatim key).getD false
  { d with steps := d.steps.map fun step => { step with params := step.params.filter fun e => visible step e.1 } }

def graphWarning (finding : Diagnostic) : Warning where
  stepId := finding.stepId?
  message := finding.message
  category := .graph

def validate (seen : Document) (external : List String) : Except Fault (List Warning) :=
  let (errors, soft) := (DataFlow.validate seen external).partition Diagnostic.isError
  if errors.isEmpty then .ok (soft.map graphWarning) else .error (.dataFlow errors)

/-! ### Node resolution -/

def unknownKind (registry : Registry) (step : Step) : Fault :=
  let similar := registry.similar step.kind 3
  let kind := step.kind
  let id := step.id
  .plan {
    phase := .nodeResolution
    text := s!"Unknown node type '{kind}' for node '{id}'"
    stepId := id
    kind := kind
    suggestion :=
      if similar.isEmpty then "Available types: " ++ Text.join ", " registry.kinds
      else "Did you mean: " ++ Text.join ", " similar ++ "?" }

def resolveKind (registry : Registry) (step : Step) : Except Fault (Step × RegistryEntry) :=
  match Assoc.get? registry step.kind with
  | none => .error (unknownKind registry step)
  | some entry => .ok (step, entry)

inductive AccessCheck where
  | clean
  | ambiguous (warning : Warning)
  | issue (fault : Fault)

/-- Judges a reference to the output of a step whose interface declares outputs. -/
def checkAccess (stepId : String) (r : Reference) (source : Interface) : AccessCheck :=
  let base := r.base
  match r.path with
  | .field key :: rest =>
    match source.output? key with
    | none =>
      let declared := Text.join ", " (source.outputs.map InterfaceField.key)
      .issue (.undeclaredOutput stepId r.placeholder base key s!"Declared outputs of '{base}': {declared}")
    | some output =>
      match rest with
      | [] => .clean
      | first :: _ =>
        let nested := Text.trimStart '.' (Path.render rest)
        let byIndex :=
          match first with
          | .index _ => true
          | .field _ => false
        match output.type.nestedAccess byIndex with
        | .rejected => .issue (.nestedAccess stepId r.placeholder output.type.display nested)
        | .ambiguous => .ambiguous (.ambiguousAccess stepId r.placeholder output.type.display nested)
        | .allowed =>
          match first with
          | .index _ => .clean
          | .field field =>
            if output.members.isEmpty || Assoc.contains output.members field then .clean
            else
              let documented := Text.join ", " (Assoc.keys output.members)
              .issue (.undeclaredOutput stepId r.placeholder base (key ++ "." ++ field)
                s!"Fields documented on '{base}.{key}': {documented}")
  | _ => .clean

/-- Settles what a reference of a step comes to, given the warnings so far. -/
def settleAccess (mode : Mode) (interfaces : Assoc Interface) (stepId : String) (warnings : List Warning)
    (r : Reference) : Except Fault (List Warning) :=
  match Assoc.get? interfaces r.base with
  | none => .ok warnings
  | some source =>
    if source.outputs.isEmpty then .ok warnings
    else
      match checkAccess stepId r source with
      | .clean => .ok warnings
      | .ambiguous warning => .ok (warnings ++ [warning])
      | .issue fault => mode.settle fault warnings

/-- The references of a step: those of its parameters, then those of its batch items. -/
def stepRefs (step : Step) : List Reference :=
  Template.extractRefs (.obj step.params) ++
    ((step.batch.map fun batch => Template.extractRefs (.str batch.items)).getD [])

/-- Checks all references below steps against the declared outputs of those steps. -/
def checkInterfaces (mode : Mode) (interfaces : Assoc Interface) (steps : List Step) : Except Fault (List Warning) :=
  steps.foldlM (fun warnings step => (stepRefs step).foldlM (settleAccess mode interfaces step.id) warnings) []

def pipelineOf (options : PlanOptions) (step : Step) (entry : RegistryEntry) : Pipeline :=
  let interface := entry.interface
  let (templated, literals) := step.params.partition fun e =>
    Template.valueHasTemplate e.2 && !interface.isVerbatim e.1
  { site := ⟨step.id, options.limits, options.baseDir⟩
    implementation := entry.implementation
    literals := literals
    templated := templated
    declared := templated.filterMap fun e => (interface.paramType? e.1).map fun type => (e.1, type)
    batch := step.batch }

/-! ### Flow wiring -/

def unknownEndpoint (ids : List String) (edge : Edge) (endpoint : String) : Fault :=
  let source := edge.source
  let target := edge.target
  .plan {
    phase := .flowWiring
    text := s!"Edge '{source}' -> '{target}' references unknown node '{endpoint}'"
    stepId := endpoint
    kind := none
    suggestion := some ("Available nodes: " ++ Text.join ", " ids) }

def rewiredWarning (edge : Edge) (previous : String) : Warning :=
  let source := edge.source
  let action := edge.action
  let target := edge.target
  { stepId := source
    message :=
      s!"Node '{source}' action '{action}' is wired to both '{previous}' and '{target}'; using '{target}'"
    category := .graph }

/-- The exits wired so far, with a note wherever a later edge took the place of an earlier one. -/
structure Wiring where
  exits : Assoc Exits
  notes : List Warning

def addEdge (ids : List String) (w : Wiring) (edge : Edge) : Except Fault Wiring :=
  match [edge.source, edge.target].find? fun id => !ids.contains id with
  | some endpoint => .error (unknownEndpoint ids edge endpoint)
  | none =>
    let exits := (Assoc.get? w.exits edge.source).getD []
    let notes :=
      match Assoc.get? exits edge.action with
      | none => []
      | some previous => if previous = edge.target then [] else [rewiredWarning edge previous]
    .ok ⟨Assoc.put edge.source (Assoc.put edge.action edge.target exits) w.exits, w.notes ++ notes⟩

def wire (ids : List String) (edges : List Edge) : Except Fault Wiring := edges.foldlM (addEdge ids) ⟨[], []⟩

/-! ### Start detection -/

def unknownStart (ids : List String) (start : String) : Fault :=
  .plan {
    phase := .startDetection
    text := s!"Start node '{start}' is not a declared node"
    stepId := start
    kind := none
    suggestion := some ("Use one of: " ++ Text.join ", " ids) }

def noSteps : Fault :=
  .plan {
    phase := .startDetection
    text := "Workflow has no nodes"
    stepId := none
    kind := none
    suggestion := some "Declare at least one node" }

def detectStart (d : Document) : Except Fault String :=
  match d.start with
  | some start => if d.stepIds.contains start then .ok start else .error (unknownStart d.stepIds start)
  | none =>
    match d.stepIds with
    | [] => .error noSteps
    | first :: _ => .ok first

/-- Builds the plan of a document. -/
def build (registry : Registry) (options : PlanOptions) (d : Document) : Except Fault Plan := do
  let mode := options.mode.getD d.mode
  d.checkIdentity
  let seen := view registry d
  let unreachable ← validate seen options.external
  let resolved ← d.steps.mapM (resolveKind registry)
  let interfaces := resolved.map fun (step, entry) => (step.id, entry.interface)
  let warnings ← checkInterfaces mode interfaces seen.steps
  let wiring ← wire d.stepIds d.edges
  let start ← detectStart d
  .ok {
    identity := options.identity.getD d.displayName
    stepIds := d.stepIds
    pipelines := resolved.map fun (step, entry) => (step.id, pipelineOf options step entry)
    exits := wiring.exits
    start := start
    inputs := d.inputs
    outputs := d.outputs
    mode := mode
    limits := options.limits
    warnings := warnings
    diagnostics := unreachable ++ wiring.notes }

end Plan

end Workflow
