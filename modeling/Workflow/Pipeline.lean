import Workflow.Registry
import Workflow.Template.Resolve

/-! One step as nested layers around a unit. From the outside in: the instrumented layer keeps the journal, the
batch layer runs the rest once for each item, the namespace layer stores output under the id of the step, the
template layer resolves parameters, and the leaf takes the unit through its life. The batch and template layers are
there only when the step needs them. -/

namespace Workflow

/-- Why a step failed in a way that concerns only the step. -/
structure StepFailure where
  stepId : String
  message : String
  category : Category
  details : Option Json
  deriving DecidableEq

inductive StepOutcome where
  | completed (values : Fields) (action : String)
  /-- Followed by the error edge of the step, if it has one. -/
  | failed (failure : StepFailure)
  /-- Ends the whole run. -/
  | aborted (fault : Fault)
  deriving DecidableEq

/-- One call of a step. Bound values come before context data when references are looked up. -/
structure Call where
  context : Context
  params : Fields
  bindings : Fields
  mode : Mode

abbrev Layer := Call → StepOutcome × Context

namespace Call

def scope (c : Call) : Scope := ⟨c.bindings, c.context.data⟩

end Call

/-! ### Leaf -/

namespace StepOutcome

def ofUnitFault (stepId : String) : UnitFault → StepOutcome
  | .fatal fault => .aborted fault
  | fault => .failed ⟨stepId, fault.message, .execution, fault.details?⟩

end StepOutcome

/-- Takes a unit through its life. Resolved parameters come over the literal ones. -/
def leafLayer (stepId : String) (unit : LeafUnit) (literals : Fields) : Layer := fun call =>
  let fault (f : UnitFault) := StepOutcome.ofUnitFault stepId f
  match unit.prepare (Assoc.putAll literals call.params) call.context with
  | .error f => (fault f, call.context)
  | .ok prepared =>
    match unit.attempt prepared with
    | .error f => (fault f, call.context)
    | .ok executed =>
      match unit.finalize call.context prepared executed with
      | (context, .error f) => (fault f, context)
      | (context, .ok output) => (.completed output.values (output.action.getD defaultAction), context)

/-! ### Templates -/

/-- The missing references of a parameter, each placeholder once. -/
def missingPlaceholders (missing : List Unresolved) : List String :=
  (missing.map fun u => u.reference.placeholder).eraseDups

def joinedHints (missing : List Unresolved) : String := Text.join "; " (missing.map Unresolved.hint)

/-- What is wrong with a resolved parameter: references that found nothing, or, if the parameter is one reference
and its type is declared, a value of another type. -/
def paramIssue? (stepId : String) (declared : Assoc SemanticType) (key : String) (raw : Json) (r : Resolved) :
    Option Fault :=
  match r.unresolved with
  | first :: _ =>
    some (.unresolvedTemplate stepId key first.source (missingPlaceholders r.unresolved) (joinedHints r.unresolved))
  | [] =>
    match raw, Assoc.get? declared key with
    | .str text, some type =>
      if (Template.simpleReference text).isNone then none
      else
        match type.check r.value with
        | .ok _ => none
        | .error v => some (.typeMismatch stepId key text v.expected v.actual v.hint)
    | _, _ => none

/-- Resolves every templated parameter. Problems are settled in order of the parameters; the call that is left has the
resolved values among its parameters. -/
def resolveParams (stepId : String) (templated : Fields) (declared : Assoc SemanticType) (depth : Nat) (call : Call) :
    Except Fault Call :=
  let resolved := templated.map fun e => (e.1, e.2, call.scope.resolve depth e.2)
  let issues := resolved.filterMap fun e => paramIssue? stepId declared e.1 e.2.1 e.2.2
  let params := resolved.map fun e => (e.1, e.2.2.value)
  (issues.foldlM (fun warnings issue => call.mode.settle issue warnings) call.context.journal.warnings).map
    fun warnings =>
      { call with context := call.context.setWarnings warnings, params := Assoc.putAll call.params params }

/-- Resolves the templated parameters before the inner layer runs. -/
def templateLayer (stepId : String) (templated : Fields) (declared : Assoc SemanticType) (depth : Nat)
    (inner : Layer) : Layer := fun call =>
  match resolveParams stepId templated declared depth call with
  | .error fault => (.aborted fault, call.context)
  | .ok call => inner call

/-! ### Namespace -/

def errorValue (message : String) : Json := .obj [("error", .str message)]

theorem errorValue_eq (message : String) : errorValue message = .obj [("error", .str message)] := rfl

/-- Stores what the inner layer gives: output under the id and at the top, a failure as its message under the id. -/
def namespaceLayer (stepId : String) (inner : Layer) : Layer := fun call =>
  match inner call with
  | (.completed values action, context) => (.completed values action, context.commit stepId values)
  | (.failed failure, context) => (.failed failure, context.insert stepId (errorValue failure.message))
  | (.aborted fault, context) => (.aborted fault, context)

/-! ### Batch -/

/-- Whether an item that comes to this is the last of its batch. -/
def StepOutcome.stops (policy : BatchPolicy) : StepOutcome → Bool
  | .completed .. => false
  | .failed _ => policy = .failFast
  | .aborted _ => true

/-- What one item of a batch came to, with the warnings it left. -/
structure ItemRun where
  item : Json
  outcome : StepOutcome
  warnings : List Warning

namespace ItemRun

/-- Whether the batch ends with this item. -/
def stops (r : ItemRun) (policy : BatchPolicy) : Bool := r.outcome.stops policy

/-- The output values of an item; null if it failed. -/
def result (r : ItemRun) : Json :=
  match r.outcome with
  | .completed values _ => .obj values
  | _ => .null

def failure? (r : ItemRun) : Option StepFailure :=
  match r.outcome with
  | .failed failure => some failure
  | _ => none

end ItemRun

/-- Runs items in order up to the first that stops the batch. -/
def runItems (run : Json → ItemRun) (policy : BatchPolicy) : List Json → List ItemRun
  | [] => []
  | item :: rest =>
    let r := run item
    if r.stops policy then [r] else r :: runItems run policy rest

/-- The call for one item: on a scratch copy of the context, with the item bound under its name. -/
def itemCall (itemName : String) (call : Call) (item : Json) : Call :=
  { call with context := call.context.scratch, params := [], bindings := Assoc.put itemName item call.bindings }

def runItem (inner : Layer) (itemName : String) (call : Call) (item : Json) : ItemRun :=
  let (outcome, context) := inner (itemCall itemName call item)
  ⟨item, outcome, context.journal.warnings⟩

def describeFailure (index : Nat) (item : Json) (failure : StepFailure) : Json :=
  .obj [("index", .nat index), ("item", item), ("error", .str failure.message)]

theorem describeFailure_eq (index : Nat) (item : Json) (failure : StepFailure) :
    describeFailure index item failure =
      .obj [("index", .nat index), ("item", item), ("error", .str failure.message)] := rfl

/-- Descriptions of the items that failed, in order. -/
def failedItems (runs : List ItemRun) : List Json :=
  runs.zipIdx.filterMap fun (r, index) => r.failure?.map (describeFailure index r.item)

/-- The output of a batch that ran to its end. -/
def batchValues (runs : List ItemRun) (maxErrors : Nat) : Fields :=
  let count := runs.length
  let errors := failedItems runs
  let truncated := errors.length - maxErrors
  [("results", .arr (runs.map ItemRun.result)), ("count", .nat count),
    ("success_count", .nat (count - errors.length)), ("error_count", .nat errors.length),
    ("errors", .arr (errors.take maxErrors))] ++
  if 0 < truncated then [("errors_truncated", .nat truncated)] else []

/-- The failure of a batch that the item at an index has ended. -/
def batchFailure (stepId : String) (index : Nat) (item : Json) (failure : StepFailure) : StepFailure where
  stepId := stepId
  message := s!"Batch item {index} failed: " ++ failure.message
  category := .batch
  details := some (.obj [("index", .nat index), ("item", item)])

def batchWarning (stepId : String) (failed count : Nat) : Warning where
  stepId := stepId
  message := s!"Batch: {failed} of {count} items failed"
  category := .batch

theorem batchWarning_eq (stepId : String) (failed count : Nat) :
    batchWarning stepId failed count =
      ⟨stepId, s!"Batch: {failed} of {count} items failed", .batch, none, none⟩ := rfl

/-- The list a batch runs over: a list, or a text that holds one. -/
def listOfItems : Json → Except String (List Json)
  | .arr items => .ok items
  | .str text =>
    match Json.readChars (Text.trimChars text.toList) with
    | some (.arr items) => .ok items
    | _ => .error "str"
  | v => .error v.typeName

/-- Resolves the items of a batch. If a problem is let pass, the batch runs over no items. -/
def resolveItems (stepId : String) (batch : Batch) (call : Call) : Except Fault (List Json × List Warning) :=
  let warnings := call.context.journal.warnings
  let settle (issue : Fault) := (call.mode.settle issue warnings).map fun warnings => ([], warnings)
  let resolved := call.scope.resolveText batch.items
  if resolved.isComplete then
    match listOfItems resolved.value with
    | .ok items => .ok (items, warnings)
    | .error actual => settle (.invalidBatchItems stepId batch.items actual)
  else
    settle (.unresolvedTemplate stepId "batch.items" batch.items
      (resolved.unresolved.map fun u => u.reference.placeholder) (joinedHints resolved.unresolved))

/-- Runs the inner layer once for each item. Items see only scratch copies of the context, so nothing but their
warnings and the collected output reaches the caller. -/
def batchLayer (stepId : String) (batch : Batch) (maxErrors : Nat) (inner : Layer) : Layer := fun call =>
  match resolveItems stepId batch call with
  | .error fault => (.aborted fault, call.context)
  | .ok (items, warnings) =>
    let runs := runItems (runItem inner batch.itemName call) batch.onError items
    let context := (call.context.setWarnings warnings).warn (runs.flatMap ItemRun.warnings)
    match runs.getLast?.filter (·.stops batch.onError) with
    | some ⟨item, .failed failure, _⟩ =>
      let failure := batchFailure stepId (runs.length - 1) item failure
      (.failed failure, context.insert stepId (errorValue failure.message))
    | some ⟨_, .aborted fault, _⟩ => (.aborted fault, context)
    | _ =>
      let values := batchValues runs maxErrors
      let failed := (failedItems runs).length
      let context := if 0 < failed then context.warn [batchWarning stepId failed runs.length] else context
      (.completed values defaultAction, context.commit stepId values)

/-! ### Journal -/

/-- Keeps the journal: every call is timed, and a completed one is recorded with whether it gave any output. The
time itself is not measured here and stands as zero. -/
def instrumentedLayer (stepId : String) (inner : Layer) : Layer := fun call =>
  match inner call with
  | (outcome, context) =>
    let journal := context.journal.recordTiming stepId 0
    let journal :=
      match outcome with
      | .completed values _ => journal.recordCompletion stepId (!values.isEmpty)
      | _ => journal
    (outcome, { context with journal := journal })

/-! ### The whole step -/

/-- A step made ready to run. Parameters without references are literals, the others templated. -/
structure Pipeline where
  site : Site
  implementation : Implementation
  literals : Fields
  templated : Fields
  declared : Assoc SemanticType
  batch : Option Batch

namespace Pipeline

def stepId (p : Pipeline) : String := p.site.stepId

/-- The names of the layers, outermost first. -/
def layers (p : Pipeline) : List String :=
  ["instrumented"] ++ (if p.batch.isSome then ["batch"] else []) ++ ["namespacer"] ++
    (if p.templated.isEmpty then [] else ["template"]) ++ ["leaf"]

/-- Template layer and leaf. -/
def core (p : Pipeline) (unit : LeafUnit) : Layer :=
  let leaf := leafLayer p.stepId unit p.literals
  if p.templated.isEmpty then leaf
  else templateLayer p.stepId p.templated p.declared p.site.limits.maxTemplateDepth leaf

/-- The layers below the journal. -/
def body (p : Pipeline) (unit : LeafUnit) : Layer :=
  let single := namespaceLayer p.stepId (p.core unit)
  match p.batch with
  | none => single
  | some batch => batchLayer p.stepId batch p.site.limits.maxBatchErrors single

def layer (p : Pipeline) (unit : LeafUnit) : Layer := instrumentedLayer p.stepId (p.body unit)

/-- Runs the step once with the given unit. -/
def run (p : Pipeline) (unit : LeafUnit) (context : Context) (bindings : Fields) (mode : Mode) :
    StepOutcome × Context :=
  p.layer unit ⟨context, [], bindings, mode⟩

end Pipeline

end Workflow
