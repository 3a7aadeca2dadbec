import Workflow.Plan

/-! Running a plan: inputs are bound, then steps are walked one at a time from the start. A completed step is
followed by the edge for its action, a failed one by its error edge; without such an edge the walk ends. Declared
outputs are resolved when the walk has ended without failure. The report keeps every step that was taken with what
it came to. -/

namespace Workflow

/-- Makes the unit of a step from its implementation. -/
abbrev UnitMaker := Implementation → Site → LeafUnit

/-- The inputs that neither the parameters nor a default provide, although they are required. -/
def missingInputs (inputs : Assoc InputSpec) (params : Fields) : List String :=
  (inputs.filter fun e => !Assoc.contains params e.1 && e.2.default.isNone && e.2.required).map Prod.fst

/-- Adds the default of every input that is not given. -/
def addDefaults (inputs : Assoc InputSpec) (params : Fields) : Fields :=
  inputs.foldl (fun bound e =>
    if Assoc.contains bound e.1 then bound
    else
      match e.2.default with
      | none => bound
      | some v => Assoc.put e.1 v bound) params

/-- The values that a run starts from. Parameters that are not declared pass through. -/
def bindInputs (inputs : Assoc InputSpec) (params : Fields) : Except Fault Fields :=
  let missing := missingInputs inputs params
  if missing.isEmpty then .ok (addDefaults inputs params) else .error (.missingInputs missing)

/-- A step that was taken, with the context before and after it. -/
structure Visit where
  stepId : String
  before : Context
  outcome : StepOutcome
  after : Context

inductive WalkEnd where
  | finished
  | failed (failure : Failure)
  | aborted (fault : Fault)

structure Walk where
  visits : List Visit
  ending : WalkEnd
  context : Context

namespace Walk

def after (w : Walk) (visit : Visit) : Walk := { w with visits := visit :: w.visits }

@[simp] theorem after_visits (w : Walk) (v : Visit) : (w.after v).visits = v :: w.visits := rfl

@[simp] theorem after_ending (w : Walk) (v : Visit) : (w.after v).ending = w.ending := rfl

end Walk

def containedFailure (f : StepFailure) : Failure :=
  ⟨f.stepId, f.message, f.category, some "execution", none⟩

def routedWarning (f : StepFailure) : Warning := { stepId := f.stepId, message := f.message, category := f.category }

/-- Takes a step. -/
def visit (units : UnitMaker) (plan : Plan) (bindings : Fields) (stepId : String) (pipeline : Pipeline)
    (context : Context) : Visit :=
  let (outcome, after) := pipeline.run (units pipeline.implementation pipeline.site) context bindings plan.mode
  ⟨stepId, context, outcome, after⟩

/-- What a step leads to. -/
inductive Move where
  | stop (ending : WalkEnd)
  | go (stepId : String) (context : Context)

/-- Follows the edge for what the step came to. -/
def Plan.follow (plan : Plan) (visit : Visit) : Move :=
  match visit.outcome with
  | .completed _ action =>
    match plan.successor? visit.stepId action with
    | none => .stop .finished
    | some next => .go next visit.after
  | .failed failure =>
    match plan.successor? visit.stepId errorAction with
    | none => .stop (.failed (containedFailure failure))
    | some handler => .go handler (visit.after.warn [routedWarning failure])
  | .aborted fault => .stop (.aborted fault)

/-- Walks from a step with a budget of steps. -/
def walk (units : UnitMaker) (plan : Plan) (bindings : Fields) : Nat → String → Context → Walk
  | 0, _, context => ⟨[], .aborted (.stepLimitExceeded plan.limits.maxSteps), context⟩
  | budget + 1, stepId, context =>
    match plan.pipeline? stepId with
    | none => ⟨[], .aborted (.execution stepId "step is not part of the compiled graph"), context⟩
    | some pipeline =>
      let taken := visit units plan bindings stepId pipeline context
      match plan.follow taken with
      | .stop ending => ⟨[taken], ending, taken.after⟩
      | .go next context => (walk units plan bindings budget next context).after taken

/-- The template that produces an output; without one it is read under its own name. -/
def outputTemplate (name : String) (spec : OutputSpec) : String := spec.source.getD ("$\x7b" ++ name ++ "\x7d")

def outputWarning (name template : String) (missing : Unresolved) : Warning where
  stepId := none
  message :=
    let hint := missing.hint
    s!"Output '{name}' could not be resolved from '{template}': {hint}"
  category := .resolution

/-- The declared outputs that resolve, and a warning for each that does not. -/
def resolveOutputs (plan : Plan) (scope : Scope) : Fields × List Warning :=
  let resolved := plan.outputs.map fun (name, spec) =>
    let template := outputTemplate name spec
    (name, template, scope.resolveText template)
  let found := resolved.filterMap fun (name, _, r) => if r.isComplete then some (name, r.value) else none
  let missing := resolved.filterMap fun (name, template, r) => r.unresolved.head?.map (outputWarning name template)
  (found, missing)

inductive Status where
  | success
  /-- Ended well, with warnings. -/
  | degraded
  | failed
  deriving DecidableEq, Repr

def Status.name : Status → String
  | .success => "success"
  | .degraded => "degraded"
  | .failed => "failed"

/-- What a run leaves behind. -/
structure Report where
  context : Context
  status : Status
  /-- Contained failures that ended the walk. -/
  errors : List Failure
  /-- The fault that ended the run. -/
  fatal : Option Fault
  outputs : Fields
  diagnostics : List Warning
  visits : List Visit

/-- The context in which the walk begins. -/
def Plan.enter (plan : Plan) (context : Context) (bindings : Fields) : Context :=
  (((context.guardKeys plan.stepIds).guardKeys (Assoc.keys plan.inputs)).insertAll bindings).warn plan.warnings

def Report.failing (plan : Plan) (context : Context) (errors : List Failure) (fatal : Option Fault)
    (visits : List Visit) : Report :=
  ⟨context, .failed, errors, fatal, [], plan.diagnostics, visits⟩

/-- The report of a walk. -/
def Walk.report (w : Walk) (plan : Plan) (bindings : Fields) : Report :=
  match w.ending with
  | .aborted fault => .failing plan w.context [] (some fault) w.visits
  | .failed failure => .failing plan w.context [failure] none w.visits
  | .finished =>
    let (outputs, warnings) := resolveOutputs plan ⟨bindings, w.context.data⟩
    let context := w.context.warn warnings
    let status := if context.journal.warnings.isEmpty then .success else .degraded
    ⟨context, status, [], none, outputs, plan.diagnostics, w.visits⟩

/-- Runs a plan on a context. -/
def Plan.execute (units : UnitMaker) (plan : Plan) (context : Context) (params : Fields) : Report :=
  match bindInputs plan.inputs params with
  | .error fault => .failing plan context [] (some fault) []
  | .ok bindings =>
    (walk units plan bindings plan.limits.maxSteps plan.start (plan.enter context bindings)).report plan bindings

/-- The result of a run as its reader sees it. -/
structure RunResult where
  status : Status
  errors : List Failure
  warnings : List Warning
  diagnostics : List Warning
  outputs : Fields
  shared : Fields

def Report.failures (r : Report) : List Failure := (r.fatal.map Failure.ofFault).toList ++ r.errors

def Report.result (r : Report) : RunResult where
  status := r.status
  errors := r.failures
  warnings := r.context.journal.warnings
  diagnostics := r.diagnostics
  outputs := r.outputs
  shared := r.context.shared

namespace RunResult

/-- The result of a run that never started. -/
def rejected (fault : Fault) : RunResult := ⟨.failed, [.ofFault fault], [], [], [], []⟩

def succeeded (r : RunResult) : Bool := r.status ≠ .failed

/-- The steps that completed, as the exported state lists them. -/
def completed (r : RunResult) : List String :=
  (((Assoc.get? r.shared "__completed_nodes__").bind Json.asArray?).getD []).filterMap Json.asString?

def toJson (r : RunResult) : Json := .present
  [("success", some (.bool r.succeeded)), ("status", some (.str r.status.name)),
    ("errors", some (.arr (r.errors.map Failure.toJson))), ("warnings", some (.arr (r.warnings.map Warning.toJson))),
    ("diagnostics", if r.diagnostics.isEmpty then none else some (.arr (r.diagnostics.map Warning.toJson))),
    ("outputs", some (.obj r.outputs)), ("shared_after", some (.obj r.shared))]

end RunResult

end Workflow
