import Workflow.Files
import Workflow.Run

/-! Steps that run another workflow. Preparing checks the depth limit and the call stack before the child document
is even loaded, and hands over an invocation written as Json; executing reads it back, builds the plan of the child
and runs it one level deeper. A tripped guard ends the run at every level; any other trouble of the child is a
failure of the step. -/

namespace Workflow

/-- How much of the data of the caller a child sees. -/
inductive StorageMode where
  /-- Only the mapped parameters. -/
  | mapped
  /-- Nothing. -/
  | isolated
  /-- The entries under a key prefix, which is cut off. -/
  | scoped
  /-- Everything; the final data of the child takes its place. -/
  | shared
  deriving DecidableEq, Repr

namespace StorageMode

def name : StorageMode → String
  | .mapped => "mapped"
  | .isolated => "isolated"
  | .scoped => "scoped"
  | .shared => "shared"

def ofName? : String → Option StorageMode
  | "mapped" => some .mapped
  | "isolated" => some .isolated
  | "scoped" => some .scoped
  | "shared" => some .shared
  | _ => none

def ofJson? (v : Json) : Option StorageMode := (Decode.variant v).bind ofName?

/-- The data a child starts from. -/
def childData (mode : StorageMode) (caller mapping : Fields) (start : String) : Fields :=
  match mode with
  | .mapped => mapping
  | .isolated => []
  | .scoped => Assoc.ofList (caller.filterMap fun e =>
      ((Text.after? start e.1).filter fun rest => !rest.isEmpty).map fun rest => (rest, e.2))
  | .shared => caller

def childBindings (mode : StorageMode) (mapping : Fields) : Fields :=
  match mode with
  | .isolated => []
  | _ => mapping

end StorageMode

/-- What a prepared step hands to its execution. -/
structure Invocation where
  document : Document
  identity : String
  baseDir : Option String
  frame : CallFrame
  storageMode : StorageMode
  data : Fields
  bindings : Fields
  outputMapping : Fields
  deriving DecidableEq

namespace Invocation

def toJson (i : Invocation) : Json := .obj
  [("ir", i.document.toJson), ("identity", .str i.identity), ("base_dir", .orNull i.baseDir), ("frame", i.frame.toJson),
    ("storage_mode", .str i.storageMode.name), ("data", .obj i.data), ("bindings", .obj i.bindings),
    ("output_mapping", .obj i.outputMapping)]

def ofJson? (v : Json) : Option Invocation := do
  some {
    document := ← Decode.required Document.ofJson? v "ir"
    identity := ← Decode.required Decode.text v "identity"
    baseDir := ← Decode.nullable Decode.text v "base_dir"
    frame := ← Decode.required CallFrame.ofJson? v "frame"
    storageMode := ← Decode.required StorageMode.ofJson? v "storage_mode"
    data := ← Decode.required Json.asObject? v "data"
    bindings := ← Decode.required Json.asObject? v "bindings"
    outputMapping := ← Decode.required Json.asObject? v "output_mapping" }

end Invocation

/-- One run among nested ones: a plan, the context it begins in and the parameters it is given. -/
structure Level where
  plan : Plan
  context : Context
  params : Fields

/-- The level of a run that no other run has started. -/
def Plan.top (plan : Plan) (params : Fields) : Level := ⟨plan, .start [] (.root plan.identity), params⟩

/-- Runs a level with the given units. -/
def Level.run (units : UnitMaker) (level : Level) : Report := level.plan.execute units level.context level.params

namespace Subworkflow

inductive Source where
  | file (path : String)
  | inline (document : Json)

/-- A child document, its identity on the call stack and the directory its own references start from. -/
structure Target where
  source : Source
  identity : String
  baseDir : Option String

def locate (files : FileTree) (site : Site) (params : Fields) : Except UnitFault Target :=
  match Assoc.get? params "workflow_ref", Assoc.get? params "workflow_ir" with
  | some (.str reference), none =>
    let joined :=
      match site.baseDir with
      | some dir => FilePath.join dir reference
      | none => reference
    let path := files.canonical joined
    .ok ⟨.file path, path, FilePath.parent? path⟩
  | none, some (.obj fields) => .ok ⟨.inline (.obj fields), "inline:" ++ site.stepId, site.baseDir⟩
  | some _, some _ => .error (.invalidParams "set either workflow_ref or workflow_ir, not both")
  | none, none => .error (.invalidParams "workflow_ref or workflow_ir is required")
  | _, _ => .error (.invalidParams "workflow_ref must be a path string and workflow_ir an object")

def storageMode (params : Fields) : Except UnitFault StorageMode :=
  match Assoc.get? params "storage_mode" with
  | none => .ok .mapped
  | some v =>
    match StorageMode.ofJson? v with
    | some mode => .ok mode
    | none =>
      .error (.invalidParams ("unknown storage_mode " ++ v.text ++ ", expected mapped, isolated, scoped or shared"))

/-- A step may lower the configured depth limit but never raise it. -/
def depthLimit (site : Site) (params : Fields) : Nat :=
  match (Assoc.get? params "max_depth").bind Json.asNat? with
  | none => site.limits.maxDepth
  | some depth => min depth site.limits.maxDepth

/-- Refuses a child that would lie too deep or is already in progress. -/
def checkGuards (frame : CallFrame) (limit : Nat) (identity : String) : Except UnitFault Unit :=
  if limit ≤ frame.depth then .error (.fatal (.maxDepthExceeded identity (frame.depth + 1) limit))
  else if frame.contains identity then .error (.fatal (.circularWorkflow identity frame.stack))
  else .ok ()

/-- Where a fault belongs, as details of a failed step. -/
def faultDetails (fault : Fault) : Json :=
  .obj [("phase", .str fault.phase), ("category", .str fault.category.name)]

def load (files : FileTree) (target : Target) : Except UnitFault Document :=
  let loaded :=
    match target.source with
    | .file path => files.load path
    | .inline v => Document.ofValue v
  let identity := target.identity
  loaded.mapError fun fault =>
    .failed (s!"Sub-workflow '{identity}' could not be loaded: " ++ fault.message) (faultDetails fault)

def objectParam (params : Fields) (key : String) : Except UnitFault Fields :=
  match Assoc.get? params key with
  | none | some .null => .ok []
  | some (.obj fields) => .ok fields
  | some v =>
    let type := v.typeName
    .error (.invalidParams s!"'{key}' must be a dict, got {type}")

def scopePrefix (site : Site) (params : Fields) : String :=
  ((Assoc.get? params "scope_prefix").bind Json.asString?).getD (site.stepId ++ ".")

def invocation (files : FileTree) (site : Site) (params : Fields) (context : Context) :
    Except UnitFault Invocation := do
  let mode ← storageMode params
  let target ← locate files site params
  checkGuards context.frame (depthLimit site params) target.identity
  let document ← load files target
  let mapping ← objectParam params "param_mapping"
  let outputMapping ← objectParam params "output_mapping"
  .ok {
    document := document
    identity := target.identity
    baseDir := target.baseDir
    frame := context.frame.enter target.identity
    storageMode := mode
    data := mode.childData context.data mapping (scopePrefix site params)
    bindings := mode.childBindings mapping
    outputMapping := outputMapping }

/-- The values a finished child hands back. -/
def childResult (report : Report) : Json :=
  .obj [("data", .obj report.context.data), ("outputs", .obj report.outputs),
    ("warnings", .arr (report.context.journal.warnings.map Warning.toJson))]

/-- What the report of a child means for the step: guards that tripped further down end the run. -/
def judge (identity : String) (report : Report) : Except UnitFault Json :=
  match report.fatal.filter fun fault => fault.category = .recursion with
  | some fault => .error (.fatal fault)
  | none =>
    if report.status = .failed then
      let reason := ((report.failures.head?).map Failure.message).getD "unknown error"
      .error (.failed (s!"Sub-workflow '{identity}' failed: " ++ reason)
        (some (.obj [("errors", .arr (report.failures.map Failure.toJson))])))
    else .ok (childResult report)

def childOptions (limits : Limits) (i : Invocation) : PlanOptions where
  limits := limits
  baseDir := i.baseDir
  identity := i.identity
  external := Assoc.keys i.data ++ Assoc.keys i.bindings

/-- The level that an invocation opens. A document that cannot be built is a failure of the step. -/
def openLevel (registry : Registry) (site : Site) (i : Invocation) : Except UnitFault Level :=
  match Plan.build registry (childOptions site.limits i) i.document with
  | .error fault =>
    let identity := i.identity
    .error (.failed (s!"Sub-workflow '{identity}' failed to compile: " ++ fault.message) (faultDetails fault))
  | .ok plan => .ok ⟨plan, Context.start i.data i.frame, i.bindings⟩

/-- Opens the level of an invocation and runs it as given. -/
def runChild (registry : Registry) (run : Level → Report) (site : Site) (i : Invocation) : Except UnitFault Json :=
  match openLevel registry site i with
  | .error fault => .error fault
  | .ok level => judge i.identity (run level)

def mappingWarning (stepId childKey parentKey : String) : Warning where
  stepId := stepId
  message := s!"Output mapping '{childKey}' -> '{parentKey}' found nothing in the sub-workflow results"
  category := .execution

/-- Reads a key of the mapping as a reference; a key outside the grammar is never looked up. -/
def lookupKey (scope : Scope) (childKey : String) : Option Json :=
  (Template.simpleReference ("$\x7b" ++ childKey ++ "\x7d")).bind scope.lookup?

/-- The mapped values, with a warning for every entry that finds nothing. Entries without a text as target are
passed over. -/
def mapOutputs (stepId : String) (scope : Scope) (mapping : Fields) : Fields × List Warning :=
  let entries := mapping.filterMap fun e => e.2.asString?.map fun parentKey => (e.1, parentKey, lookupKey scope e.1)
  let found := entries.filterMap fun (_, parentKey, v) => v.map fun v => (parentKey, v)
  let missing := entries.filterMap fun (childKey, parentKey, v) =>
    if v.isNone then some (mappingWarning stepId childKey parentKey) else none
  (Assoc.ofList found, missing)

def memberObject (v : Json) (key : String) : Fields := ((v.get? key).bind Json.asObject?).getD []

/-- Takes over what the child hands back. Its declared outputs come before its data. -/
def finish (stepId : String) (context : Context) (prepared executed : Json) : Context × UnitOutput :=
  let data := memberObject executed "data"
  let outputs := memberObject executed "outputs"
  let context := if prepared.get? "storage_mode" = some (.str "shared") then context.replaceData data else context
  let handed := (((executed.get? "warnings").bind Json.asArray?).getD []).filterMap Warning.ofJson?
  let context := context.warn handed
  let mapping := memberObject prepared "output_mapping"
  if mapping.isEmpty then (context, ⟨outputs, none⟩)
  else
    let (values, missing) := mapOutputs stepId ⟨outputs, data⟩ mapping
    (context.warn missing, ⟨values, none⟩)

/-- The unit of a step that runs a workflow, given how to run an invocation. -/
def unit (files : FileTree) (child : Invocation → Except UnitFault Json) (site : Site) : LeafUnit where
  prepare params context := (invocation files site params context).map Invocation.toJson
  execute prepared :=
    match Invocation.ofJson? prepared with
    | none => .error (.failed "invalid sub-workflow invocation" none)
    | some i => child i
  fallback _ fault := .error fault
  finalize context prepared executed :=
    let (context, output) := finish site.stepId context prepared executed
    (context, .ok output)

end Subworkflow

/-- What every level of a run draws on: the kinds of units and the files that documents are loaded from. -/
structure Host where
  registry : Registry
  files : FileTree

namespace Host

/-- The units of a level whose children run as given. -/
def unitsOver (host : Host) (run : Level → Report) : UnitMaker
  | .leaf make, site => make site
  | .subworkflow, site => Subworkflow.unit host.files (Subworkflow.runChild host.registry run site) site

/-- The report of a level that has no place left. -/
def cutOff (level : Level) : Report :=
  let frame := level.context.frame
  let fault := .maxDepthExceeded level.plan.identity frame.depth level.plan.limits.maxDepth
  .failing level.plan level.context [] (some fault) []

/-- Runs a level with so many levels left, its own among them. The guard of a step trips before none is left, so the
report at the bottom is never asked for. -/
def runWithin (host : Host) : Nat → Level → Report
  | 0 => cutOff
  | levels + 1 => Level.run (host.unitsOver (host.runWithin levels))

/-- The units of a level that has so many levels left below it. -/
def units (host : Host) (levels : Nat) : UnitMaker := host.unitsOver (host.runWithin levels)

/-- Runs a level with as many levels as its depth limit leaves. -/
def report (host : Host) (level : Level) : Report :=
  host.runWithin (level.plan.limits.maxDepth - level.context.frame.depth + 1) level

/-- Runs a plan on a context. -/
def execute (host : Host) (plan : Plan) (context : Context) (params : Fields) : Report :=
  host.report ⟨plan, context, params⟩

/-- The plan of a document for a run with the given parameters, whose names references may use. -/
def plan (host : Host) (d : Document) (params : Fields) (options : PlanOptions) : Except Fault Plan :=
  Plan.build host.registry { options with external := options.external ++ Assoc.keys params } d

/-- Builds and runs a document in a fresh context. -/
def run (host : Host) (d : Document) (params : Fields) (options : PlanOptions) : RunResult :=
  match host.plan d params options with
  | .error fault => .rejected fault
  | .ok plan => (host.report (plan.top params)).result

end Host

end Workflow
