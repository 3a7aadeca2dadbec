import Workflow.DataFlow

/-! The causes for which a document is refused or a run ends, each with its message, its category, the phase it
belongs to and advice; and what it takes for a computation that may end with one to have a result. -/

namespace Workflow

inductive Category where
  | structural | resolution | graph | execution | recursion | batch
  deriving DecidableEq, Repr

namespace Category

def name : Category → String
  | .structural => "structural"
  | .resolution => "resolution"
  | .graph => "graph"
  | .execution => "execution"
  | .recursion => "recursion"
  | .batch => "batch"

def ofName? : String → Option Category
  | "structural" => some .structural
  | "resolution" => some .resolution
  | "graph" => some .graph
  | "execution" => some .execution
  | "recursion" => some .recursion
  | "batch" => some .batch
  | _ => none

end Category

/-- The stages of turning a document into a plan. -/
inductive Phase where
  | parsing | validation | nodeResolution | flowWiring | startDetection
  deriving DecidableEq, Repr

namespace Phase

def name : Phase → String
  | .parsing => "parsing"
  | .validation => "validation"
  | .nodeResolution => "node_resolution"
  | .flowWiring => "flow_wiring"
  | .startDetection => "start_detection"

def category : Phase → Category
  | .parsing => .structural
  | .validation | .nodeResolution => .resolution
  | .flowWiring | .startDetection => .graph

end Phase

/-- A failure to build a plan, with the stage it arose in. -/
structure PlanFault where
  phase : Phase
  text : String
  stepId : Option String
  kind : Option String
  suggestion : Option String
  deriving DecidableEq, Repr

def PlanFault.message (f : PlanFault) : String :=
  let phase := f.phase.name
  s!"[{phase}] " ++ f.text

inductive Fault where
  | io (problem : String)
  | jsonSyntax (problem : String)
  | yamlSyntax (problem : String)
  | unsupportedFormat (path : String)
  | malformed (details : List String)
  | missingInputs (names : List String)
  | dataFlow (diagnostics : List Diagnostic)
  | plan (fault : PlanFault)
  | unresolvedTemplate (stepId param template : String) (unresolved : List String) (hint : String)
  | typeMismatch (stepId param template expected actual hint : String)
  | invalidBatchItems (stepId template actual : String)
  | nestedAccess (stepId template outputType nestedPath : String)
  | undeclaredOutput (stepId template source output hint : String)
  | maxDepthExceeded (workflow : String) (depth max : Nat)
  | circularWorkflow (workflow : String) (stack : List String)
  | stepLimitExceeded (max : Nat)
  | execution (stepId problem : String)
  deriving DecidableEq, Repr

namespace Fault

def message : Fault → String
  | .io problem => "WEAVE-001: IO error: " ++ problem
  | .jsonSyntax problem => "WEAVE-002: JSON parse error: " ++ problem
  | .yamlSyntax problem => "WEAVE-003: YAML parse error: " ++ problem
  | .unsupportedFormat path => "WEAVE-004: Unsupported workflow file extension: " ++ path
  | .malformed details => "WEAVE-010: Malformed workflow IR: " ++ Text.join "; " details
  | .missingInputs names => "WEAVE-011: Missing required workflow input(s): " ++ Text.join ", " names
  | .dataFlow diagnostics =>
    "WEAVE-020: Data-flow validation failed: " ++ Text.join "; " (diagnostics.map Diagnostic.message)
  | .plan fault => "WEAVE-030: Compilation failed " ++ fault.message
  | .unresolvedTemplate stepId param template unresolved _ =>
    let list := Text.join ", " unresolved
    s!"WEAVE-040: Node '{stepId}' parameter '{param}': unresolved reference(s) {list} in '{template}'"
  | .typeMismatch stepId param template expected actual _ =>
    s!"WEAVE-041: Node '{stepId}' parameter '{param}': '{template}' resolved to {actual}, expected {expected}"
  | .invalidBatchItems stepId template actual =>
    s!"WEAVE-042: Node '{stepId}' batch items '{template}' did not resolve to a list ({actual})"
  | .nestedAccess stepId template outputType nestedPath =>
    s!"WEAVE-043: Node '{stepId}': '{template}' accesses '{nestedPath}' on output type '{outputType}' " ++
      "which does not support nested access"
  | .undeclaredOutput stepId template source output _ =>
    s!"WEAVE-044: Node '{stepId}': '{template}' reads '{output}' which node '{source}' does not declare"
  | .maxDepthExceeded workflow _ max =>
    s!"WEAVE-050: Maximum workflow nesting depth {max} exceeded while calling '{workflow}'"
  | .circularWorkflow workflow stack =>
    "WEAVE-051: Circular workflow reference: " ++ Text.join " -> " stack ++ " -> " ++ workflow
  | .stepLimitExceeded max => s!"WEAVE-060: Step limit of {max} exceeded while walking the graph"
  | .execution stepId problem => s!"WEAVE-061: Node '{stepId}' failed: {problem}"

def category : Fault → Category
  | .io _ | .jsonSyntax _ | .yamlSyntax _ | .unsupportedFormat _ | .malformed _ | .missingInputs _ => .structural
  | .dataFlow _ | .stepLimitExceeded _ => .graph
  | .plan fault => fault.phase.category
  | .unresolvedTemplate .. | .typeMismatch .. | .invalidBatchItems .. | .nestedAccess .. | .undeclaredOutput .. =>
    .resolution
  | .maxDepthExceeded .. | .circularWorkflow .. => .recursion
  | .execution .. => .execution

def stepId? : Fault → Option String
  | .unresolvedTemplate stepId .. | .typeMismatch stepId .. | .invalidBatchItems stepId .. | .nestedAccess stepId ..
  | .undeclaredOutput stepId .. | .execution stepId _ => some stepId
  | .plan fault => fault.stepId
  | _ => none

def phase : Fault → String
  | .plan fault => fault.phase.name
  | .io _ | .jsonSyntax _ | .yamlSyntax _ | .unsupportedFormat _ | .malformed _ => "parsing"
  | .missingInputs _ | .dataFlow _ | .nestedAccess .. | .undeclaredOutput .. => "validation"
  | _ => "execution"

def fix? : Fault → Option String
  | .io _ => some "Check file path and permissions"
  | .jsonSyntax _ => some "Check JSON syntax: brackets, commas and quoting"
  | .yamlSyntax _ => some "Check YAML syntax: indentation and quoting"
  | .unsupportedFormat _ => some "Use a .json, .yaml or .yml workflow file"
  | .malformed _ => some "Fix the IR shape: nodes need 'id' and 'type', edges need 'from' and 'to'"
  | .missingInputs _ => some "Pass the input with --param name=value or declare a default"
  | .dataFlow _ => some "Reference only declared inputs or steps that run earlier"
  | .plan fault => fault.suggestion
  | .unresolvedTemplate _ _ _ _ hint | .typeMismatch _ _ _ _ _ hint | .undeclaredOutput _ _ _ _ hint => some hint
  | .invalidBatchItems .. => some "Point batch.items at a list, e.g. $\x7bstep.files\x7d"
  | .nestedAccess .. =>
    some "Declare the output as dict (or a union containing dict) before reading sub-fields"
  | .maxDepthExceeded .. => some "Reduce sub-workflow nesting or raise max_depth"
  | .circularWorkflow .. => some "Remove the cycle - a workflow cannot call itself through its children"
  | .stepLimitExceeded _ => some "Check action routing for unintended loops or raise WEAVE_MAX_STEPS"
  | .execution .. => some "Inspect the failing step's parameters"

end Fault

/-! ### Results -/

section
variable {ε ε' α β : Type} {x : Except ε α} {next : α → Except ε β}

theorem bind_eq_ok {b : β} : x >>= next = .ok b ↔ ∃ a, x = .ok a ∧ next a = .ok b := by
  cases x <;> simp [bind, Except.bind]

theorem bind_eq_error {fault : ε} :
    x >>= next = .error fault ↔ x = .error fault ∨ ∃ a, x = .ok a ∧ next a = .error fault := by
  cases x <;> simp [bind, Except.bind]

/-- What is tested of a result is true only if there is one. -/
theorem any_toOption {p : α → Bool} : x.toOption.any p = true ↔ ∃ a, x = .ok a ∧ p a = true := by
  cases x <;> simp [Except.toOption]

theorem mapError_eq_ok {wrap : ε → ε'} {a : α} : x.mapError wrap = .ok a ↔ x = .ok a := by
  constructor
  · intro h
    cases x with
    | error fault => cases h
    | ok b =>
      cases h
      rfl
  · rintro rfl
    rfl

end

end Workflow
