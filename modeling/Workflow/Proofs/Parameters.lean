import Workflow.Proofs.Resolving

/-! When the parameters of a step are in order, and what becomes of a call when they are not. Strict mode hands a call
to the leaf only with parameters that are in order and otherwise ends it with the first problem; permissive mode always
hands it on, with a warning for every problem. -/

namespace Workflow

/-! ### Problems with a parameter -/

theorem SemanticType.check_eq_ok_iff {type : SemanticType} {v : Json} :
    type.check v = .ok () ↔ type.accepts v = true := by
  unfold check
  split
  · rename_i h
    simp [h]
  · rename_i h
    simp [h]

/-- The problem with a parameter that is one reference and whose references all find something. -/
theorem paramIssue?_of_complete {stepId : String} {declared : Assoc SemanticType} {key : String} {raw : Json}
    {r : Resolved} (hr : r.unresolved = []) :
    paramIssue? stepId declared key raw r = none ↔
      ∀ text, raw = .str text → (Template.simpleReference text).isSome →
        ∀ type, Assoc.get? declared key = some type → type.accepts r.value = true := by
  unfold paramIssue?
  rw [hr]
  simp only
  constructor
  · rintro h text rfl hsimple type htype
    simp only [htype, Option.isNone_iff_eq_none, Option.isSome_iff_ne_none.mp hsimple, if_false] at h
    split at h
    · rename_i hcheck
      exact SemanticType.check_eq_ok_iff.mp hcheck
    · cases h
  · intro h
    split
    · rename_i text type htype
      split
      · rfl
      · rename_i hsimple
        rw [Bool.not_eq_true, Option.isNone_eq_false_iff] at hsimple
        have haccepts := h text rfl hsimple type htype
        rw [SemanticType.check_eq_ok_iff.mpr haccepts]
    · rfl

/-- A parameter has no problem exactly when its references find something, and what it refers to as a whole has the type
declared for it. -/
theorem paramIssue?_eq_none_iff {stepId : String} {declared : Assoc SemanticType} {key : String} {raw : Json}
    {scope : Scope} {depth : Nat} :
    paramIssue? stepId declared key raw (scope.resolve depth raw) = none ↔
      (∀ r, Template.Occurs r depth raw → (scope.lookup? r).isSome) ∧
        ∀ text, raw = .str text → ∀ r, Template.simpleReference text = some r →
          ∀ type, Assoc.get? declared key = some type → ∃ v, scope.lookup? r = some v ∧ type.accepts v = true := by
  rw [← scope.resolve_isComplete_iff]
  by_cases hr : (scope.resolve depth raw).unresolved = []
  · rw [paramIssue?_of_complete hr, and_iff_right hr]
    refine forall₂_congr fun text htext => ?_
    subst htext
    have hfound (r : Reference) (hsimple : Template.simpleReference text = some r) :
        scope.lookup? r = some (scope.resolve depth (.str text)).value := by
      obtain ⟨v, hv⟩ := Option.isSome_iff_exists.mp
        (scope.resolve_isComplete_iff.mp hr r (Template.occurs_of_simpleReference hsimple depth))
      rw [scope.resolve_simpleReference depth hsimple, hv]
      rfl
    constructor
    · intro h r hsimple type htype
      exact ⟨_, hfound r hsimple, h (by rw [hsimple]; rfl) type htype⟩
    · intro h hsimple type htype
      obtain ⟨r, hsimple⟩ := Option.isSome_iff_exists.mp hsimple
      obtain ⟨v, hv, haccepts⟩ := h r hsimple type htype
      rw [hfound r hsimple] at hv
      cases hv
      exact haccepts
  · refine iff_of_false ?_ fun h => hr h.1
    unfold paramIssue?
    cases hu : (scope.resolve depth raw).unresolved with
    | nil => exact absurd hu hr
    | cons first rest => simp

def Fault.IsAbout (stepId key : String) : Fault → Prop
  | .unresolvedTemplate id param .. | .typeMismatch id param .. => id = stepId ∧ param = key
  | _ => False

theorem paramIssue?_isAbout {stepId : String} {declared : Assoc SemanticType} {key : String} {raw : Json} {r : Resolved}
    {issue : Fault} (h : paramIssue? stepId declared key raw r = some issue) : issue.IsAbout stepId key := by
  unfold paramIssue? at h
  split at h
  · cases h
    exact ⟨rfl, rfl⟩
  · split at h
    · split at h
      · cases h
      · split at h
        · cases h
        · cases h
          exact ⟨rfl, rfl⟩
    · cases h

/-! ### Settling them -/

theorem settle_strict (issue : Fault) (issues : List Fault) (warnings : List Warning) :
    (issue :: issues).foldlM (fun warnings issue => Mode.strict.settle issue warnings) warnings = .error issue := rfl

theorem settle_permissive (issues : List Fault) (warnings : List Warning) :
    issues.foldlM (fun warnings issue => Mode.permissive.settle issue warnings) warnings =
      .ok (warnings ++ issues.map Warning.ofFault) := by
  induction issues generalizing warnings with
  | nil => simp [pure, Except.pure]
  | cons issue rest ih =>
    have hrest := ih (warnings ++ [Warning.ofFault issue])
    rw [List.append_assoc] at hrest
    exact hrest

section
variable {stepId : String} {templated : Fields} {declared : Assoc SemanticType} {depth : Nat} {call : Call}

/-- The problems with a set of parameters, in the order of the parameters. -/
def paramIssues (stepId : String) (templated : Fields) (declared : Assoc SemanticType) (depth : Nat) (scope : Scope) :
    List Fault :=
  templated.filterMap fun e => paramIssue? stepId declared e.1 e.2 (scope.resolve depth e.2)

def Call.filled (call : Call) (templated : Fields) (depth : Nat) (warnings : List Warning) : Call :=
  { call with
    context := call.context.warn warnings
    params := Assoc.putAll call.params (templated.map fun e => (e.1, (call.scope.resolve depth e.2).value)) }

theorem resolveParams_eq :
    resolveParams stepId templated declared depth call =
      ((paramIssues stepId templated declared depth call.scope).foldlM
        (fun warnings issue => call.mode.settle issue warnings) call.context.journal.warnings).map fun warnings =>
          { call.filled templated depth [] with context := call.context.setWarnings warnings } := by
  simp only [resolveParams, paramIssues, Call.filled, List.filterMap_map, List.map_map]
  rfl

theorem resolveParams_of_no_issues (h : paramIssues stepId templated declared depth call.scope = []) :
    resolveParams stepId templated declared depth call = .ok (call.filled templated depth []) := by
  rw [resolveParams_eq, h]
  simp [Call.filled, Context.warn, Context.setWarnings, Journal.warn, pure, Except.pure, Except.map]

theorem resolveParams_strict (hmode : call.mode = .strict) {issue : Fault} {rest : List Fault}
    (h : paramIssues stepId templated declared depth call.scope = issue :: rest) :
    resolveParams stepId templated declared depth call = .error issue := by
  rw [resolveParams_eq, h, hmode, settle_strict]
  rfl

theorem resolveParams_permissive (hmode : call.mode = .permissive) :
    resolveParams stepId templated declared depth call =
      .ok (call.filled templated depth
        ((paramIssues stepId templated declared depth call.scope).map Warning.ofFault)) := by
  rw [resolveParams_eq, hmode, settle_permissive]
  rfl

end

namespace Pipeline

variable {p : Pipeline} {call : Call}

def issues (p : Pipeline) (call : Call) : List Fault :=
  p.templated.filterMap fun e =>
    paramIssue? p.stepId p.declared e.1 e.2 (call.scope.resolve p.site.limits.maxTemplateDepth e.2)

def settled (p : Pipeline) (call : Call) (warnings : List Warning) : Call :=
  { call with
    context := call.context.warn warnings
    params := Assoc.putAll call.params
      (p.templated.map fun e => (e.1, (call.scope.resolve p.site.limits.maxTemplateDepth e.2).value)) }

/-- Where there is nothing to resolve, it makes no difference that resolving is left out. -/
theorem leafCall_eq (p : Pipeline) (call : Call) :
    p.leafCall call = resolveParams p.stepId p.templated p.declared p.site.limits.maxTemplateDepth call := by
  unfold leafCall
  split
  · rename_i hempty
    rw [List.isEmpty_iff.mp hempty]
    rfl
  · rfl

theorem leafCall_of_no_issues (h : p.issues call = []) : p.leafCall call = .ok (p.settled call []) :=
  (p.leafCall_eq call).trans (resolveParams_of_no_issues h)

theorem leafCall_strict (hmode : call.mode = .strict) {issue : Fault} {rest : List Fault}
    (h : p.issues call = issue :: rest) : p.leafCall call = .error issue :=
  (p.leafCall_eq call).trans (resolveParams_strict hmode h)

theorem leafCall_permissive (hmode : call.mode = .permissive) :
    p.leafCall call = .ok (p.settled call ((p.issues call).map Warning.ofFault)) :=
  (p.leafCall_eq call).trans (resolveParams_permissive hmode)

/-- What is left for the leaf has the resolved parameters and a warning for each problem, and differs in nothing
else. -/
theorem leafCall_eq_settled {inner : Call} (h : p.leafCall call = .ok inner) :
    inner = p.settled call ((p.issues call).map Warning.ofFault) := by
  cases hmode : call.mode with
  | strict =>
    cases hissues : p.issues call with
    | nil =>
      rw [leafCall_of_no_issues hissues] at h
      cases h
      rfl
    | cons issue rest =>
      rw [leafCall_strict hmode hissues] at h
      cases h
  | permissive =>
    rw [leafCall_permissive hmode] at h
    cases h
    rfl

/-! ### What reaches the leaf -/

/-- The parameters and the context with which the leaf prepares its unit, unless a fault keeps it from that. -/
def handed (p : Pipeline) (call : Call) : Except Fault (Fields × Context) :=
  (p.leafCall call).map fun inner => (Assoc.putAll p.literals inner.params, inner.context)

theorem handed_of_leafCall_error {fault : Fault} (h : p.leafCall call = .error fault) :
    p.handed call = .error fault := by
  rw [handed, h]
  rfl

theorem handed_eq_ok {params : Fields} {context : Context} (h : p.handed call = .ok (params, context)) :
    ∃ inner, p.leafCall call = .ok inner ∧ params = Assoc.putAll p.literals inner.params ∧
      context = inner.context := by
  unfold handed at h
  cases hc : p.leafCall call with
  | error fault =>
    rw [hc] at h
    cases h
  | ok inner =>
    rw [hc] at h
    cases h
    exact ⟨inner, rfl, rfl, rfl⟩

/-- Nothing but what is handed to the leaf reaches the unit, and it reaches the unit only if the leaf is called. -/
theorem core_of_handed (unit : LeafUnit) (a : Call) :
    p.core unit a =
      match p.handed a with
      | .error fault => (.aborted fault, a.context)
      | .ok (params, context) => leafLayer p.stepId unit params ⟨context, [], a.bindings, a.mode⟩ := by
  rw [handed]
  cases hc : p.leafCall a with
  | error fault =>
    rw [core_of_leafCall_error unit hc]
    rfl
  | ok inner =>
    rw [core_of_leafCall_ok unit hc]
    rfl

end Pipeline

/-! ### The parameters of a declared step -/

/-- A parameter is in order for a scope: every reference in it, down to the depth, finds something, and if it is one
reference and has a declared type, it finds a value of that type. -/
structure Interface.Fits (interface : Interface) (depth : Nat) (scope : Scope) (key : String) (v : Json) : Prop where
  found : ∀ r, Template.Occurs r depth v → (scope.lookup? r).isSome
  typed : ∀ text, v = .str text → ∀ r, Template.simpleReference text = some r →
    ∀ type, interface.paramType? key = some type → ∃ w, scope.lookup? r = some w ∧ type.accepts w = true

/-- All parameters of a step are in order, verbatim ones apart. -/
def Step.Resolvable (step : Step) (interface : Interface) (depth : Nat) (scope : Scope) : Prop :=
  ∀ key v, (key, v) ∈ step.params → interface.isVerbatim key = false → interface.Fits depth scope key v

namespace Plan

variable {options : PlanOptions} {step : Step} {entry : RegistryEntry} {key : String} {v : Json}

theorem mem_templated :
    (key, v) ∈ (pipelineOf options step entry).templated ↔
      (key, v) ∈ step.params ∧ Template.valueHasTemplate v = true ∧ entry.interface.isVerbatim key = false := by
  simp only [pipelineOf, List.partition_eq_filter_filter, List.mem_filter, Bool.and_eq_true, Bool.not_eq_true']

theorem get?_declaredTypes (types : String → Option SemanticType) (params : Fields) (key : String) :
    Assoc.get? (params.filterMap fun e => (types e.1).map fun type => (e.1, type)) key =
      if key ∈ Assoc.keys params then types key else none := by
  induction params with
  | nil => rfl
  | cons e rest ih =>
    rw [Assoc.keys, List.map_cons, ← Assoc.keys]
    cases ht : types e.1 with
    | none =>
      rw [List.filterMap_cons_none (by rw [ht]; rfl), ih]
      by_cases hkey : key = e.1
      · simp [hkey, ht]
      · simp [hkey]
    | some type =>
      rw [List.filterMap_cons_some (by rw [ht]; rfl), Assoc.get?_cons, ih]
      by_cases hkey : key = e.1
      · simp [hkey, ht]
      · simp [hkey, Ne.symm hkey]

theorem get?_declared (hkey : key ∈ Assoc.keys (pipelineOf options step entry).templated) :
    Assoc.get? (pipelineOf options step entry).declared key = entry.interface.paramType? key :=
  (get?_declaredTypes entry.interface.paramType? _ key).trans (if_pos hkey)

theorem fits_iff {call : Call} (hmem : (key, v) ∈ (pipelineOf options step entry).templated) :
    paramIssue? step.id (pipelineOf options step entry).declared key v
        (call.scope.resolve options.limits.maxTemplateDepth v) = none ↔
      entry.interface.Fits options.limits.maxTemplateDepth call.scope key v := by
  rw [paramIssue?_eq_none_iff, get?_declared (List.mem_map.mpr ⟨_, hmem, rfl⟩)]
  exact ⟨fun h => ⟨h.1, h.2⟩, fun h => ⟨h.found, h.typed⟩⟩

/-- A literal has no references that could be out of order. -/
theorem fits_of_not_templated {scope : Scope} (hv : (key, v) ∈ step.params)
    (hplain : entry.interface.isVerbatim key = false)
    (hmem : (key, v) ∉ (pipelineOf options step entry).templated) :
    entry.interface.Fits options.limits.maxTemplateDepth scope key v := by
  have hliteral (r : Reference) (depth : Nat) : ¬ Template.Occurs r depth v :=
    fun hr => hmem (mem_templated.mpr ⟨hv, hr.hasTemplate, hplain⟩)
  refine ⟨fun r hr => absurd hr (hliteral r _), ?_⟩
  rintro text rfl r hsimple
  exact absurd (Template.occurs_of_simpleReference hsimple 0) (hliteral r 0)

/-- A call meets no problem exactly when the parameters of the step are in order for its scope. -/
theorem issues_eq_nil_iff {call : Call} :
    (pipelineOf options step entry).issues call = [] ↔
      step.Resolvable entry.interface options.limits.maxTemplateDepth call.scope := by
  rw [Pipeline.issues, List.filterMap_eq_nil_iff]
  constructor
  · intro h key v hv hplain
    by_cases hmem : (key, v) ∈ (pipelineOf options step entry).templated
    · exact (fits_iff hmem).mp (h _ hmem)
    · exact fits_of_not_templated hv hplain hmem
  · rintro h ⟨key, v⟩ hmem
    obtain ⟨hv, _, hplain⟩ := mem_templated.mp hmem
    exact (fits_iff hmem).mpr (h key v hv hplain)

/-- Each problem is about a parameter that is not in order. -/
theorem mem_issues {call : Call} {fault : Fault} (h : fault ∈ (pipelineOf options step entry).issues call) :
    ∃ key v, (key, v) ∈ step.params ∧ entry.interface.isVerbatim key = false ∧ fault.IsAbout step.id key ∧
      ¬ entry.interface.Fits options.limits.maxTemplateDepth call.scope key v := by
  obtain ⟨⟨key, v⟩, hmem, hissue⟩ := List.mem_filterMap.mp h
  obtain ⟨hv, _, hplain⟩ := mem_templated.mp hmem
  refine ⟨key, v, hv, hplain, paramIssue?_isAbout hissue, fun hfits => ?_⟩
  have hnone : paramIssue? step.id (pipelineOf options step entry).declared key v
      (call.scope.resolve options.limits.maxTemplateDepth v) = none := (fits_iff hmem).mpr hfits
  exact Option.some_ne_none fault (hissue.symm.trans hnone)

end Plan

end Workflow
