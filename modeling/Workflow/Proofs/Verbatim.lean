import Workflow.Proofs.Building
import Mathlib.Data.List.Forall2

/-! Parameters that are handed over verbatim are no matter of the document they stand in. References are looked for in
the view of a document, against the interfaces, and where parameters are split; none of the three sees what a verbatim
value holds, so a document is judged, and its plan built, the same whatever stands there. -/

namespace Workflow

def Registry.takesVerbatim (registry : Registry) (kind key : String) : Bool :=
  ((registry.interface? kind).map fun i => i.isVerbatim key).getD false

/-- Two parameters under one key, of the same value unless it is taken verbatim. -/
def SameUnlessVerbatim (registry : Registry) (kind : String) (e e' : String × Json) : Prop :=
  e'.1 = e.1 ∧ (registry.takesVerbatim kind e.1 = false → e'.2 = e.2)

/-- A step that differs in nothing but values it takes verbatim. -/
structure Step.Resembles (registry : Registry) (step step' : Step) : Prop where
  params : List.Forall₂ (SameUnlessVerbatim registry step.kind) step.params step'.params
  rest : step' = { step with params := step'.params }

/-- A document that differs in nothing but values its steps take verbatim. -/
structure Document.Resembles (registry : Registry) (d d' : Document) : Prop where
  steps : List.Forall₂ (Step.Resembles registry) d.steps d'.steps
  rest : d' = { d with steps := d'.steps }

variable {registry : Registry}

/-! ### Lists -/

theorem map_eq_of_forall₂ {α β γ : Type} {R : α → β → Prop} {f : α → γ} {g : β → γ} {l : List α} {l' : List β}
    (h : List.Forall₂ R l l') (heq : ∀ a b, R a b → g b = f a) : l'.map g = l.map f := by
  have hrel : List.Forall₂ (· = ·) (l.map f) (l'.map g) := List.rel_map (fun {a b} hab => (heq a b hab).symm) h
  rw [List.forall₂_eq_eq_eq] at hrel
  exact hrel.symm

theorem filterMap_eq_of_forall₂ {α β γ : Type} {R : α → β → Prop} {f : α → Option γ} {g : β → Option γ} {l : List α}
    {l' : List β} (h : List.Forall₂ R l l') (heq : ∀ a b, R a b → g b = f a) : l'.filterMap g = l.filterMap f := by
  have hmap := congrArg (List.filterMap id) (map_eq_of_forall₂ h heq)
  rwa [List.filterMap_map, List.filterMap_map] at hmap

/-- Whatever picks no parameter that is taken verbatim picks the same ones. -/
theorem filter_eq_of_same {kind : String} {params params' : Fields} {p : String × Json → Bool}
    (h : List.Forall₂ (SameUnlessVerbatim registry kind) params params')
    (hp : ∀ e, registry.takesVerbatim kind e.1 = true → p e = false) : params'.filter p = params.filter p := by
  induction h with
  | nil => rfl
  | @cons e e' params params' hsame _ ih =>
    obtain ⟨hkey, hvalue⟩ := hsame
    cases hverbatim : registry.takesVerbatim kind e.1 with
    | true =>
      rw [List.filter_cons_of_neg, List.filter_cons_of_neg, ih]
      · simp [hp e hverbatim]
      · simp [hp e' (hkey ▸ hverbatim)]
    | false =>
      have heq : e' = e := Prod.ext hkey (hvalue hverbatim)
      rw [heq, List.filter_cons, List.filter_cons, ih]

/-! ### What is looked at -/

namespace Step.Resembles

variable {step step' : Step}

theorem id (h : step.Resembles registry step') : step'.id = step.id := by rw [h.rest]

theorem kind (h : step.Resembles registry step') : step'.kind = step.kind := by rw [h.rest]

theorem batch (h : step.Resembles registry step') : step'.batch = step.batch := by rw [h.rest]

def seen (registry : Registry) (step : Step) : Step :=
  { step with params := step.params.filter fun e => !registry.takesVerbatim step.kind e.1 }

theorem seen_eq (h : step.Resembles registry step') : seen registry step' = seen registry step := by
  rw [h.rest]
  simp only [seen, Step.mk.injEq, true_and, and_true]
  exact filter_eq_of_same h.params fun e he => by simp [he]

end Step.Resembles

namespace Plan

variable {options : PlanOptions} {d d' : Document}

theorem view_of_resembles (h : d.Resembles registry d') : view registry d' = view registry d := by
  have hsteps : d'.steps.map (Step.Resembles.seen registry) = d.steps.map (Step.Resembles.seen registry) :=
    map_eq_of_forall₂ h.steps fun _ _ hstep => hstep.seen_eq
  rw [h.rest]
  exact congrArg (fun steps => { d with steps := steps }) hsteps

theorem checkIdentity_of_resembles (h : d.Resembles registry d') : d'.checkIdentity = d.checkIdentity := by
  have hids : d'.stepIds = d.stepIds := map_eq_of_forall₂ h.steps fun _ _ hstep => hstep.id
  have hbreaches : d'.identityBreaches = d.identityBreaches := by
    unfold Document.identityBreaches
    rw [hids]
    refine congrArg _ (filterMap_eq_of_forall₂ h.steps fun step step' hstep => ?_)
    rw [hstep.batch, hstep.id]
  unfold Document.checkIdentity
  rw [hbreaches]

theorem resolveKind_of_resembles {step step' : Step} (h : step.Resembles registry step') :
    resolveKind registry step' = (resolveKind registry step).map fun e => (step', e.2) := by
  unfold resolveKind unknownKind
  rw [h.kind, h.id]
  cases Assoc.get? registry step.kind <;> rfl

/-- Steps of which one resembles the other, each with the entry of their kind. -/
structure SameEntry (registry : Registry) (e e' : Step × RegistryEntry) : Prop where
  step : e.1.Resembles registry e'.1
  entry : e'.2 = e.2
  known : Assoc.get? registry e.1.kind = some e.2

theorem mapM_resolveKind_of_resembles {steps steps' : List Step}
    (h : List.Forall₂ (Step.Resembles registry) steps steps') :
    (∃ fault, steps.mapM (resolveKind registry) = .error fault ∧ steps'.mapM (resolveKind registry) = .error fault) ∨
      ∃ resolved resolved', steps.mapM (resolveKind registry) = .ok resolved ∧
        steps'.mapM (resolveKind registry) = .ok resolved' ∧ List.Forall₂ (SameEntry registry) resolved resolved' := by
  induction h with
  | nil => exact .inr ⟨[], [], rfl, rfl, .nil⟩
  | @cons step step' steps steps' hstep _ ih =>
    rw [List.mapM_cons, List.mapM_cons, resolveKind_of_resembles hstep]
    cases hk : resolveKind registry step with
    | error fault => exact .inl ⟨fault, rfl, rfl⟩
    | ok e =>
      obtain ⟨hfirst, hentry⟩ := resolveKind_eq_ok hk
      rcases ih with ⟨fault, hf, hf'⟩ | ⟨resolved, resolved', hr, hr', hsame⟩
      · exact .inl ⟨fault, by rw [hf]; rfl, by rw [hf']; rfl⟩
      · refine .inr ⟨e :: resolved, (step', e.2) :: resolved', by rw [hr]; rfl, by rw [hr']; rfl, .cons ?_ hsame⟩
        exact ⟨hfirst ▸ hstep, rfl, hfirst ▸ hentry⟩

/-- All of a plan but the values that its steps are given as they stand. -/
def outline (plan : Plan) : Plan :=
  { plan with pipelines := plan.pipelines.map fun (stepId, p) => (stepId, { p with literals := [] }) }

theorem pipelineOf_of_sameEntry {e e' : Step × RegistryEntry} (h : SameEntry registry e e') :
    { pipelineOf options e'.1 e'.2 with literals := [] } = { pipelineOf options e.1 e.2 with literals := [] } := by
  have htemplated := filter_eq_of_same h.step.params
    (p := fun param => Template.valueHasTemplate param.2 && !e.2.interface.isVerbatim param.1) fun param hverbatim => by
      rw [Registry.takesVerbatim, Registry.interface?, h.known] at hverbatim
      simp only [Option.map_some, Option.getD_some] at hverbatim
      simp [hverbatim]
  simp only [pipelineOf, List.partition_eq_filter_filter, h.entry, h.step.id, h.step.batch, htemplated]

/-- The same phase refuses both documents for the same fault, or the plans of both have the same outline. -/
theorem build_of_resembles (h : d.Resembles registry d') :
    (build registry options d').map outline = (build registry options d).map outline := by
  have hids : d'.stepIds = d.stepIds := map_eq_of_forall₂ h.steps fun _ _ hstep => hstep.id
  have hstart : detectStart d' = detectStart d := by
    unfold detectStart
    rw [hids, h.rest]
  obtain ⟨hmode, hedges, hname, hinputs, houtputs⟩ : d'.mode = d.mode ∧ d'.edges = d.edges ∧
      d'.displayName = d.displayName ∧ d'.inputs = d.inputs ∧ d'.outputs = d.outputs := by
    rw [h.rest]
    exact ⟨rfl, rfl, rfl, rfl, rfl⟩
  unfold build
  rw [checkIdentity_of_resembles h, view_of_resembles h, hids, hstart, hmode, hedges, hname, hinputs, houtputs]
  rcases mapM_resolveKind_of_resembles h.steps with ⟨fault, hf, hf'⟩ | ⟨resolved, resolved', hr, hr', hsame⟩
  · rw [hf, hf']
  have hinterfaces : (resolved'.map fun e => (e.1.id, e.2.interface)) = resolved.map fun e => (e.1.id, e.2.interface) :=
    map_eq_of_forall₂ hsame fun _ _ he => Prod.ext he.step.id (congrArg RegistryEntry.interface he.entry)
  have hpipelines : (resolved'.map fun e => (e.1.id, { pipelineOf options e.1 e.2 with literals := [] })) =
      resolved.map fun e => (e.1.id, { pipelineOf options e.1 e.2 with literals := [] }) :=
    map_eq_of_forall₂ hsame fun _ _ he => Prod.ext he.step.id (pipelineOf_of_sameEntry he)
  rw [hr, hr']
  simp only [bind, Except.bind, hinterfaces]
  -- whatever a phase says, it says of both documents
  cases d.checkIdentity with
  | error fault => rfl
  | ok _ =>
  cases validate (view registry d) options.external with
  | error fault => rfl
  | ok unreachable =>
  simp only
  cases checkInterfaces (options.mode.getD d.mode) (resolved.map fun e => (e.1.id, e.2.interface))
    (view registry d).steps with
  | error fault => rfl
  | ok warnings =>
  cases wire d.stepIds d.edges with
  | error fault => rfl
  | ok wiring =>
  cases detectStart d with
  | error fault => rfl
  | ok start => simp only [Except.map, outline, List.map_map, Function.comp_def, hpipelines]

/-- What a step takes verbatim shows neither in what is found about a document nor in the plan, but for the value that
is handed on. -/
theorem verbatim_unseen (h : d.Resembles registry d') (options : PlanOptions) :
    (∀ external, DataFlow.validate (view registry d') external = DataFlow.validate (view registry d) external) ∧
      (build registry options d').map outline = (build registry options d).map outline :=
  ⟨fun external => congrArg (DataFlow.validate · external) (view_of_resembles h), build_of_resembles h⟩

end Plan

def enclosingDocument (inline : Json) : Document where
  version := "1"
  name := none
  start := none
  steps := [⟨"child", "workflow", none, [("workflow_ir", inline), ("scope_prefix", .str "$\x7bprefix\x7d")], none⟩]
  edges := []
  inputs := [("prefix", ⟨.any, "", true, none, false⟩)]
  outputs := []
  mode := .strict

def ghostly : Json := .obj [("nodes", .arr [.obj [("text", .str "$\x7bghost\x7d and $\x7bchild[0]\x7d")]])]

/-- The inline document may refer to anything, though as a whole its references would be refused. -/
theorem verbatim_unseen_ghostly :
    (enclosingDocument (.obj [])).Resembles Registry.builtin (enclosingDocument ghostly) ∧
      (Plan.build Registry.builtin {} (enclosingDocument ghostly)).map Plan.outline =
        (Plan.build Registry.builtin {} (enclosingDocument (.obj []))).map Plan.outline ∧
      (Plan.build Registry.builtin {} (enclosingDocument ghostly)).isOk = true ∧
      DataFlow.validate (Plan.view Registry.builtin (enclosingDocument ghostly)) [] = [] ∧
      DataFlow.validate (enclosingDocument ghostly) [] ≠ [] := by
  have hresembles : (enclosingDocument (.obj [])).Resembles Registry.builtin (enclosingDocument ghostly) :=
    ⟨.cons ⟨.cons ⟨rfl, fun hseen => absurd hseen (by decide)⟩ (.cons ⟨rfl, fun _ => rfl⟩ .nil), rfl⟩ .nil, rfl⟩
  obtain ⟨_, hbuilt⟩ := Plan.verbatim_unseen hresembles {}
  exact ⟨hresembles, hbuilt, by decide +kernel, by decide +kernel, by decide +kernel⟩

end Workflow
