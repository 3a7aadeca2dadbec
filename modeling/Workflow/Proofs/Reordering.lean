import Workflow.Proofs.Arrangement

/-! The order in which a document lists its steps and edges. A plan shows it in the names that it guards and in the
warnings that its runs begin with. No layer looks at either order, so the runs differ in the order of their warnings
alone. -/

namespace Workflow

/-! ### Documents and plans -/

structure Document.Reorders (d d' : Document) : Prop where
  steps : d'.steps.Perm d.steps
  edges : d'.edges.Perm d.edges
  rest : d' = { d with steps := d'.steps, edges := d'.edges }

/-- No two edges lead from one step to different ones under one action. -/
def Document.Unambiguous (d : Document) : Prop :=
  ∀ e ∈ d.edges, ∀ f ∈ d.edges, e.source = f.source → e.action = f.action → e.target = f.target

instance (d : Document) : Decidable d.Unambiguous :=
  inferInstanceAs (Decidable (∀ e ∈ d.edges, ∀ f ∈ d.edges, e.source = f.source → e.action = f.action →
    e.target = f.target))

/-- A plan with the same steps and exits, whose names and warnings stand in some order. -/
structure Plan.Reorders (plan plan' : Plan) : Prop extends plan.Parallels plan' where
  pipeline? : ∀ id, plan'.pipeline? id = plan.pipeline? id
  identity : plan'.identity = plan.identity
  stepIds : plan'.stepIds.Perm plan.stepIds
  mode : plan'.mode = plan.mode
  limits : plan'.limits = plan.limits
  warnings : plan'.warnings.Perm plan.warnings

namespace Plan

variable {registry : Registry} {options : PlanOptions} {d d' : Document} {plan plan' : Plan} {s s' : Stages}

theorem Stages.Passed.resolved_perm (h : d.Reorders d') (hs : s.Passed registry options d)
    (hs' : s'.Passed registry options d') : s'.resolved.Perm s.resolved := by
  let pair (e : Step × RegistryEntry) : Step × Option RegistryEntry := (e.1, some e.2)
  have hpair : Function.Injective pair := by
    rintro ⟨step, entry⟩ ⟨other, found⟩ heq
    simpa [pair] using heq
  have hkinds {steps : List Step} {resolved : List (Step × RegistryEntry)}
      (hmap : steps.mapM (resolveKind registry) = .ok resolved) :
      resolved.map pair = steps.map fun step => (step, Assoc.get? registry step.kind) := by
    obtain ⟨hsteps, hentries⟩ := mapM_resolveKind hmap
    rw [← hsteps, List.map_map]
    refine List.map_congr_left fun e he => ?_
    simp only [pair, Function.comp_apply, hentries e he]
  rw [← List.map_perm_map_iff hpair, hkinds hs.kinds, hkinds hs'.kinds]
  exact h.steps.map _

/-- What is kept for each step under its id is found whatever the order of the steps. -/
theorem Stages.Passed.get?_reordered {β : Type} (h : d.Reorders d') (hs : s.Passed registry options d)
    (hs' : s'.Passed registry options d') (f : Step × RegistryEntry → β) (id : String) :
    Assoc.get? (s'.resolved.map fun e => (e.1.id, f e)) id = Assoc.get? (s.resolved.map fun e => (e.1.id, f e)) id := by
  refine Assoc.get?_perm ((hs.resolved_perm h hs').symm.map _) ?_ id
  have hids : Assoc.keys (s.resolved.map fun e => (e.1.id, f e)) = d.stepIds := by
    rw [Document.stepIds, ← (mapM_resolveKind hs.kinds).1, Assoc.keys, List.map_map, List.map_map]
    rfl
  rw [hids]
  exact Document.stepIds_nodup hs.identity

theorem accessWarnings_congr {interfaces interfaces' : Assoc Interface}
    (h : ∀ base, Assoc.get? interfaces' base = Assoc.get? interfaces base) (stepId : String) (r : Reference) :
    accessWarnings interfaces' stepId r = accessWarnings interfaces stepId r := by
  unfold accessWarnings
  rw [h]

/-- Each step adds its own warnings to those of a plan. -/
theorem Stages.Passed.warnings_perm (h : d.Reorders d') (hs : s.Passed registry options d)
    (hs' : s'.Passed registry options d') : s'.warnings.Perm s.warnings := by
  have hinterfaces : ∀ base, Assoc.get? s'.interfaces base = Assoc.get? s.interfaces base :=
    hs.get?_reordered h hs' fun e => e.2.interface
  have hview : (view registry d').steps.Perm (view registry d).steps := h.steps.map _
  rw [checkInterfaces_eq_ok hs.accesses, checkInterfaces_eq_ok hs'.accesses]
  have haccess (stepId : String) : accessWarnings s'.interfaces stepId = accessWarnings s.interfaces stepId :=
    funext fun r => accessWarnings_congr hinterfaces stepId r
  simp only [haccess]
  exact hview.flatMap_right _

theorem exists_of_successor? (hb : build registry options d = .ok plan) {e : Edge} (he : e ∈ d.edges) :
    ∃ target, plan.successor? e.source e.action = some target := by
  rw [successor?_eq hb]
  have hmem : e ∈ d.edges.filter (leaves e.source e.action) :=
    List.mem_filter.mpr ⟨he, by simp [leaves]⟩
  refine ⟨_, by rw [List.getLast?_eq_some_getLast (List.ne_nil_of_mem hmem)]; rfl⟩

/-- Where no two edges contradict each other, their order does not matter. -/
theorem successor?_reordered (h : d.Reorders d') (hu : d.Unambiguous) (hb : build registry options d = .ok plan)
    (hb' : build registry options d' = .ok plan') (id action : String) :
    plan'.successor? id action = plan.successor? id action := by
  have hmatch {target target' : String} (hs : plan.successor? id action = some target)
      (hs' : plan'.successor? id action = some target') : target' = target := by
    obtain ⟨e, he, hsource, haction, rfl⟩ := successor?_eq_some hb hs
    obtain ⟨f, hf, hsource', haction', rfl⟩ := successor?_eq_some hb' hs'
    exact hu f (h.edges.mem_iff.mp hf) e he (hsource'.trans hsource.symm) (haction'.trans haction.symm)
  cases hs : plan.successor? id action with
  | some target =>
    obtain ⟨e, he, hsource, haction, _⟩ := successor?_eq_some hb hs
    obtain ⟨target', hs'⟩ := exists_of_successor? hb' (h.edges.mem_iff.mpr he)
    rw [hsource, haction] at hs'
    rw [hs', hmatch hs hs']
  | none =>
    cases hs' : plan'.successor? id action with
    | none => rfl
    | some target' =>
      obtain ⟨e, he, hsource, haction, _⟩ := successor?_eq_some hb' hs'
      obtain ⟨target, hfound⟩ := exists_of_successor? hb (h.edges.mem_iff.mp he)
      rw [hsource, haction, hs] at hfound
      cases hfound

/-- The plans of a document and of one that lists its parts in another order, with the start named, differ in order
alone. -/
theorem reorders_of_build (h : d.Reorders d') (hu : d.Unambiguous) (hstart : d.start.isSome)
    (hb : build registry options d = .ok plan) (hb' : build registry options d' = .ok plan') : plan.Reorders plan' := by
  have hsuccessor := successor?_reordered h hu hb hb'
  obtain ⟨s, hs, rfl⟩ := build_eq_ok_iff.mp hb
  obtain ⟨s', hs', rfl⟩ := build_eq_ok_iff.mp hb'
  have hpipeline : ∀ id, (s'.plan options d').pipeline? id = (s.plan options d).pipeline? id :=
    hs.get?_reordered h hs' fun e => pipelineOf options e.1 e.2
  have hstarted : s'.start = s.start := by
    obtain ⟨start, hstart⟩ := Option.isSome_iff_exists.mp hstart
    have hfirst := hs.started
    have hfirst' := hs'.started
    rw [h.rest] at hfirst'
    unfold detectStart at hfirst hfirst'
    simp only [hstart] at hfirst hfirst'
    split at hfirst
    · split at hfirst'
      · exact (Except.ok.inj hfirst').symm.trans (Except.ok.inj hfirst)
      · cases hfirst'
    · cases hfirst
  have hname : d'.displayName = d.displayName := by rw [h.rest]; rfl
  have hinputs : d'.inputs = d.inputs := by rw [h.rest]
  have houtputs : d'.outputs = d.outputs := by rw [h.rest]
  have hmode : d'.mode = d.mode := by rw [h.rest]
  exact {
    missing := fun id hnone => (hpipeline id).trans hnone
    successor? := hsuccessor
    start := hstarted
    inputs := hinputs
    outputs := houtputs
    maxSteps := rfl
    pipeline? := hpipeline
    identity := congrArg options.identity.getD hname
    stepIds := h.steps.map _
    mode := congrArg options.mode.getD hmode
    limits := rfl
    warnings := hs.warnings_perm h hs' }

/-- Entering either plan leaves the same context, but for order. -/
theorem Reorders.enter (h : plan.Reorders plan') (context : Context) (bindings : Fields) :
    (plan.enter context bindings).Reorders (plan'.enter context bindings) := by
  have hguarded := ((Context.Reorders.refl context).guardKeys h.stepIds).guardKeys
    (List.Perm.of_eq (congrArg Assoc.keys h.inputs))
  exact (hguarded.insertAll bindings).warn h.warnings

end Plan

/-! ### Runs -/

/-- A result with the same warnings, in some order, and otherwise the same, the findings about the graph apart. -/
structure RunResult.Reorders (r r' : RunResult) : Prop where
  status : r'.status = r.status
  errors : r'.errors = r.errors
  outputs : r'.outputs = r.outputs
  shared : r'.shared = r.shared
  warnings : r'.warnings.Perm r.warnings

theorem Report.Agrees.result_reorders {r r' : Report} (h : r.Agrees Context.Reorders r') :
    r.result.Reorders r'.result where
  status := h.status
  errors := by
    unfold result failures
    rw [h.fatal, h.errors]
  outputs := h.outputs
  shared := h.context.shared
  warnings := h.context.warnings

namespace Host

variable {host : Host} {plan plan' : Plan} {d : Document} {options : PlanOptions}

/-- A step of either plan comes to the same in contexts that differ in order. -/
theorem visit_reorders (hreg : host.registry.IgnoresOrder) (hb : Plan.build host.registry options d = .ok plan)
    (h : plan.Reorders plan') (run : Level → Report) {stepId : String} {p : Pipeline}
    (hp : plan.pipeline? stepId = some p) (bindings : Fields) {c c' : Context} (hc : c.Reorders c') :
    (visit (host.unitsOver run) plan bindings stepId p c).Agrees Context.Reorders
      (visit (host.unitsOver run) plan' bindings stepId p c') := by
  obtain ⟨step, _, entry, _, hkind, rfl⟩ := Plan.pipeline?_eq_some hb hp
  let p := Plan.pipelineOf options step entry
  have hunit : (host.unitOf run p).IgnoresOrder := unitOf_ignoresOrder hreg run hkind rfl
  obtain ⟨outcome, left, left', heq, heq', hleft⟩ := p.layer_ignoresOrder hunit ⟨c, [], bindings, plan.mode⟩ c' hc
  have hvisit : visit (host.unitsOver run) plan bindings stepId p c = ⟨stepId, c, outcome, left⟩ :=
    congrArg (fun ended : StepOutcome × Context => Visit.mk stepId c ended.1 ended.2) heq
  have hvisit' : visit (host.unitsOver run) plan' bindings stepId p c' = ⟨stepId, c', outcome, left'⟩ := by
    unfold visit
    rw [h.mode]
    exact congrArg (fun ended : StepOutcome × Context => Visit.mk stepId c' ended.1 ended.2) heq'
  rw [hvisit, hvisit']
  exact ⟨rfl, hc, rfl, hleft⟩

theorem execute_reorders (hreg : host.registry.IgnoresOrder) (hb : Plan.build host.registry options d = .ok plan)
    (h : plan.Reorders plan') (run : Level → Report) (context : Context) (params : Fields) :
    (plan.execute (host.unitsOver run) context params).Agrees Context.Reorders
      (plan'.execute (host.unitsOver run) context params) := by
  have hstep : ∀ bindings id p, plan.pipeline? id = some p → ∃ p', plan'.pipeline? id = some p' ∧
      ∀ c c', Context.Reorders c c' →
        (visit (host.unitsOver run) plan bindings id p c).Agrees Context.Reorders
            (visit (host.unitsOver run) plan' bindings id p' c') ∨
          ∃ fault, (visit (host.unitsOver run) plan bindings id p c).outcome = .aborted fault ∧ False := by
    intro bindings id p hp
    exact ⟨p, (h.pipeline? id).trans hp, fun c c' hc => .inl (visit_reorders hreg hb h run hp bindings hc)⟩
  have hagrees := h.toParallels.execute Context.agreement_reorders hstep (.refl context) (h.enter context) params
  -- No step is cut off, so the runs agree to their end.
  exact hagrees.resolve_right (by simp)

/-- The order in which a document lists its steps and edges carries no meaning in a run: with its start named and no two
edges against each other, a document comes to the same in any order in which it can be built, and to the same warnings
but for their order. -/
theorem run_reorders (host : Host) (hreg : host.registry.IgnoresOrder) {d d' : Document} (h : d.Reorders d')
    (hu : d.Unambiguous) (hstart : d.start.isSome) (params : Fields) (options : PlanOptions)
    (hp : (host.plan d params options).toOption.isSome) (hp' : (host.plan d' params options).toOption.isSome) :
    (host.run d params options).Reorders (host.run d' params options) := by
  cases hplan : host.plan d params options with
  | error fault =>
    rw [hplan] at hp
    cases hp
  | ok plan =>
    cases hplan' : host.plan d' params options with
    | error fault =>
      rw [hplan'] at hp'
      cases hp'
    | ok plan' =>
      have hplans : plan.Reorders plan' := Plan.reorders_of_build h hu hstart hplan hplan'
      have hagrees := execute_reorders hreg hplan hplans (host.runWithin plan.limits.maxDepth)
        (.start [] (.root plan.identity)) params
      have hreport : (host.report (plan.top params)).Agrees Context.Reorders (host.report (plan'.top params)) := by
        rw [report_top, report_top, hplans.limits]
        simp only [Plan.top, Level.run, hplans.identity]
        exact hagrees
      unfold run
      rw [hplan, hplan']
      exact hreport.result_reorders

end Host

def readersDocument : Document where
  version := "1"
  name := none
  start := some "nap"
  steps :=
    [⟨"nap", "delay", none, [], none⟩, ⟨"first", "echo", none, [("v", .str "$\x7bnap.early\x7d")], none⟩,
      ⟨"second", "echo", none, [("v", .str "$\x7bnap.late\x7d")], none⟩]
  edges := [⟨"nap", "first", none⟩, ⟨"first", "second", none⟩]
  inputs := []
  outputs := []
  mode := .permissive

theorem run_reorders_readers :
    ∃ host : Host, ∃ d' : Document, readersDocument.Reorders d' ∧
      (host.run readersDocument [] {}).Reorders (host.run d' [] {}) ∧
      (host.run readersDocument [] {}).warnings ≠ (host.run d' [] {}).warnings := by
  let d' : Document :=
    { readersDocument with steps := readersDocument.steps.reverse, edges := readersDocument.edges.reverse }
  have hreorders : readersDocument.Reorders d' := ⟨List.reverse_perm _, List.reverse_perm _, rfl⟩
  refine ⟨⟨.builtin, .empty⟩, d', hreorders, ?_, by decide +kernel⟩
  refine Host.run_reorders _ Registry.builtin_ignoresOrder hreorders (by decide) rfl [] {} ?_ ?_
  · decide +kernel
  · decide +kernel

end Workflow
