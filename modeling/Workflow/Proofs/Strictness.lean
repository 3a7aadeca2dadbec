import Workflow.Proofs.Splitting
import Workflow.Proofs.Trail

/-! Strict mode. A unit is prepared only with parameters that are in order for what the scope holds at that moment; the
first call of a step whose parameters are not ends the run where it stands. -/

namespace Workflow

structure Context.SameState (c c' : Context) : Prop where
  data : c'.data = c.data
  completed : c'.journal.completed = c.journal.completed

/-- A batch that aborts has stored nothing, since its items run on copies. -/
theorem batchLayer_of_aborted {stepId : String} {batch : Batch} {maxErrors : Nat} {inner : Layer} {call : Call}
    {fault : Fault} (h : (batchLayer stepId batch maxErrors inner call).1 = .aborted fault) :
    call.context.SameState (batchLayer stepId batch maxErrors inner call).2 := by
  unfold batchLayer at h ⊢
  cases hi : resolveItems stepId batch call with
  | error cause => exact ⟨rfl, rfl⟩
  | ok resolved =>
    simp only [hi] at h ⊢
    split at h
    · cases h
    · exact ⟨rfl, rfl⟩
    · cases h

namespace Pipeline

variable {p : Pipeline} {unit : LeafUnit} {call a : Call} {fault : Fault}

/-- A step with a call that the leaf is kept from aborts, and leaves data and completed steps alone. -/
theorem layer_of_refused (ha : a ∈ p.attempts unit call) (h : p.core unit a = (.aborted fault, a.context)) :
    (p.layer unit call).1 = .aborted fault ∧ call.context.SameState (p.layer unit call).2 := by
  have haborted : (p.core unit a).1 = .aborted fault := by rw [h]
  obtain ⟨_, hbody⟩ := body_of_attempt_aborted unit ha haborted
  have hstate : call.context.SameState (p.body unit call).2 := by
    cases hb : p.batch with
    | none =>
      rw [attempts_single unit hb] at ha
      rw [List.mem_singleton.mp ha] at h
      rw [body_single unit hb, attempt, namespaceLayer, h]
      exact ⟨rfl, rfl⟩
    | some batch =>
      rw [body_batch unit hb] at hbody ⊢
      exact batchLayer_of_aborted hbody
  refine ⟨hbody, ?_⟩
  rw [layer, instrumentedLayer]
  simp only [hbody]
  exact ⟨hstate.data, hstate.completed⟩

end Pipeline

/-- A fault ends the run of a level at a visit: it is the last one, and afterwards the data and the completed steps are
those from before it. -/
structure Level.EndsAt (level : Level) (units : UnitMaker) (v : Visit) (fault : Fault) : Prop where
  outcome : v.outcome = .aborted fault
  last : ∃ before, (level.run units).visits = before ++ [v]
  report : (level.run units).EndedBy fault
  context : (level.run units).context = v.after
  state : v.before.SameState v.after

theorem Level.endsAt_of_refused {level : Level} {units : UnitMaker} {v : Visit} {p : Pipeline} {a : Call}
    {fault : Fault} (hv : v ∈ (level.run units).visits) (hp : level.plan.pipeline? v.stepId = some p)
    (ha : a ∈ p.attempts (units p.implementation p.site) (level.call v)) (h : p.handed a = .error fault) :
    level.EndsAt units v fault := by
  have hcore : p.core (units p.implementation p.site) a = (.aborted fault, a.context) := by
    rw [Pipeline.core_of_handed, h]
  obtain ⟨houtcome, hstate⟩ := Pipeline.layer_of_refused ha hcore
  rw [Level.visit_layer hv hp] at houtcome hstate
  obtain ⟨⟨before, hvisits, _⟩, hended⟩ := Level.run_of_aborted hv houtcome
  refine ⟨houtcome, ⟨before, hvisits⟩, hended, ?_, hstate⟩
  rcases level.run_cases units with ⟨cause, _, hrun⟩ | ⟨_, w, hrun, htrail⟩
  · rw [hrun] at hv
    exact absurd hv List.not_mem_nil
  · rw [hrun, Walk.report_visits] at hv
    obtain ⟨hending, hlast⟩ := htrail.ends_at_aborted hv houtcome
    rw [hrun, Walk.report, hending, ← hlast]
    rfl

/-- How strict mode deals with one call of the leaf of a step. -/
structure Level.Guards (level : Level) (units : UnitMaker) (v : Visit) (step : Step) (interface : Interface)
    (p : Pipeline) (a : Call) : Prop where
  /-- The unit is prepared with what is handed to the leaf, and not at all if that is a fault. -/
  leaf : ∀ unit, p.core unit a =
    match p.handed a with
    | .error fault => (.aborted fault, a.context)
    | .ok (params, context) => leafLayer p.stepId unit params ⟨context, [], a.bindings, a.mode⟩
  /-- Every reference finds something at that moment, and each parameter that is one reference is received with a value
  of its type. -/
  called : ∀ params context, p.handed a = .ok (params, context) →
    context.data = (level.call v).context.data ∧
      step.Resolvable interface level.plan.limits.maxTemplateDepth a.scope ∧
      ((Assoc.keys step.params).Nodup →
        ∀ key text, (key, .str text) ∈ step.params → interface.isVerbatim key = false →
          ∀ r, Template.simpleReference text = some r → ∀ type, interface.paramType? key = some type →
            ∃ w, Assoc.get? params key = some w ∧ type.accepts w = true)
  /-- Parameters that are not in order keep the leaf from being called, and one of them is the end of the run. -/
  refused : ¬ step.Resolvable interface level.plan.limits.maxTemplateDepth a.scope →
    ∃ key value fault, (key, value) ∈ step.params ∧ interface.isVerbatim key = false ∧
      ¬ interface.Fits level.plan.limits.maxTemplateDepth a.scope key value ∧ fault.IsAbout step.id key ∧
      p.handed a = .error fault ∧ level.EndsAt units v fault

theorem Level.guards_of_strict {host : Host} {level : Level} {units : UnitMaker} {v : Visit} {p : Pipeline}
    {step : Step} {entry : RegistryEntry} {a : Call} (hd : level.Declares host v.stepId p step entry)
    (hmode : level.plan.mode = .strict) (hv : v ∈ (level.run units).visits)
    (ha : a ∈ p.attempts (units p.implementation p.site) (level.call v)) :
    level.Guards units v step entry.interface p a := by
  obtain ⟨hp, _, _, options, d, _, _, rfl, hlimits⟩ := hd
  have hstrict : a.mode = .strict := (Pipeline.attempts_mode ha).trans hmode
  refine ⟨fun unit => Pipeline.core_of_handed unit a, ?_, ?_⟩
  · intro params context hok
    obtain ⟨inner, hinner, _, rfl⟩ := Pipeline.handed_eq_ok hok
    have hissues : (Plan.pipelineOf options step entry).issues a = [] := by
      cases hissues : (Plan.pipelineOf options step entry).issues a with
      | nil => rfl
      | cons issue rest =>
        rw [Pipeline.leafCall_strict hstrict hissues] at hinner
        cases hinner
    have hresolvable := Plan.issues_eq_nil_iff.mp hissues
    refine ⟨?_, hlimits ▸ hresolvable, ?_⟩
    · have hdata := Pipeline.attempts_data ha
      rw [Pipeline.leafCall_eq_settled hinner]
      exact hdata
    · intro hn key text hmem hplain r hsimple type htype
      obtain ⟨w, hw, haccepts⟩ := (hresolvable key _ hmem hplain).typed text rfl r hsimple type htype
      exact ⟨w, Plan.get?_handed (Pipeline.attempts_params ha rfl) hn hok hmem hplain hsimple hw, haccepts⟩
  · intro hnot
    cases hissues : (Plan.pipelineOf options step entry).issues a with
    | nil => exact absurd (hlimits ▸ Plan.issues_eq_nil_iff.mp hissues) hnot
    | cons fault rest =>
      have hfirst : fault ∈ (Plan.pipelineOf options step entry).issues a := by
        rw [hissues]
        exact List.mem_cons_self
      obtain ⟨key, value, hmem, hplain, habout, hfits⟩ := Plan.mem_issues hfirst
      have hhanded : (Plan.pipelineOf options step entry).handed a = .error fault :=
        Pipeline.handed_of_leafCall_error (Pipeline.leafCall_strict hstrict hissues)
      exact ⟨key, value, fault, hmem, hplain, hlimits ▸ hfits, habout, hhanded,
        Level.endsAt_of_refused hv hp ha hhanded⟩

/-- In every level of a run whose mode is strict, each call of the leaf of each step that is taken is guarded. The
levels of a run differ only in how their children run, so that is left open. -/
theorem Host.strict_levels_guard (host : Host) {d : Document} {params : Fields} {options : PlanOptions} {plan : Plan}
    (hplan : host.plan d params options = .ok plan) {k : Nat} {level : Level}
    (hlevel : ⟨k, .opened level⟩ ∈ host.record (plan.top params)) (hmode : level.plan.mode = .strict)
    (run : Level → Report) {v : Visit} (hv : v ∈ (level.run (host.unitsOver run)).visits) :
    level.plan.limits = options.limits ∧
      ∃ p step entry, level.Declares host v.stepId p step entry ∧
        ∀ a ∈ p.attempts (host.unitOf run p) (level.call v),
          level.Guards (host.unitsOver run) v step entry.interface p a := by
  have hbuilt := built_of_recordWithin _ (top_built hplan) hlevel
  obtain ⟨p, hp, _⟩ := Level.visit_eq hv
  obtain ⟨step, entry, hd⟩ := hbuilt.declares hp
  exact ⟨hbuilt.limits_eq, p, step, entry, hd, fun a ha => Level.guards_of_strict hd hmode hv ha⟩

/-- Tags each item of a list, and has a step that would take over from a failure. -/
def tagDocument : Document where
  version := "1"
  name := none
  start := none
  steps :=
    [⟨"tag", "echo", none, [("action", .str "$\x7bitem\x7d"), ("of", .arr [.str "$\x7bitem\x7d in $\x7blist\x7d"])],
        some ⟨"$\x7blist\x7d", "item", .carryOn⟩⟩,
      ⟨"rescue", "echo", none, [], none⟩]
  edges := [⟨"tag", "rescue", some "error"⟩]
  inputs := []
  outputs := []
  mode := .strict

/-- An item of the wrong type ends the run, although the batch would carry on after a failure. -/
theorem strict_levels_guard_tag :
    ∃ host : Host, ∃ plan, host.plan tagDocument [("list", .arr [.str "first", .int 2])] {} = .ok plan ∧
      ∃ v ∈ ((plan.top [("list", .arr [.str "first", .int 2])]).run (host.units 10)).visits,
        v.outcome = .aborted (.typeMismatch "tag" "action" "$\x7bitem\x7d" "str" "int" "Expected str, got int") ∧
        ∃ p step entry,
          (plan.top [("list", .arr [.str "first", .int 2])]).Declares host v.stepId p step entry ∧
          ∀ a ∈ p.attempts (host.unitOf (host.runWithin 10) p)
              ((plan.top [("list", .arr [.str "first", .int 2])]).call v),
            (plan.top [("list", .arr [.str "first", .int 2])]).Guards (host.units 10) v step entry.interface p a := by
  let host : Host := ⟨.builtin, .empty⟩
  let params : Fields := [("list", .arr [.str "first", .int 2])]
  let fault : Fault := .typeMismatch "tag" "action" "$\x7bitem\x7d" "str" "int" "Expected str, got int"
  have hends : ((host.plan tagDocument params {}).toOption.any fun plan =>
      plan.mode = .strict && ((plan.top params).run (host.units 10)).visits.any fun v =>
        v.outcome = .aborted fault) = true := by decide +kernel
  cases hp : host.plan tagDocument params {} with
  | error cause =>
    rw [hp] at hends
    cases hends
  | ok plan =>
    rw [hp] at hends
    simp only [Except.toOption, Option.any_some, Bool.and_eq_true, decide_eq_true_eq, List.any_eq_true] at hends
    obtain ⟨hmode, v, hv, houtcome⟩ := hends
    have htop : ⟨0, .opened (plan.top params)⟩ ∈ host.record (plan.top params) := List.mem_cons_self
    obtain ⟨_, p, step, entry, hd, hguards⟩ := Host.strict_levels_guard host hp htop hmode (host.runWithin 10) hv
    exact ⟨host, plan, hp, v, hv, houtcome, p, step, entry, hd, hguards⟩

/-- Runs a workflow that a reference stands for, although the parameter is verbatim. -/
def verbatimDocument : Document where
  version := "1"
  name := none
  start := none
  steps :=
    [⟨"call", "workflow", none, [("workflow_ir", .str "$\x7bx\x7d")], none⟩,
      ⟨"rescue", "echo", none, [], none⟩]
  edges := [⟨"call", "rescue", some "error"⟩]
  inputs := []
  outputs := []
  mode := .strict

/-- A verbatim parameter that is one reference is received as it is written, whatever type is declared for it. In strict
mode the leaf is called all the same, its step merely fails, and the walk goes on. -/
theorem strict_hands_on_verbatim :
    ∃ host : Host, ∃ plan, host.plan verbatimDocument [("x", .int 5)] {} = .ok plan ∧ plan.mode = .strict ∧
      (∃ type, Registry.subworkflowEntry.interface.paramType? "workflow_ir" = some type ∧
        (Template.simpleReference "$\x7bx\x7d").isSome ∧ type.accepts (.str "$\x7bx\x7d") = false) ∧
      (∃ p, plan.pipeline? "call" = some p ∧
        ∃ v ∈ ((plan.top [("x", .int 5)]).run (host.units 10)).visits,
          v.stepId = "call" ∧ ∃ a ∈ p.attempts (host.unitOf (host.runWithin 10) p) ((plan.top [("x", .int 5)]).call v),
            ∃ params context, p.handed a = .ok (params, context) ∧
              Assoc.get? params "workflow_ir" = some (.str "$\x7bx\x7d")) ∧
      (host.run verbatimDocument [("x", .int 5)] {}).status = .degraded ∧
      (host.run verbatimDocument [("x", .int 5)] {}).completed = ["rescue"] := by
  let host : Host := ⟨.builtin, .empty⟩
  let params : Fields := [("x", .int 5)]
  have hcalled : ((host.plan verbatimDocument params {}).toOption.any fun plan =>
      plan.mode = .strict && (plan.pipeline? "call").any fun p =>
        ((plan.top params).run (host.units 10)).visits.any fun v =>
          v.stepId = "call" && (p.attempts (host.unitOf (host.runWithin 10) p) ((plan.top params).call v)).any fun a =>
            (p.handed a).toOption.any fun given =>
              Assoc.get? given.1 "workflow_ir" = some (.str "$\x7bx\x7d")) = true := by decide +kernel
  cases hp : host.plan verbatimDocument params {} with
  | error cause =>
    rw [hp] at hcalled
    cases hcalled
  | ok plan =>
    rw [hp] at hcalled
    simp only [Except.toOption, Option.any_some, Bool.and_eq_true, decide_eq_true_eq, List.any_eq_true,
      Option.any_eq_true] at hcalled
    obtain ⟨hmode, p, hpipeline, v, hv, hid, a, ha, hgiven⟩ := hcalled
    refine ⟨host, plan, hp, hmode, ⟨.parse "dict", rfl, by decide +kernel, by decide +kernel⟩,
      ⟨p, hpipeline, v, hv, hid, a, ha, ?_⟩, by decide +kernel, by decide +kernel⟩
    cases hh : p.handed a with
    | error fault =>
      rw [hh] at hgiven
      simp at hgiven
    | ok given =>
      rw [hh] at hgiven
      obtain ⟨params, context⟩ := given
      refine ⟨params, context, rfl, ?_⟩
      simpa using hgiven

end Workflow
