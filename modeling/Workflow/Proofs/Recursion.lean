import Workflow.Proofs.Modes
import Workflow.Proofs.Nesting
import Workflow.Proofs.Trail

/-! When the guard against recursion trips. A document that a step holds itself runs under an identity made from the id
of the step alone, so two steps of one id on a line of documents inside one another are taken for one. Where no line has
two, a run over documents that all hold one another never meets the guard. -/

namespace Workflow

def Fault.isCircular : Fault → Bool
  | .circularWorkflow .. => true
  | _ => false

theorem Fault.isCircular_of_issue {fault : Fault} (h : fault.isIssue = true) : fault.isCircular = false := by
  cases fault <;> first | rfl | cases h

/-- The fault with which an event ends a run. -/
def Event.fault? : Event → Option Fault
  | .tripped _ fault => some fault
  | .attempted _ _ (.aborted fault) _ => some fault
  | .ended ⟨_, _, .aborted fault, _⟩ => some fault
  | _ => none

theorem Pipeline.isIssue_of_leafCall {p : Pipeline} {call : Call} {fault : Fault} (h : p.leafCall call = .error fault) :
    fault.isIssue = true := by
  cases hmode : call.mode with
  | permissive =>
    rw [leafCall_permissive hmode] at h
    cases h
  | strict =>
    cases hissues : p.issues call with
    | nil =>
      rw [leafCall_of_no_issues hissues] at h
      cases h
    | cons issue rest =>
      rw [leafCall_strict hmode hissues] at h
      cases h
      have hmem : fault ∈ p.issues call := by
        rw [hissues]
        exact List.mem_cons_self
      obtain ⟨e, _, he⟩ := List.mem_filterMap.mp hmem
      exact paramIssue?_isIssue he

theorem isIssue_of_resolveItems {stepId : String} {batch : Batch} {call : Call} {fault : Fault}
    (h : resolveItems stepId batch call = .error fault) : fault.isIssue = true := by
  have hsettled (issue : Fault) (hissue : issue.isIssue = true)
      (h : (call.mode.settle issue call.context.journal.warnings).map (fun w => (([] : List Json), w)) =
        .error fault) : fault.isIssue = true := by
    cases hmode : call.mode with
    | strict =>
      rw [hmode] at h
      cases h
      exact hissue
    | permissive =>
      rw [hmode] at h
      cases h
  unfold resolveItems at h
  simp only at h
  split at h
  · split at h
    · cases h
    · exact hsettled _ rfl h
  · exact hsettled _ rfl h

/-! ### Documents inside one another -/

def Step.Calls (registry : Registry) (step : Step) : Prop :=
  ∃ entry, Assoc.get? registry step.kind = some entry ∧ entry.implementation = .subworkflow

/-- Every workflow step holds its document itself, at every depth, and has an id that is allowed below the ids of the
workflow steps that it is inside of. -/
inductive Document.Nests (registry : Registry) (allowed : List String → String → Prop) :
    List String → Document → Prop where
  | intro {above : List String} {d : Document}
      (inline : ∀ step ∈ d.steps, step.Calls registry → "workflow_ref" ∉ Assoc.keys step.params)
      (ids : ∀ step ∈ d.steps, step.Calls registry → allowed above step.id)
      (nested : ∀ step ∈ d.steps, step.Calls registry → ∀ v child, ("workflow_ir", v) ∈ step.params →
        Document.ofValue v = .ok child → Nests registry allowed (above ++ [step.id]) child) :
      Nests registry allowed above d

/-- The run does not go by the identity of a step of this id. -/
def OtherThan (identity : String) (_above : List String) (id : String) : Prop := identity ≠ "inline:" ++ id

/-- Neither the run nor a step that this one is inside of goes by the identity of a step of this id. -/
def NotInProgress (identity : String) (above : List String) (id : String) : Prop :=
  OtherThan identity above id ∧ id ∉ above

theorem NotInProgress.not_mem {identity id : String} {above : List String} (h : NotInProgress identity above id) :
    "inline:" ++ id ∉ identity :: above.map fun id => "inline:" ++ id := by
  rw [List.mem_cons, not_or]
  refine ⟨fun heq => h.1 heq.symm, fun hmem => h.2 ?_⟩
  obtain ⟨other, hother, heq⟩ := List.mem_map.mp hmem
  have hsame : other = id := by
    have hchars := congrArg String.toList heq
    rw [String.toList_append, String.toList_append] at hchars
    exact String.toList_injective (List.append_cancel_left hchars)
  exact hsame ▸ hother

/-- Inline documents reach their steps as they are written. -/
def Registry.InlinesVerbatim (registry : Registry) : Prop :=
  ∀ kind entry, Assoc.get? registry kind = some entry → entry.implementation = .subworkflow →
    entry.interface.isVerbatim "workflow_ir" = true

/-- No unit that the registry makes passes a fault of its own off as recursion. Of units of other makes this assumes that
they leave it to the guards to tell of workflows in progress, which is what the frames are documented to be for. -/
def Registry.RaisesNoCircle (registry : Registry) : Prop :=
  ∀ kind entry make, Assoc.get? registry kind = some entry → entry.implementation = .leaf make →
    ∀ site fault, (make site).Raises fault → fault.isCircular = false

/-! ### Targets -/

namespace Plan

variable {options : PlanOptions} {step : Step} {entry : RegistryEntry}

/-- What is not resolved for a call reaches the leaf as it is written. -/
theorem get?_params_of_untemplated {a call : Call} (hempty : a.params = [])
    (hc : (pipelineOf options step entry).leafCall a = .ok call) {key : String}
    (hkey : key ∉ Assoc.keys (pipelineOf options step entry).templated) :
    Assoc.get? (Assoc.putAll (pipelineOf options step entry).literals call.params) key =
      Assoc.get? (pipelineOf options step entry).literals key := by
  have hparams : key ∉ Assoc.keys call.params := by
    rw [Pipeline.leafCall_eq_settled hc, Pipeline.settled, hempty, ← Assoc.get?_isSome_iff, Assoc.get?_putAll,
      Assoc.get?_nil, Option.or_none, Assoc.last?_isSome_iff]
    intro hmem
    rw [Assoc.keys, List.map_map] at hmem
    exact hkey hmem
  rw [Assoc.get?_putAll, Assoc.last?_eq_none_of_not_mem hparams, Option.none_or]

theorem mem_params_of_templated {key : String} (h : key ∈ Assoc.keys (pipelineOf options step entry).templated) :
    key ∈ Assoc.keys step.params ∧ entry.interface.isVerbatim key = false := by
  obtain ⟨⟨k, v⟩, he, rfl⟩ := List.mem_map.mp h
  obtain ⟨hv, _, hplain⟩ := mem_templated.mp he
  exact ⟨List.mem_map.mpr ⟨_, hv, rfl⟩, hplain⟩

theorem mem_params_of_literal {e : String × Json} (h : e ∈ (pipelineOf options step entry).literals) :
    e ∈ step.params := by
  simp only [pipelineOf, List.partition_eq_filter_filter] at h
  exact (List.mem_filter.mp h).1

end Plan

namespace Subworkflow

/-- Without a reference only an inline document is found. -/
theorem locate_inline {files : FileTree} {site : Site} {params : Fields} {target : Target}
    (hnone : Assoc.get? params "workflow_ref" = none) (h : locate files site params = .ok target) :
    ∃ v, Assoc.get? params "workflow_ir" = some v ∧ target.source = .inline v ∧
      target.identity = "inline:" ++ site.stepId := by
  unfold locate at h
  rw [hnone] at h
  split at h
  · rename_i heq _
    cases heq
  · rename_i fields _ hinline
    cases h
    exact ⟨_, hinline, rfl, rfl⟩
  · rename_i heq _
    cases heq
  · cases h
  · cases h

theorem isCircular_of_checkGuards {frame : CallFrame} {limit : Nat} {identity : String} {fault : Fault}
    (hnew : identity ∉ frame.stack) (h : checkGuards frame limit identity = .error (.fatal fault)) :
    fault.isCircular = false := by
  unfold checkGuards at h
  split at h
  · cases h
    rfl
  · split at h
    · rename_i hcontains
      exact absurd (List.contains_iff_mem.mp hcontains) hnew
    · cases h

end Subworkflow

/-! ### Levels -/

/-- The plan of a level was built from a document that nests its workflows, and the stack of the level tells the steps
that the document is inside of. -/
structure Level.Unfolds (host : Host) (limits : Limits) (identity : String) (above : List String) (level : Level) :
    Prop where
  bounded : level.Bounded host.registry limits
  document : ∃ options d, Plan.build host.registry options d = .ok level.plan ∧
    d.Nests host.registry (NotInProgress identity) above
  stack : level.context.frame.stack = identity :: above.map fun id => "inline:" ++ id

namespace Level.Unfolds

variable {host : Host} {limits : Limits} {identity : String} {above : List String} {level child : Level}
  {run : Level → Report} {record : Level → List Entry} {v : Visit} {p : Pipeline} {a call : Call}

/-- A workflow step of the level comes to an identity that is not in progress, and its document nests on from there. -/
theorem target (hu : level.Unfolds host limits identity above) (hverbatim : host.registry.InlinesVerbatim)
    (hp : level.plan.pipeline? v.stepId = some p) (hw : p.implementation = .subworkflow)
    (ha : a ∈ p.attempts (host.unitOf run p) (level.call v)) (hc : p.leafCall a = .ok call) {target : Subworkflow.Target}
    (ht : Subworkflow.locate host.files p.site (Assoc.putAll p.literals call.params) = .ok target) :
    ∃ id, target.identity = "inline:" ++ id ∧ NotInProgress identity above id ∧
      ∀ d, Subworkflow.load host.files target = .ok d →
        d.Nests host.registry (NotInProgress identity) (above ++ [id]) := by
  obtain ⟨options, d, hb, hnests⟩ := hu.document
  obtain ⟨step, hstep, entry, hid, hkind, rfl⟩ := Plan.pipeline?_eq_some hb hp
  cases hnests with
  | intro inline ids nested =>
    have hcalls : step.Calls host.registry := ⟨entry, hkind, hw⟩
    have hempty : a.params = [] := Pipeline.attempts_params ha rfl
    have hnone : Assoc.get? (Assoc.putAll (Plan.pipelineOf options step entry).literals call.params) "workflow_ref" =
        none := by
      have hkey := inline step hstep hcalls
      rw [Plan.get?_params_of_untemplated hempty hc fun hmem => hkey (Plan.mem_params_of_templated hmem).1]
      refine Assoc.get?_eq_none_of_not_mem fun hmem => hkey ?_
      obtain ⟨e, he, heq⟩ := List.mem_map.mp hmem
      exact List.mem_map.mpr ⟨e, Plan.mem_params_of_literal he, heq⟩
    obtain ⟨v, hv, hsource, hidentity⟩ := Subworkflow.locate_inline hnone ht
    have hwritten : ("workflow_ir", v) ∈ step.params := by
      rw [Plan.get?_params_of_untemplated hempty hc fun hmem => ?_] at hv
      · exact Plan.mem_params_of_literal (Assoc.mem_of_get? hv)
      · have hplain := (Plan.mem_params_of_templated hmem).2
        rw [hverbatim step.kind entry hkind hw] at hplain
        cases hplain
    refine ⟨step.id, hidentity, ids step hstep hcalls, fun child hload => ?_⟩
    have hloaded := mapError_eq_ok.mp hload
    rw [hsource] at hloaded
    exact nested step hstep hcalls v child hwritten hloaded

theorem caller_frame (hu : level.Unfolds host limits identity above) (hreg : host.registry.KeepsFrame)
    (hv : v ∈ (level.run (host.unitsOver run)).visits) (ha : a ∈ p.attempts (host.unitOf run p) (level.call v))
    (hc : p.leafCall a = .ok call) : call.context.frame = level.context.frame := by
  rw [Pipeline.leafCall_frame hc, Pipeline.attempts_frame ha]
  exact (hu.bounded.visit_frames hreg hv).1

/-- The guard of a step refuses a level for its depth, or not at all. -/
theorem opened (hu : level.Unfolds host limits identity above) (hreg : host.registry.KeepsFrame)
    (hverbatim : host.registry.InlinesVerbatim) (hv : v ∈ (level.run (host.unitsOver run)).visits)
    (hp : level.plan.pipeline? v.stepId = some p) (hw : p.implementation = .subworkflow)
    (ha : a ∈ p.attempts (host.unitOf run p) (level.call v)) (hc : p.leafCall a = .ok call) {fault : Fault}
    (h : host.opened p call = .error (.fatal fault)) : fault.isCircular = false := by
  obtain ⟨_, target, _, ht, hguard⟩ := Host.opened_eq_fatal.mp h
  obtain ⟨id, hidentity, hnew, _⟩ := hu.target hverbatim hp hw ha hc ht
  rw [hu.caller_frame hreg hv ha hc] at hguard
  refine Subworkflow.isCircular_of_checkGuards ?_ hguard
  rw [hidentity, hu.stack]
  exact hnew.not_mem

/-- A level that is opened unfolds inside one step more. -/
theorem opens (hu : level.Unfolds host limits identity above) (hreg : host.registry.KeepsFrame)
    (hverbatim : host.registry.InlinesVerbatim) (h : host.Opens run level child) :
    ∃ id, child.Unfolds host limits identity (above ++ [id]) := by
  have hbounded := (hu.bounded.opens hreg h).1
  obtain ⟨v, hv, p, hp, a, ha, hchild⟩ := h
  obtain ⟨hw, call, hc, ho⟩ := Host.child?_eq_some hchild
  rw [Host.opened_eq] at ho
  obtain ⟨i, hi, hopen⟩ := bind_eq_ok.mp ho
  have hprepares := Subworkflow.prepares_of_invocation hi
  obtain ⟨target, ht, _, hload, hname, _⟩ := hprepares.target
  obtain ⟨id, hidentity, _, hnested⟩ := hu.target hverbatim hp hw ha hc ht
  obtain ⟨hbuild, _, hframe⟩ := Subworkflow.openLevel_eq_ok hopen
  refine ⟨id, hbounded, ⟨_, i.document, hbuild, hnested _ hload⟩, ?_⟩
  rw [hframe, hprepares.frame, hname, hidentity, hu.caller_frame hreg hv ha hc, CallFrame.enter, hu.stack,
    List.map_append]
  rfl

/-- An attempt does not abort over recursion if no child that it opens has ended so. -/
theorem core (hu : level.Unfolds host limits identity above) (hreg : host.registry.KeepsFrame)
    (hverbatim : host.registry.InlinesVerbatim) (hraises : host.registry.RaisesNoCircle)
    (hchildren : ∀ child, host.Opens run level child → ∀ fault, (run child).fatal = some fault →
      fault.isCircular = false) (hv : v ∈ (level.run (host.unitsOver run)).visits)
    (hp : level.plan.pipeline? v.stepId = some p) (ha : a ∈ p.attempts (host.unitOf run p) (level.call v))
    {fault : Fault} (h : (p.core (host.unitOf run p) a).1 = .aborted fault) : fault.isCircular = false := by
  rcases Host.core_aborted_cases h with hc | ⟨make, hw, hraised⟩ | ⟨hw, _, call, hc, ho | ⟨child, ho, hfatal⟩⟩
  · exact Fault.isCircular_of_issue (Pipeline.isIssue_of_leafCall hc)
  · obtain ⟨_, kind, entry, hentry, himpl⟩ := hu.bounded.pipelines _ p hp
    exact hraises kind entry make hentry (himpl ▸ hw) p.site fault hraised
  · exact hu.opened hreg hverbatim hv hp hw ha hc ho
  · refine hchildren child ⟨v, hv, p, hp, a, ha, ?_⟩ fault hfatal
    unfold Host.child?
    simp only [hw, hc, ho]

/-- One level: if no child has ended over recursion, and nothing in the children tells of it, the level has not either,
and nothing in it does. -/
theorem step (hu : level.Unfolds host limits identity above) (hreg : host.registry.KeepsFrame)
    (hverbatim : host.registry.InlinesVerbatim) (hraises : host.registry.RaisesNoCircle)
    (hchildren : ∀ child, host.Opens run level child → ∀ fault, (run child).fatal = some fault →
      fault.isCircular = false)
    (hrecords : ∀ child, host.Opens run level child → ∀ e ∈ record child, ∀ fault, e.event.fault? = some fault →
      fault.isCircular = false) :
    (∀ fault, (level.run (host.unitsOver run)).fatal = some fault → fault.isCircular = false) ∧
      ∀ e ∈ host.levelEntries run record level, ∀ fault, e.event.fault? = some fault → fault.isCircular = false := by
  have hcore : ∀ v ∈ (level.run (host.unitsOver run)).visits, ∀ p, level.plan.pipeline? v.stepId = some p →
      ∀ a ∈ p.attempts (host.unitOf run p) (level.call v), ∀ fault,
        (p.core (host.unitOf run p) a).1 = .aborted fault → fault.isCircular = false :=
    fun v hv p hp a ha fault h => hu.core hreg hverbatim hraises hchildren hv hp ha h
  have hvisit : ∀ v ∈ (level.run (host.unitsOver run)).visits, ∀ fault, v.outcome = .aborted fault →
      fault.isCircular = false := by
    intro v hv fault h
    obtain ⟨p, hp, ⟨batch, _, hitems⟩ | ⟨a, ha, haborted⟩⟩ := Level.aborted_cases hv h
    · exact Fault.isCircular_of_issue (isIssue_of_resolveItems hitems)
    · exact hcore v hv p hp a ha fault haborted
  refine ⟨?_, ?_⟩
  · intro fault hfatal
    obtain ⟨options, d, hb, _⟩ := hu.document
    rcases execute_fatal_cases hb (host.unitsOver run) level.context level.params hfatal with
      hbind | ⟨v, hlast, hv⟩ | ⟨rfl, _⟩
    · unfold bindInputs at hbind
      simp only at hbind
      split at hbind <;> cases hbind
      rfl
    · exact hvisit v (List.mem_of_getLast? hlast) fault hv
    · rfl
  · intro e he fault hfault
    rcases Host.levelEntries_cases he with rfl | ⟨v, hv, rfl | ⟨p, hp, a, ha, he⟩⟩
    · cases hfault
    · refine hvisit v hv fault ?_
      obtain ⟨stepId, before, outcome, after⟩ := v
      cases outcome <;> cases hfault
      rfl
    · rcases List.mem_append.mp he with he | he
      · rcases Host.mem_childEntries.mp he with ⟨child, hchild, inner, hinner, rfl⟩ | ⟨cause, hchild, rfl⟩
        · exact hrecords child ⟨v, hv, p, hp, a, ha, hchild⟩ inner hinner fault hfault
        · obtain ⟨hw, call, hc, ho⟩ := Host.child?_eq_some hchild
          cases hfault
          exact hu.opened hreg hverbatim hv hp hw ha hc ho
      · cases List.mem_singleton.mp he
        refine hcore v hv p hp a ha fault ?_
        rw [← Pipeline.attempt_outcome]
        cases hattempt : (p.attempt (host.unitOf run p) a).1 <;> rw [hattempt] at hfault <;> cases hfault
        rfl

end Level.Unfolds

/-- However many levels are left, no level inside such a document ends over recursion. -/
theorem Host.runWithin_unfolds {host : Host} {limits : Limits} (hreg : host.registry.KeepsFrame)
    (hverbatim : host.registry.InlinesVerbatim) (hraises : host.registry.RaisesNoCircle) (levels : Nat)
    {identity : String} {above : List String} {level : Level} (hu : level.Unfolds host limits identity above) :
    (∀ fault, (host.runWithin levels level).fatal = some fault → fault.isCircular = false) ∧
      ∀ e ∈ host.recordWithin levels level, ∀ fault, e.event.fault? = some fault → fault.isCircular = false := by
  induction levels generalizing level above with
  | zero =>
    refine ⟨?_, fun e he => absurd he List.not_mem_nil⟩
    intro fault hfatal
    cases hfatal
    rfl
  | succ levels ih =>
    have hchildren : ∀ child, host.Opens (host.runWithin levels) level child →
        (∀ fault, (host.runWithin levels child).fatal = some fault → fault.isCircular = false) ∧
          ∀ e ∈ host.recordWithin levels child, ∀ fault, e.event.fault? = some fault → fault.isCircular = false := by
      intro child hopens
      obtain ⟨id, hchild⟩ := hu.opens hreg hverbatim hopens
      exact ih hchild
    exact hu.step hreg hverbatim hraises (fun child hopens => (hchildren child hopens).1)
      (fun child hopens => (hchildren child hopens).2)

/-- In a run of a document whose workflow steps hold their documents themselves, at every depth, no guard against
recursion trips and nothing ends over one, if no workflow step is inside another of the same id and the run does not go
by the identity of any. -/
theorem Host.nested_runs_without_circle (host : Host) (hreg : host.registry.KeepsFrame)
    (hverbatim : host.registry.InlinesVerbatim) (hraises : host.registry.RaisesNoCircle) {d : Document}
    {params : Fields} {options : PlanOptions}
    (hnests : d.Nests host.registry (NotInProgress (options.identity.getD d.displayName)) []) {plan : Plan}
    (hplan : host.plan d params options = .ok plan) :
    (∀ fault, (host.report (plan.top params)).fatal = some fault → fault.isCircular = false) ∧
      ∀ e ∈ host.record (plan.top params), ∀ fault, e.event.fault? = some fault → fault.isCircular = false := by
  have hidentity : plan.identity = options.identity.getD d.displayName := by
    obtain ⟨s, _, rfl⟩ := Plan.build_eq_ok_iff.mp hplan
    rfl
  have hu : (plan.top params).Unfolds host options.limits plan.identity [] := by
    rw [← hidentity] at hnests
    exact ⟨top_bounded hplan, ⟨_, d, hplan, hnests⟩, rfl⟩
  exact runWithin_unfolds hreg hverbatim hraises _ hu

theorem Registry.builtin_raisesNoCircle : Registry.builtin.RaisesNoCircle :=
  fun _ _ _ hentry hmake site fault hraises => absurd hraises (builtin_raises hentry hmake site fault)

theorem Registry.builtin_inlinesVerbatim : Registry.builtin.InlinesVerbatim := by
  intro kind entry hentry hw
  rcases builtin_cases hentry with rfl | rfl | rfl | rfl
  · cases hw
  · cases hw
  · cases hw
  · decide

/-- One step, which holds its document itself. -/
def holdingDocument (id : String) (inner : Document) : Document where
  version := "1"
  name := none
  start := none
  steps := [⟨id, "workflow", none, [("workflow_ir", inner.toJson)], none⟩]
  edges := []
  inputs := []
  outputs := []
  mode := .strict

def quietDocument : Document where
  version := "1"
  name := none
  start := none
  steps := [⟨"rest", "echo", none, [], none⟩]
  edges := []
  inputs := []
  outputs := []
  mode := .strict

theorem quietDocument_nests (allowed : List String → String → Prop) (above : List String) :
    quietDocument.Nests .builtin allowed above := by
  have hnone : ∀ step ∈ quietDocument.steps, ¬ step.Calls .builtin := by
    rintro step hstep ⟨entry, hentry, hw⟩
    rw [List.mem_singleton.mp hstep] at hentry
    cases hentry
    cases hw
  exact .intro (fun step hstep hcalls => absurd hcalls (hnone step hstep))
    (fun step hstep hcalls => absurd hcalls (hnone step hstep))
    (fun step hstep hcalls => absurd hcalls (hnone step hstep))

theorem holdingDocument_nests {allowed : List String → String → Prop} {above : List String} {id : String}
    {inner : Document} (hread : (Document.ofValue inner.toJson).toOption = some inner) (hid : allowed above id)
    (hinner : inner.Nests .builtin allowed (above ++ [id])) :
    (holdingDocument id inner).Nests .builtin allowed above := by
  refine .intro ?_ ?_ ?_
  · intro step hstep _
    rw [List.mem_singleton.mp hstep]
    simp [Assoc.keys]
  · intro step hstep _
    rw [List.mem_singleton.mp hstep]
    exact hid
  · intro step hstep _ v child hv hchild
    rw [List.mem_singleton.mp hstep] at hv ⊢
    cases List.mem_singleton.mp hv
    rw [hchild] at hread
    cases hread
    exact hinner

theorem nested_runs_without_circle_held :
    ∃ host : Host, ∃ d plan, d.Nests host.registry (NotInProgress d.displayName) [] ∧
      host.plan d [] {} = .ok plan ∧ (host.report (plan.top [])).status = .success ∧
      ∀ e ∈ host.record (plan.top []), ∀ fault, e.event.fault? = some fault → fault.isCircular = false := by
  let host : Host := ⟨.builtin, .empty⟩
  let d : Document := holdingDocument "outer" (holdingDocument "inner" quietDocument)
  have hnests : d.Nests host.registry (NotInProgress d.displayName) [] := by
    refine holdingDocument_nests (by decide +kernel) ⟨by unfold OtherThan; decide, by decide⟩ ?_
    refine holdingDocument_nests (by decide +kernel) ⟨by unfold OtherThan; decide, by decide⟩ ?_
    exact quietDocument_nests _ _
  have hended : ((host.plan d [] {}).toOption.any fun plan => (host.report (plan.top [])).status = .success) = true := by
    decide +kernel
  obtain ⟨plan, hp, hended⟩ := any_toOption.mp hended
  have hallowed : d.Nests host.registry (NotInProgress (({} : PlanOptions).identity.getD d.displayName)) [] := hnests
  have hruns := Host.nested_runs_without_circle host Registry.builtin_keepsFrame Registry.builtin_inlinesVerbatim
    Registry.builtin_raisesNoCircle hallowed hp
  exact ⟨host, d, plan, hnests, hp, of_decide_eq_true hended, hruns.2⟩

/-- A document inside a document ends the run as if it ran itself, only because their steps have one id. -/
theorem nested_twice_is_circular :
    (holdingDocument "sub" (holdingDocument "sub" quietDocument)).Nests .builtin
        (OtherThan (holdingDocument "sub" (holdingDocument "sub" quietDocument)).displayName) [] ∧
      ((Host.mk .builtin .empty).run (holdingDocument "sub" (holdingDocument "sub" quietDocument)) [] {}).errors =
        [⟨none, "WEAVE-051: Circular workflow reference: workflow -> inline:sub -> inline:sub", .recursion,
          some "execution", some "Remove the cycle - a workflow cannot call itself through its children"⟩] := by
  refine ⟨?_, by decide +kernel⟩
  refine holdingDocument_nests (by decide +kernel) (by unfold OtherThan; decide) ?_
  refine holdingDocument_nests (by decide +kernel) (by unfold OtherThan; decide) ?_
  exact quietDocument_nests _ _

end Workflow
