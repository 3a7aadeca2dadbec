import Workflow.Proofs.Journaling
import Workflow.Proofs.Nesting

/-! What one step does to the context of a run. A step that fails or aborts has written nothing but its own error, also
where it runs another workflow: the data of a child is taken over only in the last phase, which does not fail. A step
that completes has written its output under its own id, has copied it to the top where nothing is in the way, and has
written nothing else. -/

namespace Workflow

namespace Context

/-- The frame, the guarded keys and the list of completed steps are as they were. -/
structure Stays (c c' : Context) : Prop where
  frame : c'.frame = c.frame
  guarded : c'.guarded = c.guarded
  completed : c'.journal.completed = c.journal.completed

/-- The data is as it was, too: all that may differ are warnings and what else is noted of steps. -/
structure Untouched (c c' : Context) : Prop extends Stays c c', KeepsData c c'

theorem stays_written : Written Stays where
  refl _ := ⟨rfl, rfl, rfl⟩
  trans h h' := ⟨h'.frame.trans h.frame, h'.guarded.trans h.guarded, h'.completed.trans h.completed⟩
  warn _ _ := ⟨rfl, rfl, rfl⟩
  insert c key v := by
    unfold insert
    split <;> exact ⟨rfl, rfl, rfl⟩

/-- No write reaches a reserved key. -/
theorem reserved_written {key : String} (hkey : isReserved key = true) :
    Written fun c c' => Assoc.get? c'.data key = Assoc.get? c.data key where
  refl _ := rfl
  trans h h' := h'.trans h
  warn _ _ := rfl
  insert c k v := by
    unfold insert
    split
    · rfl
    · rename_i hk
      rw [Assoc.get?_put, if_neg]
      rintro rfl
      exact hk hkey

end Context

open Context (KeepsData Stays Untouched)

/-! ### What a step came to -/

/-- The trace that a step leaves in the context of a run, whatever it came to. -/
structure StepEffect (stepId : String) (before : Context) (outcome : StepOutcome) (after : Context) : Prop where
  aborted : ∀ fault, outcome = .aborted fault → after.data = before.data
  /-- A failure is stored under the id of the step, unless that is reserved, and nothing else is. -/
  failed : ∀ failure, outcome = .failed failure → ∀ key, Assoc.get? after.data key =
    if key = stepId ∧ isReserved stepId = false then some (.obj [("error", .str failure.message)])
    else Assoc.get? before.data key
  frame : after.frame = before.frame
  guarded : after.guarded = before.guarded
  recorded : ∀ values action, outcome = .completed values action →
    after.journal.completed = before.journal.completed ++ [stepId]
  unrecorded : (∀ values action, outcome ≠ .completed values action) →
    after.journal.completed = before.journal.completed

structure StepOutput (stepId : String) (before : Context) (values : Fields) (after : Context) : Prop where
  own : isReserved stepId = false → Assoc.get? after.data stepId = some (.obj values)
  copied : ∀ key v, Assoc.last? values key = some v → key ≠ stepId → before.isGuarded key = false →
    Assoc.get? after.data key = some v
  kept : ∀ key, ¬ (key = stepId ∧ isReserved stepId = false) →
    ¬ (key ∈ Assoc.keys values ∧ key ≠ stepId ∧ before.isGuarded key = false) →
    Assoc.get? after.data key = Assoc.get? before.data key

/-- A failure that has been stored is under the id of its step. -/
theorem get?_insert_own (c : Context) (stepId : String) (v : Json) (key : String) :
    Assoc.get? (c.insert stepId v).data key =
      if key = stepId ∧ isReserved stepId = false then some v else Assoc.get? c.data key := by
  cases hkey : isReserved key with
  | true =>
    rw [(Context.reserved_written hkey).insert, if_neg]
    rintro ⟨rfl, hid⟩
    rw [hkey] at hid
    cases hid
  | false =>
    rw [Context.get?_insert c stepId v hkey]
    by_cases hid : stepId = key
    · subst hid
      rw [if_pos rfl, if_pos ⟨rfl, hkey⟩]
    · rw [if_neg hid, if_neg fun h => hid h.1.symm]

theorem stepOutput_of_commit {c after : Context} {stepId : String} {values : Fields}
    (h : after.data = (c.commit stepId values).data) : StepOutput stepId c values after where
  own hid := by rw [h, Context.get?_commit c stepId values hid, if_pos rfl]
  copied key v hv hne hfree := by
    simp only [Context.isGuarded, Bool.or_eq_false_iff, List.contains_eq_mem, decide_eq_false_iff_not] at hfree
    rw [h, Context.get?_commit c stepId values hfree.1, if_neg (Ne.symm hne), if_neg hfree.2, hv]
    rfl
  kept key hother huncopied := by
    rw [h]
    cases hkey : isReserved key with
    | true => exact (Context.reserved_written hkey).commit c stepId values
    | false =>
      have hne : stepId ≠ key := by
        rintro rfl
        exact hother ⟨rfl, hkey⟩
      rw [Context.get?_commit c stepId values hkey, if_neg hne]
      split
      · rfl
      · rename_i hfree
        have habsent : key ∉ Assoc.keys values := fun hmem =>
          huncopied ⟨hmem, Ne.symm hne, by simp [Context.isGuarded, hkey, hfree]⟩
        rw [Assoc.last?_eq_none_of_not_mem habsent]
        rfl

/-! ### Units that write nothing, and units that run workflows -/

/-- The unit runs other workflows, whatever comes of an invocation. -/
def LeafUnit.RunsWorkflow (unit : LeafUnit) : Prop :=
  ∃ files child site, unit = Subworkflow.unit files child site

theorem Subworkflow.finish_completed (stepId : String) (context : Context) (prepared executed : Json) :
    (finish stepId context prepared executed).1.journal.completed = context.journal.completed := by
  unfold finish
  simp only
  split <;> split <;> rfl

theorem LeafUnit.RunsWorkflow.keeps_stays {unit : LeafUnit} (h : unit.RunsWorkflow) : unit.Keeps Stays := by
  obtain ⟨files, child, site, rfl⟩ := h
  exact fun context prepared executed =>
    ⟨Subworkflow.finish_frame _ _ _ _, (Subworkflow.finish_data _ _ _ _).2, Subworkflow.finish_completed _ _ _ _⟩

namespace Pipeline

variable {p : Pipeline} {unit : LeafUnit} {call : Call}

/-- The step runs a workflow in shared mode. The items of a batch are run on copies, so a batch is never meant. -/
def Shares (p : Pipeline) (unit : LeafUnit) (call : Call) : Prop :=
  unit.RunsWorkflow ∧ p.batch = none ∧
    ∃ params context, p.handed call = .ok (params, context) ∧ Subworkflow.storageMode params = .ok .shared

theorem layer_outcome (p : Pipeline) (unit : LeafUnit) (call : Call) :
    (p.layer unit call).1 = (p.body unit call).1 := rfl

/-- A unit that gets through all of its phases completes its step. -/
theorem core_of_phases {params : Fields} {context context' : Context} {prepared executed : Json} {output : UnitOutput}
    (hh : p.handed call = .ok (params, context)) (hp : unit.prepare params context = .ok prepared)
    (he : unit.attempt prepared = .ok executed)
    (hf : unit.finalize context prepared executed = (context', .ok output)) :
    (p.core unit call).1 = .completed output.values (output.action.getD defaultAction) := by
  have hparams : Assoc.putAll params [] = params := rfl
  simp only [core_of_handed, hh, leafLayer, hparams, hp, he, hf]

/-- The data of a child is taken over only in shared mode, and only by a step that completes. -/
theorem core_keepsData_of_workflow (hworkflow : unit.RunsWorkflow)
    (h : ∀ params context, p.handed call = .ok (params, context) → Subworkflow.storageMode params = .ok .shared →
      ∀ values action, (p.core unit call).1 ≠ .completed values action) :
    KeepsData call.context (p.core unit call).2 := by
  refine core_keeps_of_phases KeepsData.carried fun params context prepared executed hh hp he => ?_
  obtain ⟨files, child, site, rfl⟩ := hworkflow
  by_cases hmode : Subworkflow.storageMode params = .ok .shared
  · exact absurd (core_of_phases hh hp he rfl) (h params context hh hmode _ _)
  · exact Subworkflow.unit_keepsData hmode hp executed

/-- A step stores what it came to on top of what it was called with, unless it completes in shared mode. -/
theorem layer_stores_of_unshared (call : Call) (hunit : unit.Keeps Untouched ∨ unit.RunsWorkflow)
    (h : ∀ values action, (p.layer unit call).1 = .completed values action → ¬ p.Shares unit call) :
    KeepsData ((p.layer unit call).1.store p.stepId call.context) (p.layer unit call).2 := by
  obtain ⟨c, rfl | ⟨hb, rfl⟩, hstores⟩ := p.layer_stores_core unit call
  · exact hstores
  · refine KeepsData.carried.trans (KeepsData.store ?_ _ _) hstores
    rcases hunit with hkeeps | hworkflow
    · exact core_keeps KeepsData.carried (fun c prepared executed => (hkeeps c prepared executed).toKeepsData) call
    · refine core_keepsData_of_workflow hworkflow fun params context hh hmode values action hdone => ?_
      refine h values action ?_ ⟨hworkflow, hb, params, context, hh, hmode⟩
      rw [layer_outcome, body_single unit hb, attempt_outcome, hdone]

/-- Below the journal, no layer changes anything but the data and the warnings. -/
theorem body_stays (hunit : unit.Keeps Stays) : Stays call.context (p.body unit call).2 :=
  body_keeps Context.stays_written fun a _ => core_keeps Context.stays_written.toCarried hunit a

theorem layer_effect (call : Call) (hunit : unit.Keeps Untouched ∨ unit.RunsWorkflow) :
    StepEffect p.stepId call.context (p.layer unit call).1 (p.layer unit call).2 := by
  have hstays : Stays call.context (p.body unit call).2 := by
    refine body_stays ?_
    rcases hunit with hkeeps | hworkflow
    · exact fun c prepared executed => (hkeeps c prepared executed).toStays
    · exact hworkflow.keeps_stays
  have hjournal : (p.layer unit call).2.journal =
      (p.body unit call).2.journal.record p.stepId (p.layer unit call).1 := instrumentedLayer_journal _ _ _
  -- what does not complete has not been taken over from a child
  have hdata (h : ∀ values action, (p.layer unit call).1 ≠ .completed values action) :
      (p.layer unit call).2.data = ((p.layer unit call).1.store p.stepId call.context).data :=
    (layer_stores_of_unshared call hunit fun values action hdone => absurd hdone (h values action)).data
  refine ⟨fun fault hfault => ?_, fun failure hfailure key => ?_, hstays.frame, hstays.guarded,
    fun values action hdone => ?_, fun hnot => ?_⟩
  · rw [hdata (by simp [hfault]), hfault]
    rfl
  · rw [hdata (by simp [hfailure]), hfailure, ← errorValue_eq]
    exact get?_insert_own _ _ _ _
  · rw [hjournal, hdone, ← hstays.completed]
    rfl
  · rw [hjournal, ← hstays.completed]
    cases houtcome : (p.layer unit call).1 with
    | completed values action => exact absurd houtcome (hnot values action)
    | failed failure => rfl
    | aborted fault => rfl

/-- A step is all or nothing. What it came to decides what it has left in the context: a step that did not complete has
left no part of its work, also if it runs a workflow in shared mode, and one that completed has left its output, unless
it hands over the data of a child. The units that every registry begins with write nothing on their own. -/
theorem step_is_atomic (p : Pipeline) (unit : LeafUnit) (hunit : unit.Keeps Untouched ∨ unit.RunsWorkflow)
    (context : Context) (bindings : Fields) (mode : Mode) :
    StepEffect p.stepId context (p.run unit context bindings mode).1 (p.run unit context bindings mode).2 ∧
      (∀ values action, (p.run unit context bindings mode).1 = .completed values action →
        ¬ p.Shares unit ⟨context, [], bindings, mode⟩ →
          StepOutput p.stepId context values (p.run unit context bindings mode).2) ∧
      Registry.builtin.Keeps Untouched := by
  refine ⟨layer_effect ⟨context, [], bindings, mode⟩ hunit, fun values action hdone hunshared => ?_, ?_⟩
  · have hstores := layer_stores_of_unshared ⟨context, [], bindings, mode⟩ hunit fun _ _ _ => hunshared
    rw [show (p.layer unit ⟨context, [], bindings, mode⟩).1 = .completed values action from hdone] at hstores
    exact stepOutput_of_commit hstores.data
  · exact Registry.builtin_keeps fun _ => ⟨⟨rfl, rfl, rfl⟩, rfl⟩

end Pipeline

def handoverDocument (kind : String) : Document where
  version := "1"
  name := none
  start := none
  steps := [⟨"give", "echo", none, [("value", .int 2)], none⟩, ⟨"end", kind, none, [], none⟩]
  edges := [⟨"give", "end", none⟩]
  inputs := []
  outputs := []
  mode := .strict

/-- A step that runs such a document and takes over its value. -/
def handoverPipeline (kind storage : String) : Pipeline where
  site := ⟨"relay", .standard, none⟩
  implementation := .subworkflow
  literals :=
    [("workflow_ir", (handoverDocument kind).toJson), ("storage_mode", .str storage),
      ("output_mapping", .obj [("give.value", .str "value")])]
  templated := []
  declared := []
  batch := none

def handoverFailure : StepFailure where
  stepId := "relay"
  message := "Sub-workflow 'inline:relay' failed: step failed"
  category := .execution
  details := some (.obj [("errors", .arr [.obj [("node_id", .str "end"), ("message", .str "step failed"),
    ("category", .str "execution"), ("phase", .str "execution")]])])

/-- Of a child that fails midway nothing is left but the message, although it works on all the data; one that ends well
hands over its value. -/
theorem step_is_atomic_handover :
    ∃ unit : LeafUnit, ∃ before : Context, unit.RunsWorkflow ∧ Assoc.get? before.data "value" = some (.int 1) ∧
      (∃ after, (handoverPipeline "fail" "shared").run unit before [] .strict = (.failed handoverFailure, after) ∧
        Assoc.get? after.data "relay" =
          some (.obj [("error", .str "Sub-workflow 'inline:relay' failed: step failed")]) ∧
        Assoc.get? after.data "value" = some (.int 1)) ∧
      ¬ (handoverPipeline "echo" "mapped").Shares unit ⟨before, [], [], .strict⟩ ∧
      ∃ after, (handoverPipeline "echo" "mapped").run unit before [] .strict =
          (.completed [("value", .int 2)] defaultAction, after) ∧
        Assoc.get? after.data "value" = some (.int 2) := by
  let unit := (Host.mk .builtin .empty).units 4 .subworkflow (handoverPipeline "fail" "shared").site
  let before : Context := .start [("value", .int 1)] .empty
  have hworkflow : unit.RunsWorkflow := ⟨_, _, _, rfl⟩
  have hfailed : ((handoverPipeline "fail" "shared").run unit before [] .strict).1 = .failed handoverFailure := by
    decide +kernel
  have hcompleted : ((handoverPipeline "echo" "mapped").run unit before [] .strict).1 =
      .completed [("value", .int 2)] defaultAction := by decide +kernel
  have hunshared : ¬ (handoverPipeline "echo" "mapped").Shares unit ⟨before, [], [], .strict⟩ := by
    rintro ⟨_, _, params, context, hh, hmode⟩
    cases hh
    exact absurd hmode (by decide)
  obtain ⟨heffect, _⟩ := (handoverPipeline "fail" "shared").step_is_atomic unit (.inr hworkflow) before [] .strict
  obtain ⟨_, houtput, _⟩ := (handoverPipeline "echo" "mapped").step_is_atomic unit (.inr hworkflow) before [] .strict
  rcases hlost : (handoverPipeline "fail" "shared").run unit before [] .strict with ⟨_, lost⟩
  rcases hwon : (handoverPipeline "echo" "mapped").run unit before [] .strict with ⟨_, won⟩
  rw [hlost] at hfailed heffect
  rw [hwon] at hcompleted houtput
  subst hfailed hcompleted
  have htold : Assoc.get? lost.data "relay" =
      some (.obj [("error", .str "Sub-workflow 'inline:relay' failed: step failed")]) :=
    (heffect.failed _ rfl "relay").trans (if_pos ⟨rfl, by decide⟩)
  have hkept : Assoc.get? lost.data "value" = some (.int 1) :=
    (heffect.failed _ rfl "value").trans (by decide)
  have hcopied : Assoc.get? won.data "value" = some (.int 2) :=
    (houtput _ _ rfl hunshared).copied "value" (.int 2) rfl (by decide) (by decide)
  exact ⟨unit, before, hworkflow, rfl, ⟨lost, hlost, htold, hkept⟩, hunshared, won, hwon, hcopied⟩

end Workflow
