import Workflow.Subworkflow
import Workflow.Proofs.Building
import Mathlib.Data.List.Chain

/-! Where a walk can go. It starts at the start of its plan, leaves every step by an edge of the document and climbs the
order of the steps. The order is therefore the measure that ends it: units may return whatever actions they like. -/

namespace Workflow

namespace StepOutcome

def exit? : StepOutcome → Option String
  | .completed _ action => some action
  | .failed _ => some errorAction
  | .aborted _ => none

end StepOutcome

/-- An edge of the document leads from one visit to the next, for what the first came to. -/
def LeadsTo (d : Document) (v w : Visit) : Prop :=
  ∃ e ∈ d.edges, e.source = v.stepId ∧ v.outcome.exit? = some e.action ∧ e.target = w.stepId

namespace Plan

variable {plan : Plan} {v : Visit}

theorem follow_eq_go {next : String} {context : Context} (h : plan.follow v = .go next context) :
    ∃ action, v.outcome.exit? = some action ∧ plan.successor? v.stepId action = some next := by
  unfold follow at h
  cases hv : v.outcome with
  | completed values action =>
    simp only [hv] at h
    split at h
    · cases h
    · rename_i hs
      cases h
      exact ⟨action, rfl, hs⟩
  | failed failure =>
    simp only [hv] at h
    split at h
    · cases h
    · rename_i hs
      cases h
      exact ⟨errorAction, rfl, hs⟩
  | aborted fault =>
    simp only [hv] at h
    cases h

/-- A step ends the run only by its own abort. -/
theorem follow_eq_aborted {fault : Fault} (h : plan.follow v = .stop (.aborted fault)) :
    v.outcome = .aborted fault := by
  unfold follow at h
  cases hv : v.outcome with
  | completed values action =>
    simp only [hv] at h
    split at h <;> cases h
  | failed failure =>
    simp only [hv] at h
    split at h <;> cases h
  | aborted cause =>
    simp only [hv] at h
    cases h
    rfl

theorem follow_of_aborted (plan : Plan) {fault : Fault} (h : v.outcome = .aborted fault) :
    plan.follow v = .stop (.aborted fault) := by
  unfold follow
  rw [h]

end Plan

@[simp] theorem visit_stepId (units : UnitMaker) (plan : Plan) (bindings : Fields) (stepId : String)
    (pipeline : Pipeline) (context : Context) :
    (visit units plan bindings stepId pipeline context).stepId = stepId := rfl

/-- What holds where a walk starts, and where a step leads to if it held at the step, holds wherever a step is taken.
Each visit is a run of the pipeline of its step. -/
theorem walk_invariant {units : UnitMaker} {plan : Plan} {bindings : Fields} {budget : Nat} {stepId : String}
    {context : Context} (holds : String → Context → Prop)
    (hkept : ∀ id p before after left, plan.pipeline? id = some p → holds id before →
      plan.follow (visit units plan bindings id p before) = .go after left → holds after left)
    (hstart : holds stepId context) {v : Visit} (hv : v ∈ (walk units plan bindings budget stepId context).visits) :
    holds v.stepId v.before ∧
      ∃ p, plan.pipeline? v.stepId = some p ∧ v = visit units plan bindings v.stepId p v.before := by
  induction budget generalizing stepId context with
  | zero => exact absurd hv List.not_mem_nil
  | succ budget ih =>
    rw [walk] at hv
    cases hp : plan.pipeline? stepId with
    | none =>
      simp only [hp] at hv
      exact absurd hv List.not_mem_nil
    | some pipeline =>
      simp only [hp] at hv
      cases hf : plan.follow (visit units plan bindings stepId pipeline context) with
      | stop ending =>
        simp only [hf] at hv
        rw [List.mem_singleton.mp hv]
        exact ⟨hstart, pipeline, hp, rfl⟩
      | go after left =>
        simp only [hf, Walk.after_visits] at hv
        rcases List.mem_cons.mp hv with rfl | hv
        · exact ⟨hstart, pipeline, hp, rfl⟩
        · exact ih (hkept stepId pipeline context after left hp hstart hf) hv

/-- A step that aborts is the last and the only one, and the walk ends with its fault. -/
theorem walk_of_aborted {units : UnitMaker} {plan : Plan} {bindings : Fields} {budget : Nat} {stepId : String}
    {context : Context} {v : Visit} {fault : Fault}
    (hv : v ∈ (walk units plan bindings budget stepId context).visits) (h : v.outcome = .aborted fault) :
    (∃ before, (walk units plan bindings budget stepId context).visits = before ++ [v] ∧
        ∀ w ∈ before, ∀ cause, w.outcome ≠ .aborted cause) ∧
      (walk units plan bindings budget stepId context).ending = .aborted fault := by
  induction budget generalizing stepId context with
  | zero => exact absurd hv List.not_mem_nil
  | succ budget ih =>
    rw [walk] at hv ⊢
    cases hp : plan.pipeline? stepId with
    | none =>
      simp only [hp] at hv
      exact absurd hv List.not_mem_nil
    | some pipeline =>
      simp only [hp] at hv ⊢
      cases hf : plan.follow (visit units plan bindings stepId pipeline context) with
      | stop ending =>
        simp only [hf] at hv
        have hlast := List.mem_singleton.mp hv
        rw [hlast] at h ⊢
        refine ⟨⟨[], rfl, by simp⟩, ?_⟩
        rw [Plan.follow_of_aborted plan h] at hf
        cases hf
        rfl
      | go next after =>
        have hgoes : ∀ cause, (visit units plan bindings stepId pipeline context).outcome ≠ .aborted cause := by
          intro cause hcause
          rw [Plan.follow_of_aborted plan hcause] at hf
          cases hf
        simp only [hf, Walk.after_visits, Walk.after_ending] at hv ⊢
        rcases List.mem_cons.mp hv with rfl | hv
        · exact absurd h (hgoes fault)
        · obtain ⟨⟨before, hvisits, hbefore⟩, hending⟩ := ih hv
          refine ⟨⟨_ :: before, by rw [hvisits, List.cons_append], ?_⟩, hending⟩
          intro w hw
          rcases List.mem_cons.mp hw with rfl | hw
          · exact hgoes
          · exact hbefore w hw

/-- Two ways of making units that agree on the visits they both come to make the same walk. -/
theorem walk_congr {units units' : UnitMaker} {plan : Plan} {bindings : Fields} {budget : Nat} {stepId : String}
    {context : Context}
    (h : ∀ v ∈ (walk units plan bindings budget stepId context).visits,
      ∀ v' ∈ (walk units' plan bindings budget stepId context).visits,
        v.stepId = v'.stepId → v.before = v'.before → v = v') :
    walk units plan bindings budget stepId context = walk units' plan bindings budget stepId context := by
  induction budget generalizing stepId context with
  | zero => rfl
  | succ budget ih =>
    rw [walk, walk] at h ⊢
    cases hp : plan.pipeline? stepId with
    | none => rfl
    | some pipeline =>
      simp only [hp] at h ⊢
      have hvisit : visit units plan bindings stepId pipeline context =
          visit units' plan bindings stepId pipeline context := by
        refine h _ ?_ _ ?_ rfl rfl
        · split
          · exact List.mem_singleton_self _
          · exact List.mem_cons_self
        · split
          · exact List.mem_singleton_self _
          · exact List.mem_cons_self
      rw [hvisit] at h ⊢
      cases hf : plan.follow (visit units' plan bindings stepId pipeline context) with
      | stop ending => rfl
      | go next after =>
        simp only [hf, Walk.after_visits] at h ⊢
        rw [ih fun v hv v' hv' => h v (List.mem_cons_of_mem _ hv) v' (List.mem_cons_of_mem _ hv')]

section
variable {registry : Registry} {options : PlanOptions} {d : Document} {plan : Plan}

theorem leadsTo_of_follow (hb : Plan.build registry options d = .ok plan) {v w : Visit} {context : Context}
    (h : plan.follow v = .go w.stepId context) : LeadsTo d v w := by
  obtain ⟨action, hexit, hnext⟩ := Plan.follow_eq_go h
  obtain ⟨e, hmem, hsource, haction, htarget⟩ := Plan.successor?_eq_some hb hnext
  exact ⟨e, hmem, hsource, haction ▸ hexit, htarget⟩

theorem walk_head? (hb : Plan.build registry options d = .ok plan) (units : UnitMaker) (bindings : Fields)
    (budget : Nat) {stepId : String} (hid : stepId ∈ d.stepIds) (context : Context) :
    ((walk units plan bindings budget stepId context).visits.map Visit.stepId).head? =
      if 0 < budget then some stepId else none := by
  cases budget with
  | zero => rfl
  | succ budget =>
    obtain ⟨pipeline, hp⟩ := Option.isSome_iff_exists.mp (Plan.pipeline?_isSome hb hid)
    rw [walk, hp]
    simp only [Nat.zero_lt_succ, if_true]
    split <;> rfl

theorem walk_declared (hb : Plan.build registry options d = .ok plan) {units : UnitMaker} {bindings : Fields}
    {budget : Nat} {stepId : String} (hid : stepId ∈ d.stepIds) {context : Context} :
    ∀ v ∈ (walk units plan bindings budget stepId context).visits, v.stepId ∈ d.stepIds := by
  intro v hv
  refine (walk_invariant (fun id _ => id ∈ d.stepIds) ?_ hid hv).1
  intro id p before after left _ _ hf
  obtain ⟨action, _, hnext⟩ := Plan.follow_eq_go hf
  obtain ⟨e, he, _, _, htarget⟩ := Plan.successor?_eq_some hb hnext
  rw [← htarget]
  exact (Plan.endpoints_mem hb e he).2

/-- A declared step has a pipeline, so the walk that an edge leads on takes the step at its end. -/
theorem walk_chain (hb : Plan.build registry options d = .ok plan) (units : UnitMaker) (bindings : Fields)
    (budget : Nat) {stepId : String} (hid : stepId ∈ d.stepIds) (context : Context) :
    (walk units plan bindings budget stepId context).visits.IsChain (LeadsTo d) := by
  induction budget generalizing stepId context with
  | zero => exact .nil
  | succ budget ih =>
    obtain ⟨pipeline, hp⟩ := Option.isSome_iff_exists.mp (Plan.pipeline?_isSome hb hid)
    rw [walk, hp]
    simp only
    cases hf : plan.follow (visit units plan bindings stepId pipeline context) with
    | stop ending => exact .singleton _
    | go next after =>
      obtain ⟨action, _, hnext⟩ := Plan.follow_eq_go hf
      obtain ⟨e, he, _, _, htarget⟩ := Plan.successor?_eq_some hb hnext
      have hnid : next ∈ d.stepIds := by
        rw [← htarget]
        exact (Plan.endpoints_mem hb e he).2
      have hchain := ih hnid after
      have hhead := walk_head? hb units bindings budget hnid after
      simp only [Walk.after_visits]
      cases hv : (walk units plan bindings budget next after).visits with
      | nil => exact .singleton _
      | cons w rest =>
        rw [hv] at hchain hhead
        refine List.isChain_cons_cons.mpr ⟨?_, hchain⟩
        have hw : w.stepId = next := by
          split at hhead
          · simpa using hhead
          · simp at hhead
        exact leadsTo_of_follow hb (hw ▸ hf)

/-- A walk that is cut off by its budget has not come to the end of the order. -/
theorem walk_aborted (hb : Plan.build registry options d = .ok plan) {order : List String}
    (horder : order.Perm d.stepIds) (hedges : ∀ e ∈ d.edges, order.idxOf e.source < order.idxOf e.target)
    (units : UnitMaker) (bindings : Fields) (budget : Nat) {stepId : String} (hid : stepId ∈ d.stepIds)
    (context : Context) {fault : Fault}
    (h : (walk units plan bindings budget stepId context).ending = .aborted fault) :
    (∃ v, (walk units plan bindings budget stepId context).visits.getLast? = some v ∧ v.outcome = .aborted fault) ∨
      fault = .stepLimitExceeded plan.limits.maxSteps ∧ budget + order.idxOf stepId < order.length := by
  induction budget generalizing stepId context with
  | zero =>
    cases h
    right
    refine ⟨rfl, ?_⟩
    rw [Nat.zero_add]
    exact List.idxOf_lt_length_of_mem (horder.mem_iff.mpr hid)
  | succ budget ih =>
    obtain ⟨pipeline, hp⟩ := Option.isSome_iff_exists.mp (Plan.pipeline?_isSome hb hid)
    rw [walk, hp] at h ⊢
    simp only at h ⊢
    cases hf : plan.follow (visit units plan bindings stepId pipeline context) with
    | stop ending =>
      rw [hf] at h
      simp only at h
      exact .inl ⟨_, rfl, Plan.follow_eq_aborted (h ▸ hf)⟩
    | go next after =>
      rw [hf] at h
      obtain ⟨action, _, hnext⟩ := Plan.follow_eq_go hf
      obtain ⟨e, he, hsource, _, htarget⟩ := Plan.successor?_eq_some hb hnext
      have hlt : order.idxOf stepId < order.idxOf next := by
        rw [← htarget, ← visit_stepId units plan bindings stepId pipeline context, ← hsource]
        exact hedges e he
      have hnid : next ∈ d.stepIds := by
        rw [← htarget]
        exact (Plan.endpoints_mem hb e he).2
      rcases ih hnid after h with ⟨v, hv, hov⟩ | ⟨hfault, hroom⟩
      · left
        refine ⟨v, ?_, hov⟩
        simp only [Walk.after_visits, List.getLast?_cons, hv, Option.getD_some]
      · right
        exact ⟨hfault, by omega⟩

theorem execute_visits (units : UnitMaker) (plan : Plan) (context : Context) (params : Fields) :
    (plan.execute units context params).visits =
      match bindInputs plan.inputs params with
      | .error _ => []
      | .ok bindings =>
        (walk units plan bindings plan.limits.maxSteps plan.start (plan.enter context bindings)).visits := by
  unfold Plan.execute
  cases bindInputs plan.inputs params with
  | error fault => rfl
  | ok bindings =>
    simp only [Walk.report]
    split <;> rfl

theorem execute_fatal (units : UnitMaker) (plan : Plan) (context : Context) (params : Fields) {fault : Fault}
    (h : (plan.execute units context params).fatal = some fault) :
    bindInputs plan.inputs params = .error fault ∨
      ∃ bindings, bindInputs plan.inputs params = .ok bindings ∧
        (walk units plan bindings plan.limits.maxSteps plan.start (plan.enter context bindings)).ending =
          .aborted fault := by
  unfold Plan.execute at h
  cases hb : bindInputs plan.inputs params with
  | error cause =>
    rw [hb] at h
    cases h
    exact .inl rfl
  | ok bindings =>
    rw [hb] at h
    refine .inr ⟨bindings, rfl, ?_⟩
    simp only [Walk.report] at h
    split at h
    · rename_i hending
      cases h
      exact hending
    · cases h
    · cases h

/-- Visits at rising places of the order are of different steps, and no more than the order holds. -/
theorem nodup_of_rising {order : List String} {visits : List Visit} (hplaced : ∀ v ∈ visits, v.stepId ∈ order)
    (hrising : (visits.map fun v => order.idxOf v.stepId).Pairwise (· < ·)) :
    (visits.map Visit.stepId).Nodup ∧ visits.length ≤ order.length := by
  have hnodup : (visits.map Visit.stepId).Nodup := by
    rw [List.pairwise_map] at hrising
    refine List.pairwise_map.mpr (hrising.imp ?_)
    intro v w hlt heq
    rw [heq] at hlt
    exact Nat.lt_irrefl _ hlt
  have hsub : visits.map Visit.stepId ⊆ order := by
    intro id hid
    obtain ⟨v, hv, rfl⟩ := List.mem_map.mp hid
    exact hplaced v hv
  refine ⟨hnodup, ?_⟩
  rw [← List.length_map Visit.stepId]
  exact (hnodup.subperm hsub).length_le

/-- The fault that ends a run is that of its inputs, of the step it took last or of its step limit. -/
theorem execute_fatal_cases (hb : Plan.build registry options d = .ok plan) (units : UnitMaker) (context : Context)
    (params : Fields) {fault : Fault} (h : (plan.execute units context params).fatal = some fault) :
    bindInputs plan.inputs params = .error fault ∨
      (∃ v, (plan.execute units context params).visits.getLast? = some v ∧ v.outcome = .aborted fault) ∨
      fault = .stepLimitExceeded plan.limits.maxSteps ∧ plan.limits.maxSteps < d.steps.length := by
  obtain ⟨order, _, hperm, hedges⟩ := Plan.exists_order hb
  have hlength : order.length = d.steps.length := by
    rw [hperm.length_eq, Document.stepIds, List.length_map]
  rcases execute_fatal units plan context params h with hbind | ⟨bindings, hbind, hending⟩
  · exact .inl hbind
  · right
    rw [execute_visits, hbind]
    rcases walk_aborted hb hperm hedges units bindings _ (Plan.start_mem hb) _ hending with hlast | ⟨hlimit, hroom⟩
    · exact .inl hlast
    · exact .inr ⟨hlimit, by omega⟩

/-- A run that visits the steps from the start along the edges for what they came to, at rising places of the order. So
it takes no step twice and no more steps than the document has; its own faults are missing inputs and a step limit below
the number of steps, and any other comes from the step it took last. -/
structure ClimbsOrder (d : Document) (plan : Plan) (params : Fields) (order : List String) (report : Report) :
    Prop where
  start : (report.visits.map Visit.stepId).head? =
    if (bindInputs plan.inputs params).toOption.isSome ∧ 0 < plan.limits.maxSteps then some plan.start else none
  edges : report.visits.IsChain (LeadsTo d)
  placed : ∀ v ∈ report.visits, v.stepId ∈ order
  rising : (report.visits.map fun v => order.idxOf v.stepId).Pairwise (· < ·)
  nodup : (report.visits.map Visit.stepId).Nodup
  length_le : report.visits.length ≤ d.steps.length
  fatal : ∀ fault, report.fatal = some fault →
    bindInputs plan.inputs params = .error fault ∨
    (∃ v, report.visits.getLast? = some v ∧ v.outcome = .aborted fault) ∨
    fault = .stepLimitExceeded plan.limits.maxSteps ∧ plan.limits.maxSteps < d.steps.length

theorem execute_climbs_order (hb : Plan.build registry options d = .ok plan) (units : UnitMaker) (context : Context)
    (params : Fields) :
    ∃ order, d.graph.order = .ok order ∧ ClimbsOrder d plan params order (plan.execute units context params) := by
  obtain ⟨order, horder, hperm, hedges⟩ := Plan.exists_order hb
  have hlength : order.length = d.steps.length := by
    rw [hperm.length_eq, Document.stepIds, List.length_map]
  have hstart := Plan.start_mem hb
  have hchain : (plan.execute units context params).visits.IsChain (LeadsTo d) ∧
      ∀ v ∈ (plan.execute units context params).visits, v.stepId ∈ d.stepIds := by
    rw [execute_visits]
    cases bindInputs plan.inputs params with
    | error fault => exact ⟨.nil, by simp⟩
    | ok bindings => exact ⟨walk_chain hb units bindings _ hstart _, walk_declared hb hstart⟩
  have hplaced : ∀ v ∈ (plan.execute units context params).visits, v.stepId ∈ order :=
    fun v hv => hperm.mem_iff.mpr (hchain.2 v hv)
  have hrising : ((plan.execute units context params).visits.map fun v => order.idxOf v.stepId).Pairwise (· < ·) := by
    rw [← List.isChain_iff_pairwise]
    refine List.isChain_map_of_isChain _ ?_ hchain.1
    rintro v w ⟨e, he, hsource, _, htarget⟩
    rw [← hsource, ← htarget]
    exact hedges e he
  obtain ⟨hnodup, hle⟩ := nodup_of_rising hplaced hrising
  refine ⟨order, horder, ⟨?_, hchain.1, hplaced, hrising, hnodup, hlength ▸ hle, ?_⟩⟩
  · rw [execute_visits]
    cases bindInputs plan.inputs params with
    | error fault => simp [Except.toOption]
    | ok bindings => simpa [Except.toOption] using walk_head? hb units bindings _ hstart _
  · exact fun fault hfatal => execute_fatal_cases hb units context params hfatal

def rescueDocument : Document where
  version := "1"
  name := none
  start := none
  steps :=
    [⟨"load", "fail", none, [("message", .str "gone")], none⟩,
      ⟨"rescue", "echo", none, [("seen", .str "$\x7bload.error\x7d")], none⟩]
  edges := [⟨"load", "rescue", some "error"⟩]
  inputs := []
  outputs := []
  mode := .strict

theorem execute_climbs_order_rescue :
    ∃ plan, Plan.build .builtin {} rescueDocument = .ok plan ∧
      ∃ order, rescueDocument.graph.order = .ok order ∧
        ClimbsOrder rescueDocument plan [] order ((plan.top []).run (Host.units ⟨.builtin, .empty⟩ 10)) := by
  have hok : (Plan.build .builtin {} rescueDocument).toOption.isSome = true := by decide +kernel
  cases hb : Plan.build .builtin {} rescueDocument with
  | error fault =>
    rw [hb] at hok
    cases hok
  | ok plan => exact ⟨plan, rfl, execute_climbs_order hb _ _ _⟩

end

end Workflow
