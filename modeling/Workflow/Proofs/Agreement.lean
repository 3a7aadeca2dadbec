import Workflow.Proofs.Layers
import Workflow.Proofs.Walking

/-! Two runs side by side. Where their plans lead from step to step alike and the steps come to the same in contexts
that agree, the runs agree from their first step to their report, or up to where a fault of some kind ends the first
of them. -/

namespace Workflow

variable {R : Context → Context → Prop} {Ends : Fault → Prop}

/-- Contexts of two runs may differ in what no run tells of: they hold the same data, and warnings both or neither. -/
structure Context.Agreement (R : Context → Context → Prop) : Prop where
  warn : ∀ {c c'} (warnings : List Warning), R c c' → R (c.warn warnings) (c'.warn warnings)
  data : ∀ {c c'}, R c c' → c'.data = c.data
  silent : ∀ {c c'}, R c c' → (c'.journal.warnings = [] ↔ c.journal.warnings = [])

theorem Context.agreement_eq : Agreement Eq where
  warn _ h := by rw [h]
  data h := by rw [h]
  silent h := by rw [h]

structure Visit.Agrees (R : Context → Context → Prop) (v v' : Visit) : Prop where
  stepId : v'.stepId = v.stepId
  before : R v.before v'.before
  outcome : v'.outcome = v.outcome
  after : R v.after v'.after

structure Walk.Agrees (R : Context → Context → Prop) (w w' : Walk) : Prop where
  visits : List.Forall₂ (Visit.Agrees R) w.visits w'.visits
  ending : w'.ending = w.ending
  context : R w.context w'.context

structure Report.Agrees (R : Context → Context → Prop) (r r' : Report) : Prop where
  context : R r.context r'.context
  status : r'.status = r.status
  errors : r'.errors = r.errors
  fatal : r'.fatal = r.fatal
  outputs : r'.outputs = r.outputs
  visits : List.Forall₂ (Visit.Agrees R) r.visits r'.visits

theorem Visit.Agrees.refl (v : Visit) : v.Agrees Eq v := ⟨rfl, rfl, rfl, rfl⟩

theorem Visit.Agrees.eq {v v' : Visit} (h : v.Agrees Eq v') : v' = v := by
  obtain ⟨stepId, before, outcome, after⟩ := v
  obtain ⟨hid, hbefore, houtcome, hafter⟩ := h
  cases v'
  simp_all

/-- Reports that agree in every context agree altogether, the findings about the graph apart. -/
theorem Report.Agrees.eq {r r' : Report} (h : r.Agrees Eq r') (hdiagnostics : r'.diagnostics = r.diagnostics) :
    r' = r := by
  have hvisits : r'.visits = r.visits := by
    have hall := h.visits.imp fun _ _ hv => hv.eq.symm
    exact (List.forall₂_eq_eq_eq ▸ hall).symm
  obtain ⟨hcontext, hstatus, herrors, hfatal, houtputs, _⟩ := h
  cases r
  cases r'
  simp_all

/-! ### Steps -/

/-- Two units that agree on every attempt of the first make the same of a step, if no attempt is ended. -/
theorem Pipeline.body_agrees {p : Pipeline} {unit unit' : LeafUnit} {call : Call}
    (h : ∀ a ∈ p.attempts unit call,
      p.core unit' a = p.core unit a ∨ ∃ fault, (p.core unit a).1 = .aborted fault ∧ Ends fault) :
    p.body unit' call = p.body unit call ∨ ∃ fault, (p.body unit call).1 = .aborted fault ∧ Ends fault := by
  by_cases hended : ∃ a ∈ p.attempts unit call, ∃ fault, (p.core unit a).1 = .aborted fault ∧ Ends fault
  · obtain ⟨a, ha, fault, hcore, hends⟩ := hended
    exact .inr ⟨fault, (body_of_attempt_aborted unit ha hcore).2, hends⟩
  · have hsame : ∀ a ∈ p.attempts unit call, a ∈ p.attempts unit' call → p.core unit a = p.core unit' a := by
      intro a ha _
      rcases h a ha with heq | hcore
      · exact heq.symm
      · exact absurd ⟨a, ha, hcore⟩ hended
    exact .inl (attempts_congr hsame).2.symm

/-! ### Walks -/

/-- One plan leads where another does, on the same inputs and to the same outputs. -/
structure Plan.Parallels (plan plan' : Plan) : Prop where
  missing : ∀ id, plan.pipeline? id = none → plan'.pipeline? id = none
  successor? : ∀ id action, plan'.successor? id action = plan.successor? id action
  start : plan'.start = plan.start
  inputs : plan'.inputs = plan.inputs
  outputs : plan'.outputs = plan.outputs
  maxSteps : plan'.limits.maxSteps = plan.limits.maxSteps

section
variable {units units' : UnitMaker} {plan plan' : Plan} {bindings : Fields}

/-- Visits that agree are followed by the same step, or end the walk alike. -/
theorem Plan.Parallels.follow (hplan : plan.Parallels plan') (hR : Context.Agreement R) {v v' : Visit}
    (h : v.Agrees R v') :
    (∃ ending, plan.follow v = .stop ending ∧ plan'.follow v' = .stop ending) ∨
      ∃ next c c', plan.follow v = .go next c ∧ plan'.follow v' = .go next c' ∧ R c c' := by
  unfold Plan.follow
  rw [h.outcome, h.stepId]
  cases v.outcome with
  | completed values action =>
    simp only [hplan.successor?]
    cases plan.successor? v.stepId action with
    | none => exact .inl ⟨_, rfl, rfl⟩
    | some next => exact .inr ⟨next, _, _, rfl, rfl, h.after⟩
  | failed failure =>
    simp only [hplan.successor?]
    cases plan.successor? v.stepId errorAction with
    | none => exact .inl ⟨_, rfl, rfl⟩
    | some next => exact .inr ⟨next, _, _, rfl, rfl, hR.warn _ h.after⟩
  | aborted fault => exact .inl ⟨_, rfl, rfl⟩

/-- Walks agree if their steps do in contexts that agree. A step that is ended ends its walk. -/
theorem walk_agrees (hR : Context.Agreement R) (hplan : plan.Parallels plan')
    (hstep : ∀ id p, plan.pipeline? id = some p → ∃ p', plan'.pipeline? id = some p' ∧ ∀ c c', R c c' →
      (visit units plan bindings id p c).Agrees R (visit units' plan' bindings id p' c') ∨
        ∃ fault, (visit units plan bindings id p c).outcome = .aborted fault ∧ Ends fault)
    (budget : Nat) (id : String) {c c' : Context} (h : R c c') :
    (walk units plan bindings budget id c).Agrees R (walk units' plan' bindings budget id c') ∨
      ∃ fault, (walk units plan bindings budget id c).ending = .aborted fault ∧ Ends fault := by
  induction budget generalizing id c c' with
  | zero => exact .inl ⟨.nil, by simp only [walk, hplan.maxSteps], h⟩
  | succ budget ih =>
    rw [walk, walk]
    cases hp : plan.pipeline? id with
    | none =>
      rw [hplan.missing id hp]
      exact .inl ⟨.nil, rfl, h⟩
    | some p =>
      obtain ⟨p', hp', hvisit⟩ := hstep id p hp
      rw [hp']
      simp only
      rcases hvisit c c' h with hagrees | ⟨fault, houtcome, hends⟩
      · rcases hplan.follow hR hagrees with ⟨ending, hstop, hstop'⟩ | ⟨next, left, left', hgo, hgo', hleft⟩
        · rw [hstop, hstop']
          exact .inl ⟨.cons hagrees .nil, rfl, hagrees.after⟩
        · rw [hgo, hgo']
          rcases ih next hleft with hrest | hended
          · exact .inl ⟨.cons hagrees hrest.visits, hrest.ending, hrest.context⟩
          · exact .inr hended
      · rw [Plan.follow_of_aborted plan houtcome]
        exact .inr ⟨fault, rfl, hends⟩

/-- Walks that agree are reported alike. -/
theorem Walk.Agrees.report (hR : Context.Agreement R) (hplan : plan.Parallels plan') {w w' : Walk} (h : w.Agrees R w') :
    (w.report plan bindings).Agrees R (w'.report plan' bindings) := by
  unfold Walk.report
  rw [h.ending]
  cases w.ending with
  | aborted fault => exact ⟨h.context, rfl, rfl, rfl, rfl, h.visits⟩
  | failed failure => exact ⟨h.context, rfl, rfl, rfl, rfl, h.visits⟩
  | finished =>
    have hresolved : resolveOutputs plan' ⟨bindings, w'.context.data⟩ =
        resolveOutputs plan ⟨bindings, w.context.data⟩ := by
      rw [hR.data h.context]
      unfold resolveOutputs
      rw [hplan.outputs]
    simp only [hresolved]
    have hcontext := hR.warn (resolveOutputs plan ⟨bindings, w.context.data⟩).2 h.context
    refine ⟨hcontext, ?_, rfl, rfl, rfl, h.visits⟩
    simp only [List.isEmpty_iff, hR.silent hcontext]

theorem execute_diagnostics (units : UnitMaker) (plan : Plan) (context : Context) (params : Fields) :
    (plan.execute units context params).diagnostics = plan.diagnostics := by
  unfold Plan.execute
  cases bindInputs plan.inputs params with
  | error fault => rfl
  | ok bindings =>
    simp only [Walk.report]
    split <;> rfl

/-- Runs agree if they are entered in contexts that agree, and their steps agree from there. A fault that ends the first
is in its report. -/
theorem Plan.Parallels.execute (hR : Context.Agreement R) (hplan : plan.Parallels plan')
    (hstep : ∀ bindings id p, plan.pipeline? id = some p → ∃ p', plan'.pipeline? id = some p' ∧ ∀ c c', R c c' →
      (visit units plan bindings id p c).Agrees R (visit units' plan' bindings id p' c') ∨
        ∃ fault, (visit units plan bindings id p c).outcome = .aborted fault ∧ Ends fault)
    {c c' : Context} (h : R c c') (henter : ∀ bindings, R (plan.enter c bindings) (plan'.enter c' bindings))
    (params : Fields) :
    (plan.execute units c params).Agrees R (plan'.execute units' c' params) ∨
      ∃ fault, (plan.execute units c params).fatal = some fault ∧ Ends fault := by
  unfold Plan.execute
  rw [hplan.inputs]
  cases bindInputs plan.inputs params with
  | error fault => exact .inl ⟨h, rfl, rfl, rfl, rfl, .nil⟩
  | ok bindings =>
    simp only
    rw [hplan.start, hplan.maxSteps]
    rcases walk_agrees hR hplan (hstep bindings) plan.limits.maxSteps plan.start (henter bindings) with
      hagrees | ⟨fault, hending, hends⟩
    · exact .inl (hagrees.report hR hplan)
    · right
      refine ⟨fault, ?_, hends⟩
      unfold Walk.report
      rw [hending]
      rfl

/-- Runs are the same if their steps are, in every context, or a step is ended. -/
theorem Plan.Parallels.execute_eq (hplan : plan.Parallels plan') (hdiagnostics : plan'.diagnostics = plan.diagnostics)
    (hstep : ∀ bindings id p, plan.pipeline? id = some p → ∃ p', plan'.pipeline? id = some p' ∧ ∀ c,
      visit units' plan' bindings id p' c = visit units plan bindings id p c ∨
        ∃ fault, (visit units plan bindings id p c).outcome = .aborted fault ∧ Ends fault)
    {c : Context} (henter : ∀ bindings, plan'.enter c bindings = plan.enter c bindings) (params : Fields) :
    plan'.execute units' c params = plan.execute units c params ∨
      ∃ fault, (plan.execute units c params).fatal = some fault ∧ Ends fault := by
  have hagree : ∀ bindings id p, plan.pipeline? id = some p → ∃ p', plan'.pipeline? id = some p' ∧ ∀ c c', c = c' →
      (visit units plan bindings id p c).Agrees Eq (visit units' plan' bindings id p' c') ∨
        ∃ fault, (visit units plan bindings id p c).outcome = .aborted fault ∧ Ends fault := by
    intro bindings id p hp
    obtain ⟨p', hp', hvisit⟩ := hstep bindings id p hp
    refine ⟨p', hp', ?_⟩
    rintro c _ rfl
    rcases hvisit c with heq | hended
    · rw [heq]
      exact .inl (.refl _)
    · exact .inr hended
  rcases hplan.execute Context.agreement_eq hagree rfl (fun bindings => (henter bindings).symm) params with
    hreports | hended
  · left
    refine hreports.eq ?_
    rw [execute_diagnostics, execute_diagnostics, hdiagnostics]
  · exact .inr hended

end

end Workflow
