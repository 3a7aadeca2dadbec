import Workflow.Proofs.Opening
import Workflow.Proofs.Walking

/-! What happens in a run, recorded level by level. `Host.Runs` says what a level comes to without counting levels: it
has a report only if the levels it opens have theirs, and no more than one. -/

namespace Workflow

/-! ### The record of a run -/

/-- What happens in a run. Attempts and steps are told of when they have ended. -/
inductive Event where
  | opened (level : Level)
  /-- The guard of a step refused to open a level. -/
  | tripped (stepId : String) (fault : Fault)
  | attempted (stepId : String) (call : Call) (outcome : StepOutcome) (after : Context)
  | ended (visit : Visit)

namespace Event

def contexts : Event → List Context
  | .opened level => [level.context]
  | .tripped .. => []
  | .attempted _ call _ after => [call.context, after]
  | .ended visit => [visit.before, visit.after]

def outcome? : Event → Option StepOutcome
  | .attempted _ _ outcome _ => some outcome
  | .ended visit => some visit.outcome
  | _ => none

end Event

structure Entry where
  nesting : Nat
  event : Event

def Entry.deeper (e : Entry) : Entry := { e with nesting := e.nesting + 1 }

namespace Level

/-- The values that a level starts from; none if inputs are missing, since then no step is taken. -/
def bindings (level : Level) : Fields := (bindInputs level.plan.inputs level.params).toOption.getD []

def call (level : Level) (v : Visit) : Call := ⟨v.before, [], level.bindings, level.plan.mode⟩

end Level

namespace Host

/-- What an attempt makes of the level it asks for; nothing if it does not come to a workflow. -/
def child? (host : Host) (p : Pipeline) (a : Call) : Option (Except UnitFault Level) :=
  match p.implementation, p.leafCall a with
  | .subworkflow, .ok call => some (host.opened p call)
  | _, _ => none

theorem child?_eq_some {host : Host} {p : Pipeline} {a : Call} {opened : Except UnitFault Level}
    (h : host.child? p a = some opened) :
    p.implementation = .subworkflow ∧ ∃ call, p.leafCall a = .ok call ∧ host.opened p call = opened := by
  unfold child? at h
  split at h
  · rename_i call hw hc
    exact ⟨hw, call, hc, Option.some.inj h⟩
  · cases h

def childEntries (host : Host) (record : Level → List Entry) (p : Pipeline) (a : Call) : List Entry :=
  match host.child? p a with
  | some (.ok child) => (record child).map Entry.deeper
  | some (.error (.fatal fault)) => [⟨0, .tripped p.stepId fault⟩]
  | _ => []

def attemptEntries (host : Host) (run : Level → Report) (record : Level → List Entry) (p : Pipeline) (a : Call) :
    List Entry :=
  let ended := p.attempt (host.unitOf run p) a
  host.childEntries record p a ++ [⟨0, .attempted p.stepId a ended.1 ended.2⟩]

def visitEntries (host : Host) (run : Level → Report) (record : Level → List Entry) (level : Level) (v : Visit) :
    List Entry :=
  match level.plan.pipeline? v.stepId with
  | none => []
  | some p =>
    (p.attempts (host.unitOf run p) (level.call v)).flatMap (host.attemptEntries run record p) ++ [⟨0, .ended v⟩]

/-- What happens in a level whose children run and are recorded as given, in order. -/
def levelEntries (host : Host) (run : Level → Report) (record : Level → List Entry) (level : Level) : List Entry :=
  ⟨0, .opened level⟩ :: (level.run (host.unitsOver run)).visits.flatMap (host.visitEntries run record level)

/-- The record of a level with so many levels left. -/
def recordWithin (host : Host) : Nat → Level → List Entry
  | 0 => fun _ => []
  | levels + 1 => host.levelEntries (host.runWithin levels) (host.recordWithin levels)

def record (host : Host) (level : Level) : List Entry :=
  host.recordWithin (level.plan.limits.maxDepth - level.context.frame.depth + 1) level

theorem mem_childEntries {host : Host} {record : Level → List Entry} {p : Pipeline} {a : Call} {e : Entry} :
    e ∈ host.childEntries record p a ↔
      (∃ child, host.child? p a = some (.ok child) ∧ ∃ inner ∈ record child, e = inner.deeper) ∨
        ∃ fault, host.child? p a = some (.error (.fatal fault)) ∧ e = ⟨0, .tripped p.stepId fault⟩ := by
  unfold childEntries
  split
  · rename_i child hchild
    simp [hchild, eq_comm]
  · rename_i fault hchild
    simp [hchild]
  · rename_i hok hfatal
    constructor
    · intro he
      exact absurd he List.not_mem_nil
    · rintro (⟨child, hchild, _⟩ | ⟨fault, hchild, _⟩)
      · exact absurd hchild (hok child)
      · exact absurd hchild (hfatal fault)

/-- An entry of a level is its opening, the end of a step or what happens in an attempt of one. -/
theorem levelEntries_cases {host : Host} {run : Level → Report} {record : Level → List Entry} {level : Level}
    {e : Entry} (he : e ∈ host.levelEntries run record level) :
    e = ⟨0, .opened level⟩ ∨
      ∃ v ∈ (level.run (host.unitsOver run)).visits, e = ⟨0, .ended v⟩ ∨
        ∃ p, level.plan.pipeline? v.stepId = some p ∧
          ∃ a ∈ p.attempts (host.unitOf run p) (level.call v), e ∈ host.attemptEntries run record p a := by
  rcases List.mem_cons.mp he with rfl | he
  · exact .inl rfl
  · obtain ⟨v, hv, he⟩ := List.mem_flatMap.mp he
    refine .inr ⟨v, hv, ?_⟩
    unfold visitEntries at he
    cases hp : level.plan.pipeline? v.stepId with
    | none =>
      simp only [hp] at he
      exact absurd he List.not_mem_nil
    | some p =>
      simp only [hp] at he
      rcases List.mem_append.mp he with he | he
      · obtain ⟨a, ha, he⟩ := List.mem_flatMap.mp he
        exact .inr ⟨p, rfl, a, ha, he⟩
      · exact .inl (List.mem_singleton.mp he)

def Opens (host : Host) (run : Level → Report) (level child : Level) : Prop :=
  ∃ v ∈ (level.run (host.unitsOver run)).visits, ∃ p, level.plan.pipeline? v.stepId = some p ∧
    ∃ a ∈ p.attempts (host.unitOf run p) (level.call v), host.child? p a = some (.ok child)

inductive Runs (host : Host) : Level → Report → List Entry → Prop where
  | intro {level : Level} (run : Level → Report) (record : Level → List Entry)
      (children : ∀ child, host.Opens run level child → Runs host child (run child) (record child)) :
      Runs host level (level.run (host.unitsOver run)) (host.levelEntries run record level)

end Host

/-! ### The visits of a level -/

namespace Level

variable {level : Level} {units units' : UnitMaker}

theorem visits_eq :
    (level.run units).visits =
      match bindInputs level.plan.inputs level.params with
      | .error _ => []
      | .ok bindings =>
        (walk units level.plan bindings level.plan.limits.maxSteps level.plan.start
          (level.plan.enter level.context bindings)).visits :=
  execute_visits units level.plan level.context level.params

theorem visit_eq {v : Visit} (hv : v ∈ (level.run units).visits) :
    ∃ p, level.plan.pipeline? v.stepId = some p ∧ v = visit units level.plan level.bindings v.stepId p v.before := by
  rw [visits_eq] at hv
  unfold bindings
  cases hb : bindInputs level.plan.inputs level.params with
  | error fault =>
    simp only [hb] at hv
    exact absurd hv List.not_mem_nil
  | ok bound =>
    simp only [hb] at hv
    exact (walk_invariant (fun _ _ => True) (fun _ _ _ _ _ _ _ _ => trivial) trivial hv).2

theorem run_congr
    (h : ∀ v ∈ (level.run units).visits, ∀ v' ∈ (level.run units').visits,
      v.stepId = v'.stepId → v.before = v'.before → v = v') :
    level.run units = level.run units' := by
  rw [visits_eq, visits_eq] at h
  unfold run Plan.execute
  cases hb : bindInputs level.plan.inputs level.params with
  | error fault => rfl
  | ok bound =>
    simp only [hb] at h
    simp only [walk_congr h]

end Level

/-! ### One report for each level -/

namespace Host

section
variable {host : Host} {run run' : Level → Report} {record record' : Level → List Entry} {level : Level} {p : Pipeline}

/-- An attempt takes from the way children are run only the report of the child it opens. -/
theorem core_congr {a : Call} (h : ∀ child, host.child? p a = some (.ok child) → run child = run' child) :
    p.core (host.unitOf run p) a = p.core (host.unitOf run' p) a := by
  cases hw : p.implementation with
  | leaf make =>
    unfold unitOf
    rw [hw]
    rfl
  | subworkflow =>
    cases hc : p.leafCall a with
    | error fault => rw [Pipeline.core_of_leafCall_error _ hc, Pipeline.core_of_leafCall_error _ hc]
    | ok call =>
      cases ho : host.opened p call with
      | error fault => rw [core_of_opened_error hw hc ho, core_of_opened_error hw hc ho]
      | ok child =>
        obtain ⟨prepared, hcore⟩ := core_of_opened_ok hw hc ho
        have hchild : host.child? p a = some (.ok child) := by
          unfold child?
          simp only [hw, hc, ho]
        rw [hcore, hcore, h child hchild]

theorem childEntries_congr {a : Call} (h : ∀ child, host.child? p a = some (.ok child) → record child = record' child) :
    host.childEntries record p a = host.childEntries record' p a := by
  unfold childEntries
  split
  · rename_i child hchild
    rw [h child hchild]
  · rfl
  · rfl

/-- Where two ways of running children agree on those that both make the level open, they make the same of the level.
Only children that both open are asked for, since nothing is known of a run beyond the levels it opens. -/
theorem level_congr
    (h : ∀ child, host.Opens run level child → host.Opens run' level child →
      run child = run' child ∧ record child = record' child) :
    level.run (host.unitsOver run) = level.run (host.unitsOver run') ∧
      host.levelEntries run record level = host.levelEntries run' record' level := by
  -- the attempts of a step that both come to in the same context
  have hstep : ∀ v ∈ (level.run (host.unitsOver run)).visits, ∀ v' ∈ (level.run (host.unitsOver run')).visits,
      v.stepId = v'.stepId → v.before = v'.before → ∀ p, level.plan.pipeline? v.stepId = some p →
      ∀ a ∈ p.attempts (host.unitOf run p) (level.call v), a ∈ p.attempts (host.unitOf run' p) (level.call v) →
        p.core (host.unitOf run p) a = p.core (host.unitOf run' p) a := by
    intro v hv v' hv' hid hbefore p hp a ha ha'
    refine core_congr fun child hchild => (h child ⟨v, hv, p, hp, a, ha, hchild⟩ ?_).1
    rw [hid] at hp
    have hcall : level.call v' = level.call v := by rw [Level.call, Level.call, hbefore]
    exact ⟨v', hv', p, hp, a, hcall ▸ ha', hchild⟩
  have hreport : level.run (host.unitsOver run) = level.run (host.unitsOver run') := by
    refine Level.run_congr fun v hv v' hv' hid hbefore => ?_
    obtain ⟨p, hp, hvisit⟩ := Level.visit_eq hv
    obtain ⟨p', hp', hvisit'⟩ := Level.visit_eq hv'
    rw [← hid, hp] at hp'
    cases hp'
    have hbody := (Pipeline.attempts_congr (hstep v hv v' hv' hid hbefore p hp)).2
    rw [hvisit, hvisit', ← hid, ← hbefore]
    unfold visit
    have hrun : p.run (host.unitsOver run p.implementation p.site) v.before level.bindings level.plan.mode =
        p.run (host.unitsOver run' p.implementation p.site) v.before level.bindings level.plan.mode := by
      unfold Pipeline.run Pipeline.layer instrumentedLayer
      unfold unitOf Level.call at hbody
      rw [hbody]
    rw [hrun]
  refine ⟨hreport, ?_⟩
  unfold levelEntries
  rw [← hreport]
  congr 1
  refine List.flatMap_congr fun v hv => ?_
  unfold visitEntries
  cases hp : level.plan.pipeline? v.stepId with
  | none => rfl
  | some p =>
    simp only
    have hcore := hstep v hv v (hreport ▸ hv) rfl rfl p hp
    have hattempts := (Pipeline.attempts_congr hcore).1
    rw [← hattempts]
    congr 1
    refine List.flatMap_congr fun a ha => ?_
    have hattempt : p.attempt (host.unitOf run p) a = p.attempt (host.unitOf run' p) a := by
      unfold Pipeline.attempt namespaceLayer
      rw [hcore a ha (hattempts ▸ ha)]
    unfold attemptEntries
    rw [hattempt, childEntries_congr fun child hchild =>
      (h child ⟨v, hv, p, hp, a, ha, hchild⟩ ⟨v, hreport ▸ hv, p, hp, a, hattempts ▸ ha, hchild⟩).2]

end

variable {host : Host} {limits : Limits} {level : Level} {report : Report} {entries : List Entry}

/-- A level comes to no more than one report. -/
theorem Runs.unique (h : host.Runs level report entries) {report' : Report} {entries' : List Entry}
    (h' : host.Runs level report' entries') : report' = report ∧ entries' = entries := by
  induction h generalizing report' entries' with
  | intro run record children ih =>
    cases h' with
    | intro run' record' children' =>
      have hagree : ∀ child, host.Opens run' _ child → host.Opens run _ child →
          run' child = run child ∧ record' child = record child :=
        fun child hopens' hopens => ih child hopens (children' child hopens')
      exact level_congr hagree

end Host

end Workflow
