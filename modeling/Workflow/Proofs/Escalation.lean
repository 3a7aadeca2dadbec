import Workflow.Proofs.Recording

/-! What trouble below a step does to a run. A guard that trips ends the run: whatever is in progress above it aborts
with its fault, from the inside out, and nothing else happens any more. All other trouble of a child is a failure of
the step that asked for it, and stays with the batch or the error edge of that step. -/

namespace Workflow

/-! ### Guards -/

namespace Subworkflow

theorem checkGuards_eq_error {frame : CallFrame} {limit : Nat} {identity : String} {fault : UnitFault}
    (h : checkGuards frame limit identity = .error fault) :
    ∃ cause, fault = .fatal cause ∧ cause.category = .recursion := by
  unfold checkGuards at h
  split at h
  · cases h
    exact ⟨_, rfl, rfl⟩
  · split at h
    · cases h
      exact ⟨_, rfl, rfl⟩
    · cases h

theorem storageMode_ne_fatal (params : Fields) (fault : Fault) : storageMode params ≠ .error (.fatal fault) := by
  intro h
  unfold storageMode at h
  split at h
  · cases h
  · split at h <;> cases h

theorem locate_ne_fatal (files : FileTree) (site : Site) (params : Fields) (fault : Fault) :
    locate files site params ≠ .error (.fatal fault) := by
  intro h
  unfold locate at h
  split at h <;> cases h

theorem load_ne_fatal (files : FileTree) (target : Target) (fault : Fault) :
    load files target ≠ .error (.fatal fault) := by
  intro h
  unfold load at h
  simp only [Except.mapError] at h
  split at h <;> cases h

theorem objectParam_ne_fatal (params : Fields) (key : String) (fault : Fault) :
    objectParam params key ≠ .error (.fatal fault) := by
  intro h
  unfold objectParam at h
  split at h <;> cases h

/-- Of all that can go wrong with preparing a workflow step, only its guard ends the run. -/
theorem invocation_eq_fatal {files : FileTree} {site : Site} {params : Fields} {context : Context} {fault : Fault} :
    invocation files site params context = .error (.fatal fault) ↔
      ∃ mode target, storageMode params = .ok mode ∧ locate files site params = .ok target ∧
        checkGuards context.frame (depthLimit site params) target.identity = .error (.fatal fault) := by
  simp only [invocation, bind_eq_error, storageMode_ne_fatal, locate_ne_fatal, load_ne_fatal, objectParam_ne_fatal,
    false_or, and_false, exists_false, or_false, reduceCtorEq]
  simp only [exists_and_left]

theorem openLevel_ne_fatal (registry : Registry) (site : Site) (i : Invocation) (fault : Fault) :
    openLevel registry site i ≠ .error (.fatal fault) := by
  intro h
  unfold openLevel at h
  split at h <;> cases h

/-- A child that a tripped guard has ended ends the run of its caller too. -/
theorem judge_eq_fatal (identity : String) {report : Report} {fault : Fault} :
    judge identity report = .error (.fatal fault) ↔ report.fatal = some fault ∧ fault.category = .recursion := by
  unfold judge
  split
  · rename_i cause hcause
    obtain ⟨hfatal, hcategory⟩ := Option.filter_eq_some_iff.mp hcause
    rw [hfatal]
    simp only [Except.error.injEq, UnitFault.fatal.injEq, Option.some.injEq]
    constructor
    · rintro rfl
      exact ⟨rfl, of_decide_eq_true hcategory⟩
    · exact fun h => h.1
  · rename_i hnone
    constructor
    · intro h
      split at h <;> cases h
    · rintro ⟨hfatal, hcategory⟩
      rw [hfatal] at hnone
      simp [hcategory] at hnone

theorem judge_eq_ok {identity : String} {report : Report} {executed : Json} (h : judge identity report = .ok executed) :
    report.status ≠ .failed ∧ executed = childResult report := by
  unfold judge at h
  split at h
  · cases h
  · split at h
    · cases h
    · rename_i hstatus
      cases h
      exact ⟨hstatus, rfl⟩

/-- What a failing child means for its step, unless a tripped guard has ended it. -/
theorem judge_of_failed {report : Report} (identity : String) (hfailed : report.status = .failed)
    (hfatal : ∀ fault, report.fatal = some fault → fault.category ≠ .recursion) :
    ∃ message details, judge identity report = .error (.failed message details) := by
  unfold judge
  split
  · rename_i fault hfault
    obtain ⟨hcause, hcategory⟩ := Option.filter_eq_some_iff.mp hfault
    exact absurd (of_decide_eq_true hcategory) (hfatal fault hcause)
  · rw [if_pos hfailed]
    exact ⟨_, _, rfl⟩

end Subworkflow

/-- How a result tells of a guard that has tripped: of no step, but of the workflow that was not gone into. -/
inductive Fault.TripTold : Fault → Failure → Prop
  | tooDeep (workflow : String) (depth max : Nat) : TripTold (.maxDepthExceeded workflow depth max) {
      stepId := none
      message := s!"WEAVE-050: Maximum workflow nesting depth {max} exceeded while calling '{workflow}'"
      category := .recursion
      phase := some "execution"
      fix := some "Reduce sub-workflow nesting or raise max_depth" }
  | circular (workflow : String) (stack : List String) : TripTold (.circularWorkflow workflow stack) {
      stepId := none
      message := "WEAVE-051: Circular workflow reference: " ++ Text.join " -> " stack ++ " -> " ++ workflow
      category := .recursion
      phase := some "execution"
      fix := some "Remove the cycle - a workflow cannot call itself through its children" }

theorem Fault.tripTold_ofFault {fault : Fault} (h : fault.category = .recursion) :
    fault.TripTold (.ofFault fault) := by
  cases fault with
  | maxDepthExceeded workflow depth max => exact .tooDeep workflow depth max
  | circularWorkflow workflow stack => exact .circular workflow stack
  | plan fault =>
    -- the category is that of the stage, and no stage has this one
    rw [Fault.category] at h
    cases hphase : fault.phase <;> simp [hphase, Phase.category] at h
  | _ => cases h

theorem StepOutcome.ofUnitFault_eq_aborted {stepId : String} {cause : UnitFault} {fault : Fault} :
    ofUnitFault stepId cause = .aborted fault ↔ cause = .fatal fault := by
  cases cause <;> simp [ofUnitFault]

namespace Host

section
variable {host : Host} {run : Level → Report} {p : Pipeline} {a call : Call} {child : Level}

/-- A level is kept from opening by force only where the guard of the step trips. -/
theorem opened_eq_fatal {fault : Fault} :
    host.opened p call = .error (.fatal fault) ↔
      ∃ mode target, Subworkflow.storageMode (Assoc.putAll p.literals call.params) = .ok mode ∧
        Subworkflow.locate host.files p.site (Assoc.putAll p.literals call.params) = .ok target ∧
        Subworkflow.checkGuards call.context.frame
          (Subworkflow.depthLimit p.site (Assoc.putAll p.literals call.params)) target.identity =
            .error (.fatal fault) := by
  rw [← Subworkflow.invocation_eq_fatal, opened_eq, bind_eq_error]
  simp only [Subworkflow.openLevel_ne_fatal, and_false, exists_false, or_false]

theorem category_of_opened_fatal {fault : Fault} (h : host.opened p call = .error (.fatal fault)) :
    fault.category = .recursion := by
  obtain ⟨_, _, _, _, hguard⟩ := opened_eq_fatal.mp h
  obtain ⟨cause, hcause, hcategory⟩ := Subworkflow.checkGuards_eq_error hguard
  cases hcause
  exact hcategory

theorem conclude_of_error {prepared : Json} {report : Report} {fault : UnitFault}
    (h : Subworkflow.judge child.plan.identity report = .error fault) :
    (conclude p call prepared child report).1 = .ofUnitFault p.stepId fault := by
  unfold conclude
  rw [h]

/-- The attempt of a workflow step aborts over its own parameters, or over a guard that trips here or further down. -/
theorem core_eq_aborted (hw : p.implementation = .subworkflow) {fault : Fault}
    (h : (p.core (host.unitOf run p) a).1 = .aborted fault) :
    p.leafCall a = .error fault ∨ fault.category = .recursion ∧ ∃ call, p.leafCall a = .ok call ∧
      (host.opened p call = .error (.fatal fault) ∨
        ∃ child, host.opened p call = .ok child ∧ (run child).fatal = some fault) := by
  cases hc : p.leafCall a with
  | error cause =>
    rw [Pipeline.core_of_leafCall_error _ hc] at h
    cases h
    exact .inl rfl
  | ok call =>
    right
    cases ho : host.opened p call with
    | error cause =>
      rw [core_of_opened_error hw hc ho] at h
      obtain rfl := StepOutcome.ofUnitFault_eq_aborted.mp h
      exact ⟨category_of_opened_fatal ho, call, rfl, .inl ho⟩
    | ok child =>
      obtain ⟨prepared, hcore⟩ := core_of_opened_ok hw hc ho
      rw [hcore] at h
      cases hjudge : Subworkflow.judge child.plan.identity (run child) with
      | error cause =>
        rw [conclude_of_error hjudge] at h
        obtain rfl := StepOutcome.ofUnitFault_eq_aborted.mp h
        obtain ⟨hfatal, hcategory⟩ := (Subworkflow.judge_eq_fatal _).mp hjudge
        exact ⟨hcategory, call, rfl, .inr ⟨child, ho, hfatal⟩⟩
      | ok executed =>
        unfold conclude at h
        rw [hjudge] at h
        cases h

end

end Host

/-! ### Unwinding -/

namespace Event

def trip? : Event → Option Fault
  | .tripped _ fault => some fault
  | _ => none

end Event

/-- Whatever these entries tell of has ended with the fault, a step on each of a range of levels among it. -/
structure Unwinds (fault : Fault) (top bottom : Nat) (entries : List Entry) : Prop where
  aborted : ∀ e ∈ entries, e.event.outcome? = some (.aborted fault)
  steps : ∀ k, top ≤ k → k < bottom → ∃ v, ⟨k, .ended v⟩ ∈ entries

/-- One guard trips in these entries, and after it there is only the unwinding of what was in progress. -/
def TripsOnce (top : Nat) (entries : List Entry) (k : Nat) (stepId : String) (fault : Fault) : Prop :=
  ∃ before after, entries = before ++ ⟨k, .tripped stepId fault⟩ :: after ∧
    (∀ e ∈ before, e.event.trip? = none) ∧ Unwinds fault top (k + 1) after

namespace TripsOnce

variable {top k : Nat} {entries : List Entry} {stepId : String} {fault : Fault}

theorem deeper (h : TripsOnce top entries k stepId fault) :
    TripsOnce (top + 1) (entries.map Entry.deeper) (k + 1) stepId fault := by
  obtain ⟨before, after, rfl, hbefore, hafter⟩ := h
  refine ⟨before.map Entry.deeper, after.map Entry.deeper, ?_, ?_, ?_, ?_⟩
  · rw [List.map_append, List.map_cons]
    rfl
  · intro e he
    obtain ⟨inner, hinner, rfl⟩ := List.mem_map.mp he
    exact hbefore inner hinner
  · intro e he
    obtain ⟨inner, hinner, rfl⟩ := List.mem_map.mp he
    exact hafter.aborted inner hinner
  · intro j htop hbottom
    obtain ⟨v, hv⟩ := hafter.steps (j - 1) (by omega) (by omega)
    refine ⟨v, List.mem_map.mpr ⟨_, hv, ?_⟩⟩
    simp only [Entry.deeper, Entry.mk.injEq, and_true]
    omega

/-- What comes before may hold no trip of its own, and what comes after must go on unwinding. -/
theorem within {above : Nat} (h : TripsOnce top entries k stepId fault) (front back : List Entry)
    (hfront : ∀ e ∈ front, e.event.trip? = none) (hback : Unwinds fault above top back) :
    TripsOnce above (front ++ entries ++ back) k stepId fault := by
  obtain ⟨before, after, rfl, hbefore, hafter⟩ := h
  refine ⟨front ++ before, after ++ back, by simp only [List.append_assoc, List.cons_append], ?_, ?_, ?_⟩
  · intro e he
    exact (List.mem_append.mp he).elim (hfront e) (hbefore e)
  · intro e he
    exact (List.mem_append.mp he).elim (hafter.aborted e) (hback.aborted e)
  · intro j habove hbottom
    by_cases hj : top ≤ j
    · obtain ⟨v, hv⟩ := hafter.steps j hj hbottom
      exact ⟨v, List.mem_append_left _ hv⟩
    · obtain ⟨v, hv⟩ := hback.steps j habove (Nat.lt_of_not_le hj)
      exact ⟨v, List.mem_append_right _ hv⟩

end TripsOnce

structure Report.EndedBy (report : Report) (fault : Fault) : Prop where
  status : report.status = .failed
  fatal : report.fatal = some fault
  errors : report.errors = []

theorem Report.EndedBy.failures {report : Report} {fault : Fault} (h : report.EndedBy fault)
    (hcategory : fault.category = .recursion) :
    report.result.status = .failed ∧ ∃ failure, report.result.errors = [failure] ∧ fault.TripTold failure := by
  refine ⟨h.status, .ofFault fault, ?_, Fault.tripTold_ofFault hcategory⟩
  unfold Report.result Report.failures
  rw [h.fatal, h.errors]
  rfl

/-- A step that aborts is the last and the only one of its level, and the level ends with its fault. -/
theorem Level.run_of_aborted {level : Level} {units : UnitMaker} {v : Visit} {fault : Fault}
    (hv : v ∈ (level.run units).visits) (h : v.outcome = .aborted fault) :
    (∃ before, (level.run units).visits = before ++ [v] ∧ ∀ w ∈ before, ∀ cause, w.outcome ≠ .aborted cause) ∧
      (level.run units).EndedBy fault := by
  rw [visits_eq] at hv ⊢
  cases hb : bindInputs level.plan.inputs level.params with
  | error cause =>
    simp only [hb] at hv
    exact absurd hv List.not_mem_nil
  | ok bindings =>
    simp only [hb] at hv ⊢
    obtain ⟨hlast, hending⟩ := walk_of_aborted hv h
    refine ⟨hlast, ?_⟩
    unfold run Plan.execute
    simp only [hb, Walk.report, hending]
    exact ⟨rfl, rfl, rfl⟩

def Escalates (report : Report) (entries : List Entry) : Prop :=
  ∀ k stepId fault, ⟨k, .tripped stepId fault⟩ ∈ entries →
    fault.category = .recursion ∧ TripsOnce 0 entries k stepId fault ∧ report.EndedBy fault

namespace Host

variable {host : Host} {run : Level → Report} {record : Level → List Entry} {level : Level} {p : Pipeline}
  {k : Nat} {stepId : String} {fault : Fault}

theorem childEntries_tripped {a : Call} (h : ∀ child, Escalates (run child) (record child))
    (ht : ⟨k, .tripped stepId fault⟩ ∈ host.childEntries record p a) :
    (p.core (host.unitOf run p) a).1 = .aborted fault ∧ fault.category = .recursion ∧
      TripsOnce 1 (host.childEntries record p a) k stepId fault := by
  rcases mem_childEntries.mp ht with ⟨child, hchild, inner, hinner, heq⟩ | ⟨cause, hchild, heq⟩
  · obtain ⟨below, event⟩ := inner
    cases heq
    obtain ⟨hcategory, htrips, hended⟩ := h child below stepId fault hinner
    obtain ⟨hw, call, hc, ho⟩ := child?_eq_some hchild
    refine ⟨?_, hcategory, ?_⟩
    · have hjudge := (Subworkflow.judge_eq_fatal child.plan.identity).mpr ⟨hended.fatal, hcategory⟩
      obtain ⟨prepared, hcore⟩ := core_of_opened_ok hw hc ho
      rw [hcore, conclude_of_error hjudge]
      rfl
    · unfold childEntries
      rw [hchild]
      exact htrips.deeper
  · cases heq
    obtain ⟨hw, call, hc, ho⟩ := child?_eq_some hchild
    refine ⟨?_, category_of_opened_fatal ho, [], [], ?_, by simp, by simp, ?_⟩
    · rw [core_of_opened_error hw hc ho]
      rfl
    · unfold childEntries
      rw [hchild]
      rfl
    · intro j htop hbottom
      omega

theorem attemptEntries_trip? {a : Call} (h : ∀ child, Escalates (run child) (record child))
    (hgoes : ∀ cause, (p.core (host.unitOf run p) a).1 ≠ .aborted cause) :
    ∀ e ∈ host.attemptEntries run record p a, e.event.trip? = none := by
  rintro ⟨k, event⟩ he
  cases event with
  | tripped stepId fault =>
    rcases List.mem_append.mp he with he | he
    · exact absurd (childEntries_tripped h he).1 (hgoes fault)
    · cases List.mem_singleton.mp he
  | _ => rfl

theorem unwinds_step (stepId : String) (a : Call) (after : Context) {outcome : StepOutcome} {v : Visit}
    (ha : outcome = .aborted fault) (hv : v.outcome = .aborted fault) :
    Unwinds fault 0 1 [⟨0, .attempted stepId a outcome after⟩, ⟨0, .ended v⟩] := by
  refine ⟨?_, ?_⟩
  · intro e he
    rcases List.mem_pair.mp he with rfl | rfl
    · exact congrArg some ha
    · exact congrArg some hv
  · intro j _ hj
    rw [Nat.lt_one_iff.mp hj]
    exact ⟨v, List.mem_pair.mpr (.inr rfl)⟩

/-- A trip in one of the attempts aborts the step, and the attempts before it hold no other. -/
theorem visitEntries_tripped {v : Visit} (h : ∀ child, Escalates (run child) (record child))
    (hv : v ∈ (level.run (host.unitsOver run)).visits)
    (ht : ⟨k, .tripped stepId fault⟩ ∈ host.visitEntries run record level v) :
    v.outcome = .aborted fault ∧ fault.category = .recursion ∧
      TripsOnce 0 (host.visitEntries run record level v) k stepId fault := by
  obtain ⟨p, hp, hvisit⟩ := Level.visit_eq hv
  have hentries : host.visitEntries run record level v =
      (p.attempts (host.unitOf run p) (level.call v)).flatMap (host.attemptEntries run record p) ++
        [⟨0, .ended v⟩] := by
    unfold visitEntries
    simp only [hp]
  rw [hentries] at ht ⊢
  rcases List.mem_append.mp ht with ht | ht
  · obtain ⟨a, ha, ht⟩ := List.mem_flatMap.mp ht
    rcases List.mem_append.mp ht with ht | ht
    · obtain ⟨hcore, hcategory, htrips⟩ := childEntries_tripped h ht
      obtain ⟨⟨before, hattempts, hbefore⟩, hbody⟩ := Pipeline.body_of_attempt_aborted _ ha hcore
      have houtcome : v.outcome = .aborted fault := by
        rw [hvisit]
        exact hbody
      refine ⟨houtcome, hcategory, ?_⟩
      have hattempt : (p.attempt (host.unitOf run p) a).1 = .aborted fault := by
        rw [Pipeline.attempt_outcome, hcore]
      have hfront : ∀ e ∈ before.flatMap (host.attemptEntries run record p), e.event.trip? = none := by
        intro e he
        obtain ⟨b, hb, he⟩ := List.mem_flatMap.mp he
        exact attemptEntries_trip? h (hbefore b hb) e he
      have hall := htrips.within _ _ hfront
        (unwinds_step p.stepId a (p.attempt (host.unitOf run p) a).2 hattempt houtcome)
      rw [hattempts, List.flatMap_append, List.flatMap_singleton]
      simpa only [attemptEntries, List.append_assoc, List.cons_append, List.nil_append] using hall
    · cases List.mem_singleton.mp ht
  · cases List.mem_singleton.mp ht

theorem level_escalates (h : ∀ child, Escalates (run child) (record child)) :
    Escalates (level.run (host.unitsOver run)) (host.levelEntries run record level) := by
  intro k stepId fault ht
  rcases List.mem_cons.mp ht with ht | ht
  · cases ht
  · obtain ⟨v, hv, ht⟩ := List.mem_flatMap.mp ht
    obtain ⟨houtcome, hcategory, htrips⟩ := visitEntries_tripped h hv ht
    obtain ⟨⟨before, hvisits, hbefore⟩, hended⟩ := Level.run_of_aborted hv houtcome
    refine ⟨hcategory, ?_, hended⟩
    have hfront : ∀ e ∈ (⟨0, .opened level⟩ : Entry) :: before.flatMap (host.visitEntries run record level),
        e.event.trip? = none := by
      rintro ⟨j, event⟩ he
      cases event with
      | tripped other cause =>
        rcases List.mem_cons.mp he with he | he
        · cases he
        · obtain ⟨w, hw, he⟩ := List.mem_flatMap.mp he
          have hmem : w ∈ (level.run (host.unitsOver run)).visits := by
            rw [hvisits]
            exact List.mem_append_left _ hw
          exact absurd (visitEntries_tripped h hmem he).1 (hbefore w hw cause)
      | _ => rfl
    have hback : Unwinds fault 0 0 [] := ⟨by simp, fun j _ hj => absurd hj (Nat.not_lt_zero j)⟩
    have hall := htrips.within _ [] hfront hback
    unfold levelEntries
    rw [hvisits, List.flatMap_append, List.flatMap_singleton]
    simpa only [List.append_nil, List.cons_append] using hall

theorem recordWithin_escalates (host : Host) (levels : Nat) (level : Level) :
    Escalates (host.runWithin levels level) (host.recordWithin levels level) := by
  induction levels generalizing level with
  | zero => exact fun _ _ _ ht => absurd ht List.not_mem_nil
  | succ levels ih => exact level_escalates ih

end Host

/-! ### Containment -/

namespace Host

/-- Trouble of a child that is not the doing of a guard. It does not open, for it cannot be loaded or built, or it fails
over missing inputs, a reference in strict mode, a failing step or its step limit. -/
inductive Trouble (host : Host) (run : Level → Report) (p : Pipeline) (call : Call) : Prop where
  | unopened (fault : UnitFault) (closed : host.opened p call = .error fault) (harmless : ∀ cause, fault ≠ .fatal cause)
  | failed (child : Level) (opens : host.opened p call = .ok child) (status : (run child).status = .failed)
      (harmless : ∀ cause, (run child).fatal = some cause → cause.category ≠ .recursion)

section
variable {host : Host} {run : Level → Report} {p : Pipeline} {a call : Call}

theorem core_of_trouble (hw : p.implementation = .subworkflow) (hc : p.leafCall a = .ok call)
    (h : host.Trouble run p call) :
    ∃ failure, (p.core (host.unitOf run p) a).1 = .failed failure ∧ failure.stepId = p.stepId ∧
      failure.category = .execution := by
  have hfailed (cause : UnitFault) (hcause : ∀ fault, cause ≠ .fatal fault) :
      ∃ failure, StepOutcome.ofUnitFault p.stepId cause = .failed failure ∧ failure.stepId = p.stepId ∧
        failure.category = .execution := by
    cases cause with
    | fatal fault => exact absurd rfl (hcause fault)
    | _ => exact ⟨_, rfl, rfl, rfl⟩
  cases h with
  | unopened fault closed harmless =>
    rw [core_of_opened_error hw hc closed]
    exact hfailed fault harmless
  | failed child opens status harmless =>
    obtain ⟨message, details, hjudge⟩ := Subworkflow.judge_of_failed child.plan.identity status harmless
    obtain ⟨prepared, hcore⟩ := core_of_opened_ok hw hc opens
    rw [hcore, conclude_of_error hjudge]
    exact hfailed (.failed message details) (by simp)

end

end Host

/-- A step that failed is left by its error edge, if it has one; otherwise its failure ends the walk. -/
def Plan.Routes (plan : Plan) (v : Visit) (failure : StepFailure) : Prop :=
  v.outcome = .failed failure ∧
    plan.follow v =
      match plan.successor? v.stepId errorAction with
      | none => .stop (.failed ⟨failure.stepId, failure.message, failure.category, some "execution", none⟩)
      | some handler => .go handler (v.after.warn [⟨failure.stepId, failure.message, failure.category, none, none⟩])

theorem Plan.routes_of_failed {plan : Plan} {v : Visit} {failure : StepFailure} (h : v.outcome = .failed failure) :
    plan.Routes v failure := by
  refine ⟨h, ?_⟩
  unfold follow
  cases plan.successor? v.stepId errorAction <;> simp only [h, containedFailure, routedWarning]

/-- What becomes of a step when an attempt of it fails. Outside a batch the failure is that of the step. A batch that
fails fast ends with the item; one that carries on attempts every item and completes, unless another item aborts. -/
def Level.Settles (level : Level) (unit : LeafUnit) (p : Pipeline) (v : Visit) (a : Call) (failure : StepFailure) :
    Prop :=
  match p.batch with
  | none => level.plan.Routes v failure
  | some batch =>
    match batch.onError with
    | .failFast => ∃ before item, p.attempts unit (level.call v) = before ++ [a] ∧
        a = itemCall batch.itemName (level.call v) item ∧
        let index := before.length
        level.plan.Routes v {
          stepId := p.stepId
          message := s!"Batch item {index} failed: " ++ failure.message
          category := .batch
          details := some (.obj [("index", .nat index), ("item", item)]) }
    | .carryOn => (∀ b ∈ p.attempts unit (level.call v), ∀ fault, (p.core unit b).1 ≠ .aborted fault) →
        ∃ items warnings values, resolveItems p.stepId batch (level.call v) = .ok (items, warnings) ∧
          p.attempts unit (level.call v) = items.map (itemCall batch.itemName (level.call v)) ∧
          v.outcome = .completed values defaultAction

theorem Level.settles_of_failed {level : Level} {units : UnitMaker} {p : Pipeline} {v : Visit} {a : Call}
    {failure : StepFailure} (hv : v ∈ (level.run units).visits) (hp : level.plan.pipeline? v.stepId = some p)
    (ha : a ∈ p.attempts (units p.implementation p.site) (level.call v))
    (h : (p.core (units p.implementation p.site) a).1 = .failed failure) :
    level.Settles (units p.implementation p.site) p v a failure := by
  have houtcome : v.outcome = (p.body (units p.implementation p.site) (level.call v)).1 := by
    obtain ⟨p', hp', hvisit⟩ := visit_eq hv
    rw [hp] at hp'
    cases hp'
    exact congrArg Visit.outcome hvisit
  unfold Settles
  cases hb : p.batch with
  | none =>
    rw [Pipeline.attempts_single _ hb] at ha
    rw [List.mem_singleton.mp ha] at h
    refine Plan.routes_of_failed ?_
    rw [houtcome, Pipeline.body_single _ hb, Pipeline.attempt_outcome, h]
  | some batch =>
    cases hi : resolveItems p.stepId batch (level.call v) with
    | error fault =>
      rw [(Pipeline.attempts_unresolved _ hb hi).1] at ha
      exact absurd ha List.not_mem_nil
    | ok resolved =>
      simp only
      cases hpolicy : batch.onError with
      | failFast =>
        obtain ⟨before, item, hattempts, hcall, hbody⟩ := Pipeline.body_of_failFast _ hb hpolicy hi ha h
        exact ⟨before, item, hattempts, hcall, Plan.routes_of_failed (houtcome.trans hbody)⟩
      | carryOn =>
        intro hgoes
        obtain ⟨hattempts, values, hbody⟩ := Pipeline.body_of_carryOn _ hb hpolicy hi hgoes
        exact ⟨resolved.1, resolved.2, values, hi, hattempts, houtcome.trans hbody⟩

/-- How trouble travels. The levels of a run differ only in how their children run, so what holds with children that
run anyhow holds at every nesting. -/
structure Host.Escalation (host : Host) : Prop where
  /-- A guard that trips anywhere ends the whole run, and the result tells of it and of nothing else. -/
  trips : ∀ (d : Document) (params : Fields) (options : PlanOptions) (plan : Plan),
    host.plan d params options = .ok plan →
      ∀ k stepId fault, ⟨k, .tripped stepId fault⟩ ∈ host.record (plan.top params) →
      fault.category = .recursion ∧ TripsOnce 0 (host.record (plan.top params)) k stepId fault ∧
        (host.run d params options).status = .failed ∧
        ∃ failure, (host.run d params options).errors = [failure] ∧ fault.TripTold failure
  /-- Any other trouble of a child is a failure of the attempt that asked for it, and the step settles that. -/
  contains : ∀ (run : Level → Report) (level : Level) (v : Visit) (p : Pipeline) (a call : Call),
    v ∈ (level.run (host.unitsOver run)).visits → level.plan.pipeline? v.stepId = some p →
    p.implementation = .subworkflow →
    a ∈ p.attempts (host.unitOf run p) (level.call v) → p.leafCall a = .ok call → host.Trouble run p call →
      ∃ failure, (p.core (host.unitOf run p) a).1 = .failed failure ∧ failure.stepId = p.stepId ∧
        failure.category = .execution ∧ level.Settles (host.unitOf run p) p v a failure
  /-- So a child makes its caller abort only with the fault of a guard. -/
  aborts : ∀ (run : Level → Report) (p : Pipeline) (a : Call) (fault : Fault), p.implementation = .subworkflow →
    (p.core (host.unitOf run p) a).1 = .aborted fault →
    p.leafCall a = .error fault ∨ fault.category = .recursion ∧ ∃ call, p.leafCall a = .ok call ∧
      (host.opened p call = .error (.fatal fault) ∨
        ∃ child, host.opened p call = .ok child ∧ (run child).fatal = some fault)

theorem only_trips_escalate (host : Host) : host.Escalation where
  trips := by
    intro d params options plan hp k stepId fault ht
    obtain ⟨hcategory, htrips, hended⟩ := Host.recordWithin_escalates host _ (plan.top params) k stepId fault ht
    have hrun : host.run d params options = (host.report (plan.top params)).result := by
      unfold Host.run
      rw [hp]
    rw [hrun]
    exact ⟨hcategory, htrips, hended.failures hcategory⟩
  contains := by
    intro run level v p a call hv hp hw ha hc ht
    obtain ⟨failure, hcore, hid, hcategory⟩ := Host.core_of_trouble hw hc ht
    exact ⟨failure, hcore, hid, hcategory, Level.settles_of_failed hv hp ha hcore⟩
  aborts := fun _ _ _ _ hw h => Host.core_eq_aborted hw h

/-- A workflow that goes one level deeper than it lets itself. -/
def deepDocument : Document where
  version := "1"
  name := none
  start := none
  steps := [⟨"deep", "workflow", none, [("workflow_ir", .obj []), ("max_depth", .nat 1)], none⟩]
  edges := []
  inputs := []
  outputs := []
  mode := .strict

/-- Runs it, with a step that would take over from a failure. -/
def callDocument : Document where
  version := "1"
  name := none
  start := none
  steps :=
    [⟨"call", "workflow", none, [("workflow_ir", deepDocument.toJson)], none⟩,
      ⟨"rescue", "echo", none, [], none⟩]
  edges := [⟨"call", "rescue", some "error"⟩]
  inputs := []
  outputs := []
  mode := .strict

theorem only_trips_escalate_call :
    ∃ host : Host, ∃ plan stepId fault failure, host.plan callDocument [] {} = .ok plan ∧
      ⟨1, .tripped stepId fault⟩ ∈ host.record (plan.top []) ∧ fault.TripTold failure ∧
      (host.run callDocument [] {}).errors = [failure] ∧ failure = {
        stepId := none
        message := "WEAVE-050: Maximum workflow nesting depth 1 exceeded while calling 'inline:deep'"
        category := .recursion
        phase := some "execution"
        fix := some "Reduce sub-workflow nesting or raise max_depth" } := by
  let host : Host := ⟨.builtin, .empty⟩
  have htrip : ((host.plan callDocument [] {}).toOption.any fun plan =>
      (host.record (plan.top [])).any fun e => e.nesting = 1 && e.event.trip?.isSome) = true := by decide +kernel
  cases hp : host.plan callDocument [] {} with
  | error fault =>
    rw [hp] at htrip
    cases htrip
  | ok plan =>
    rw [hp] at htrip
    obtain ⟨⟨k, event⟩, hmem, he⟩ := List.any_eq_true.mp htrip
    cases event with
    | tripped stepId fault =>
      simp only [Bool.and_eq_true, decide_eq_true_eq] at he
      rw [he.1] at hmem
      obtain ⟨_, _, _, failure, hlisted, htold⟩ :=
        (only_trips_escalate host).trips callDocument [] {} plan hp 1 stepId fault hmem
      refine ⟨host, plan, stepId, fault, failure, hp, hmem, htold, hlisted, ?_⟩
      refine List.singleton_inj.mp (hlisted.symm.trans ?_)
      decide +kernel
    | _ => simp [Event.trip?] at he

end Workflow
