import Workflow.Proofs.Trail

/-! What the fields of a result say of each other. A run that ends has one of two shapes: it has failed, with one failure
and without outputs, or nothing has failed and its warnings decide whether it counts as degraded. Every way out of a run
leaves one of the two. -/

namespace Workflow

namespace RunResult

inductive Settled (r : RunResult) : Prop where
  | failed (failure : Failure) (status : r.status = .failed) (errors : r.errors = [failure]) (outputs : r.outputs = [])
  | ended (status : r.status = if r.warnings.isEmpty then .success else .degraded) (errors : r.errors = [])

/-- The fields of a result tell the same story, to its reader and in the record itself. -/
structure Consistent (r : RunResult) : Prop where
  written : r.toJson.get? "success" = some (.bool r.succeeded) ∧ r.toJson.get? "status" = some (.str r.status.name)
  succeeded : r.succeeded = true ↔ r.status ≠ .failed
  failed : r.status = .failed ↔ r.errors ≠ []
  alone : r.status = .failed → (∃ failure, r.errors = [failure]) ∧ r.outputs = []
  degraded : r.status = .degraded ↔ r.errors = [] ∧ r.warnings ≠ []
  success : r.status = .success ↔ r.errors = [] ∧ r.warnings = []

theorem Settled.consistent {r : RunResult} (h : r.Settled) : r.Consistent := by
  have hwritten : r.toJson.get? "success" = some (.bool r.succeeded) ∧
      r.toJson.get? "status" = some (.str r.status.name) := ⟨rfl, rfl⟩
  have hsucceeded : r.succeeded = true ↔ r.status ≠ .failed := decide_eq_true_iff
  cases h with
  | failed failure status errors outputs =>
    refine ⟨hwritten, hsucceeded, ?_, fun _ => ⟨⟨failure, errors⟩, outputs⟩, ?_, ?_⟩
    all_goals simp [status, errors]
  | ended status errors =>
    by_cases hwarnings : r.warnings = []
    · have hsuccess : r.status = .success := by simp [status, hwarnings]
      refine ⟨hwritten, hsucceeded, ?_, fun hfailed => ?_, ?_, ?_⟩
      · simp [hsuccess, errors]
      · rw [hsuccess] at hfailed
        cases hfailed
      · simp [hsuccess, hwarnings]
      · simp [hsuccess, errors, hwarnings]
    · have hdegraded : r.status = .degraded := by simp [status, hwarnings]
      refine ⟨hwritten, hsucceeded, ?_, fun hfailed => ?_, ?_, ?_⟩
      · simp [hdegraded, errors]
      · rw [hdegraded] at hfailed
        cases hfailed
      · simp [hdegraded, errors, hwarnings]
      · simp [hdegraded, hwarnings]

theorem rejected_settled (fault : Fault) : (rejected fault).Settled := .failed (.ofFault fault) rfl rfl rfl

end RunResult

/-! ### Every way out of a run -/

/-- A run that a fault has ended. -/
theorem Report.settled_of_fault (plan : Plan) (context : Context) (fault : Fault) (visits : List Visit) :
    (failing plan context [] (some fault) visits).result.Settled :=
  .failed (.ofFault fault) rfl rfl rfl

theorem Walk.report_settled (w : Walk) (plan : Plan) (bindings : Fields) :
    (w.report plan bindings).result.Settled := by
  unfold report
  cases w.ending with
  | aborted fault => exact Report.settled_of_fault plan w.context fault w.visits
  | failed failure => exact .failed failure rfl rfl rfl
  | finished =>
    -- the warnings that decide are those after the outputs have been resolved
    exact .ended rfl rfl

theorem Level.run_settled (level : Level) (units : UnitMaker) : (level.run units).result.Settled := by
  rcases level.run_cases units with ⟨fault, _, hrun⟩ | ⟨_, w, hrun, _⟩
  · rw [hrun]
    exact Report.settled_of_fault level.plan level.context fault []
  · rw [hrun]
    exact w.report_settled level.plan level.bindings

namespace Host

theorem runWithin_settled (host : Host) (levels : Nat) (level : Level) :
    (host.runWithin levels level).result.Settled := by
  cases levels with
  | zero => exact Report.settled_of_fault level.plan level.context _ []
  | succ levels => exact level.run_settled _

theorem run_settled (host : Host) (d : Document) (params : Fields) (options : PlanOptions) :
    (host.run d params options).Settled := by
  unfold run
  cases host.plan d params options with
  | error fault => exact RunResult.rejected_settled fault
  | ok plan => exact host.runWithin_settled _ (plan.top params)

/-- However a run ends, before its first step or after its last, the fields of its result agree. -/
theorem run_consistent (host : Host) (d : Document) (params : Fields) (options : PlanOptions) :
    (host.run d params options).Consistent :=
  (host.run_settled d params options).consistent

end Host

end Workflow
