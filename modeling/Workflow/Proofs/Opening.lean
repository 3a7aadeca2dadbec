import Workflow.Proofs.Building
import Workflow.Proofs.Layers
import Workflow.Proofs.RoundTrip

/-! How a workflow step opens a level and what it makes of the report. The frame of the level is the one that its guard
has let pass. -/

namespace Workflow

/-! ### Frames -/

namespace CallFrame

/-- The workflows in progress stand on the stack once each, and none lies deeper than the limit. -/
structure Sound (limit : Nat) (f : CallFrame) : Prop where
  length : f.stack.length = f.depth + 1
  nodup : f.stack.Nodup
  depth_le : f.depth ≤ limit

theorem root_sound (limit : Nat) (identity : String) : (root identity).Sound limit :=
  ⟨rfl, List.nodup_singleton identity, Nat.zero_le limit⟩

theorem Sound.enter {limit : Nat} {f : CallFrame} {identity : String} (h : f.Sound limit) (hroom : f.depth < limit)
    (hnew : f.contains identity = false) : (f.enter identity).Sound limit := by
  refine ⟨?_, ?_, hroom⟩
  · rw [CallFrame.enter, List.length_append, h.length]
    rfl
  · have hmem : identity ∉ f.stack := by
      intro hmem
      rw [contains, List.contains_iff_mem.mpr hmem] at hnew
      cases hnew
    rw [CallFrame.enter, List.nodup_append]
    refine ⟨h.nodup, List.nodup_singleton identity, ?_⟩
    intro x hx y hy heq
    rw [heq, List.mem_singleton.mp hy] at hx
    exact hmem hx

end CallFrame

/-! ### Opening a level -/

namespace Subworkflow

theorem depthLimit_le (site : Site) (params : Fields) : depthLimit site params ≤ site.limits.maxDepth := by
  unfold depthLimit
  split
  · exact Nat.le_refl _
  · exact Nat.min_le_right _ _

theorem checkGuards_eq_ok {frame : CallFrame} {limit : Nat} {identity : String}
    (h : checkGuards frame limit identity = .ok ()) : frame.depth < limit ∧ frame.contains identity = false := by
  unfold checkGuards at h
  split at h
  · cases h
  · rename_i hroom
    split at h
    · cases h
    · rename_i hnew
      exact ⟨Nat.lt_of_not_le hroom, by simpa using hnew⟩

theorem shared_of_written {i : Invocation} (h : i.toJson.get? "storage_mode" = some (.str "shared")) :
    i.storageMode = .shared := by
  have hname : i.storageMode.name = "shared" := by
    have hread : i.toJson.get? "storage_mode" = some (.str i.storageMode.name) := rfl
    rw [hread, Option.some.injEq, Json.str.injEq] at h
    exact h
  cases hi : i.storageMode with
  | shared => rfl
  | _ =>
    rw [hi] at hname
    exact absurd hname (by decide)

/-- It is not written that everything is shared unless the parameters say so. -/
theorem unshared_of_invocation {files : FileTree} {site : Site} {params : Fields} {context : Context} {i : Invocation}
    (hmode : storageMode params ≠ .ok .shared) (h : invocation files site params context = .ok i) :
    i.toJson.get? "storage_mode" ≠ some (.str "shared") := by
  intro hshared
  have hprepared := (prepares_of_invocation h).mode
  rw [shared_of_written hshared] at hprepared
  exact hmode hprepared

theorem openLevel_eq_ok {registry : Registry} {site : Site} {i : Invocation} {child : Level}
    (h : openLevel registry site i = .ok child) :
    Plan.build registry (childOptions site.limits i) i.document = .ok child.plan ∧ child.plan.identity = i.identity ∧
      child.context.frame = i.frame := by
  unfold openLevel at h
  split at h
  · cases h
  rename_i plan hb
  cases h
  refine ⟨hb, ?_, rfl⟩
  obtain ⟨s, _, rfl⟩ := Plan.build_eq_ok_iff.mp hb
  rfl

/-- A level that is opened starts in a context of its own. -/
theorem openLevel_context {registry : Registry} {site : Site} {i : Invocation} {child : Level}
    (h : openLevel registry site i = .ok child) : child.context = .start i.data i.frame := by
  unfold openLevel at h
  split at h
  · cases h
  · cases h
    rfl

theorem openLevel_data {registry : Registry} {site : Site} {i : Invocation} {child : Level}
    (h : openLevel registry site i = .ok child) : child.context.data = Context.withoutReserved i.data := by
  rw [openLevel_context h]
  rfl

end Subworkflow

namespace Host

/-- The level that a call of a workflow step opens, or the fault that keeps it from opening one. -/
def opened (host : Host) (p : Pipeline) (call : Call) : Except UnitFault Level :=
  match Subworkflow.invocation host.files p.site (Assoc.putAll p.literals call.params) call.context with
  | .error fault => .error fault
  | .ok i =>
    match Invocation.ofJson? i.toJson with
    | none => .error (.failed "invalid sub-workflow invocation" none)
    | some read => Subworkflow.openLevel host.registry p.site read

variable {host : Host} {p : Pipeline} {call : Call} {child : Level}

/-- An invocation is read as it was written, so the level is opened from what has been prepared. -/
theorem opened_eq (host : Host) (p : Pipeline) (call : Call) :
    host.opened p call =
      Subworkflow.invocation host.files p.site (Assoc.putAll p.literals call.params) call.context >>=
        Subworkflow.openLevel host.registry p.site := by
  unfold opened
  cases hi : Subworkflow.invocation host.files p.site (Assoc.putAll p.literals call.params) call.context with
  | error fault => rfl
  | ok i =>
    simp only [Subworkflow.read_of_invocation hi]
    rfl

/-- An opened level lies one deeper, under a new identity, and is the plan of a document under the same limits. -/
theorem opened_eq_ok (h : host.opened p call = .ok child) :
    child.context.frame = call.context.frame.enter child.plan.identity ∧
      call.context.frame.depth < p.site.limits.maxDepth ∧
      call.context.frame.contains child.plan.identity = false ∧
      ∃ i : Invocation,
        Plan.build host.registry (Subworkflow.childOptions p.site.limits i) i.document = .ok child.plan := by
  rw [opened_eq] at h
  obtain ⟨i, hi, hopen⟩ := bind_eq_ok.mp h
  have hprepares := Subworkflow.prepares_of_invocation hi
  obtain ⟨target, _, hguards, _, hidentity, _⟩ := hprepares.target
  obtain ⟨hroom, hnew⟩ := Subworkflow.checkGuards_eq_ok hguards
  obtain ⟨hb, hname, hstart⟩ := Subworkflow.openLevel_eq_ok hopen
  rw [hstart, hname, hprepares.frame, hidentity]
  exact ⟨rfl, Nat.lt_of_lt_of_le hroom (Subworkflow.depthLimit_le _ _), hnew, i, hb⟩

end Host

/-! ### What a workflow step makes of its child -/

theorem Subworkflow.unit_attempt (files : FileTree) (child : Invocation → Except UnitFault Json) (site : Site)
    (prepared : Json) : (unit files child site).attempt prepared = (unit files child site).execute prepared :=
  LeafUnit.attempt_eq_execute (fun _ _ => rfl) prepared

namespace Host

/-- The unit of a step whose children run as given. -/
def unitOf (host : Host) (run : Level → Report) (p : Pipeline) : LeafUnit :=
  host.unitsOver run p.implementation p.site

/-- What the leaf of a workflow step comes to with the report of its child. -/
def conclude (p : Pipeline) (call : Call) (prepared : Json) (child : Level) (report : Report) :
    StepOutcome × Context :=
  match Subworkflow.judge child.plan.identity report with
  | .error fault => (.ofUnitFault p.stepId fault, call.context)
  | .ok executed =>
    let (context, output) := Subworkflow.finish p.stepId call.context prepared executed
    (.completed output.values (output.action.getD defaultAction), context)

variable {host : Host} {p : Pipeline} {a call : Call} {child : Level}

theorem core_of_invocation_error (hw : p.implementation = .subworkflow) (hc : p.leafCall a = .ok call)
    {fault : UnitFault}
    (hi : Subworkflow.invocation host.files p.site (Assoc.putAll p.literals call.params) call.context = .error fault)
    (run : Level → Report) : p.core (host.unitOf run p) a = (.ofUnitFault p.stepId fault, call.context) := by
  rw [Pipeline.core_of_leafCall_ok _ hc]
  unfold unitOf leafLayer
  rw [hw]
  simp only [unitsOver, Subworkflow.unit, hi, Except.map]

theorem core_of_invocation (hw : p.implementation = .subworkflow) (hc : p.leafCall a = .ok call) {i : Invocation}
    (hi : Subworkflow.invocation host.files p.site (Assoc.putAll p.literals call.params) call.context = .ok i)
    (run : Level → Report) :
    p.core (host.unitOf run p) a =
      match Subworkflow.openLevel host.registry p.site i with
      | .error fault => (.ofUnitFault p.stepId fault, call.context)
      | .ok child => conclude p call i.toJson child (run child) := by
  rw [Pipeline.core_of_leafCall_ok _ hc]
  unfold unitOf leafLayer
  rw [hw]
  simp only [unitsOver, Subworkflow.unit_attempt]
  simp only [Subworkflow.unit, hi, Except.map, Subworkflow.read_of_invocation hi, Subworkflow.runChild]
  cases ho : Subworkflow.openLevel host.registry p.site i with
  | error fault => rfl
  | ok child =>
    have hname := (Subworkflow.openLevel_eq_ok ho).2.1
    simp only [conclude, hname]
    cases Subworkflow.judge i.identity (run child) with
    | error fault => rfl
    | ok executed => rfl

theorem core_of_opened_error (hw : p.implementation = .subworkflow) (hc : p.leafCall a = .ok call)
    {fault : UnitFault} (h : host.opened p call = .error fault) (run : Level → Report) :
    p.core (host.unitOf run p) a = (.ofUnitFault p.stepId fault, call.context) := by
  rw [opened_eq] at h
  rcases bind_eq_error.mp h with hi | ⟨i, hi, hopen⟩
  · exact core_of_invocation_error hw hc hi run
  · rw [core_of_invocation hw hc hi, hopen]

/-- The report of the child is all that an attempt takes from running it. -/
theorem core_of_opened_ok (hw : p.implementation = .subworkflow) (hc : p.leafCall a = .ok call)
    (h : host.opened p call = .ok child) :
    ∃ prepared, ∀ run, p.core (host.unitOf run p) a = conclude p call prepared child (run child) := by
  rw [opened_eq] at h
  obtain ⟨i, hi, hopen⟩ := bind_eq_ok.mp h
  refine ⟨i.toJson, fun run => ?_⟩
  rw [core_of_invocation hw hc hi, hopen]

end Host

end Workflow
