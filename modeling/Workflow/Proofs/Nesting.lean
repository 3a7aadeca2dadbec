import Workflow.Proofs.Recording

/-! Runs end. The frame of a level bounds how deep it lies, so levels cannot be opened without end, and the count of
levels with which `Host.report` runs is never used up. -/

namespace Workflow

/-! ### Frames along a run -/

theorem visit_frame {units : UnitMaker} {p : Pipeline} (h : (units p.implementation p.site).KeepsFrame) (plan : Plan)
    (bindings : Fields) (stepId : String) (context : Context) :
    (visit units plan bindings stepId p context).after.frame = context.frame :=
  Pipeline.run_frame h context bindings plan.mode

/-- The walk hands a context on as a step left it, but for a warning. -/
theorem follow_frame {plan : Plan} {v : Visit} {next : String} {context : Context}
    (h : plan.follow v = .go next context) : context.frame = v.after.frame := by
  unfold Plan.follow at h
  cases hv : v.outcome with
  | completed values action =>
    simp only [hv] at h
    split at h
    · cases h
    · cases h
      rfl
  | failed failure =>
    simp only [hv] at h
    split at h
    · cases h
    · cases h
      exact Context.warn_frame _ _
  | aborted fault =>
    simp only [hv] at h
    cases h

theorem walk_frames {units : UnitMaker} {plan : Plan} {bindings : Fields} {budget : Nat} {stepId : String}
    {context : Context} (h : ∀ id p, plan.pipeline? id = some p → (units p.implementation p.site).KeepsFrame)
    {v : Visit} (hv : v ∈ (walk units plan bindings budget stepId context).visits) :
    v.before.frame = context.frame ∧ v.after.frame = context.frame := by
  have hkept : ∀ id p before after left, plan.pipeline? id = some p → before.frame = context.frame →
      plan.follow (visit units plan bindings id p before) = .go after left → left.frame = context.frame := by
    intro id p before after left hp hbefore hf
    rw [follow_frame hf, visit_frame (h id p hp), hbefore]
  obtain ⟨hbefore, p, hp, hvisit⟩ := walk_invariant (fun _ c => c.frame = context.frame) hkept rfl hv
  refine ⟨hbefore, ?_⟩
  rw [hvisit, visit_frame (h _ p hp), hbefore]

/-- Every unit that the registry makes leaves a context in its frame. Of units of other makes this assumes what is
documented of frames: plain values, handed down to child contexts and never shared, which nothing sets afterwards. -/
def Registry.KeepsFrame (registry : Registry) : Prop :=
  ∀ kind entry make, Assoc.get? registry kind = some entry → entry.implementation = .leaf make →
    ∀ site, (make site).KeepsFrame

structure Level.Bounded (registry : Registry) (limits : Limits) (level : Level) : Prop where
  limits_eq : level.plan.limits = limits
  pipelines : ∀ id p, level.plan.pipeline? id = some p → p.site.limits = limits ∧
    ∃ kind entry, Assoc.get? registry kind = some entry ∧ p.implementation = entry.implementation
  frame : level.context.frame.Sound limits.maxDepth

theorem Level.bounded_of_build {registry : Registry} {options : PlanOptions} {d : Document} {limits : Limits}
    {level : Level} (hb : Plan.build registry options d = .ok level.plan) (hl : options.limits = limits)
    (hf : level.context.frame.Sound limits.maxDepth) : level.Bounded registry limits where
  limits_eq := by
    obtain ⟨s, _, hplan⟩ := Plan.build_eq_ok_iff.mp hb
    rw [hplan]
    exact hl
  pipelines := by
    intro id p hp
    obtain ⟨step, _, entry, _, hentry, rfl⟩ := Plan.pipeline?_eq_some hb hp
    exact ⟨hl, step.kind, entry, hentry, rfl⟩
  frame := hf

theorem Subworkflow.finish_frame (stepId : String) (context : Context) (prepared executed : Json) :
    (finish stepId context prepared executed).1.frame = context.frame := by
  have hstored (data : Fields) :
      (if prepared.get? "storage_mode" = some (.str "shared") then context.replaceData data else context).frame =
        context.frame := by
    split <;> rfl
  unfold finish
  simp only
  split
  · rw [Context.warn_frame, hstored]
  · rw [Context.warn_frame, Context.warn_frame, hstored]

theorem Subworkflow.unit_keepsFrame (files : FileTree) (child : Invocation → Except UnitFault Json) (site : Site) :
    (unit files child site).KeepsFrame :=
  fun context prepared executed => finish_frame site.stepId context prepared executed

namespace Level.Bounded

variable {host : Host} {limits : Limits} {level child : Level} {run : Level → Report}

theorem unitOf_keepsFrame (hb : level.Bounded host.registry limits) (hreg : host.registry.KeepsFrame) {id : String}
    {p : Pipeline} (hp : level.plan.pipeline? id = some p) : (host.unitOf run p).KeepsFrame := by
  obtain ⟨_, kind, entry, hentry, himpl⟩ := hb.pipelines id p hp
  unfold Host.unitOf
  rw [himpl]
  cases hmake : entry.implementation with
  | leaf make => exact hreg kind entry make hentry hmake p.site
  | subworkflow => exact Subworkflow.unit_keepsFrame _ _ _

theorem visit_frames (hb : level.Bounded host.registry limits) (hreg : host.registry.KeepsFrame) {v : Visit}
    (hv : v ∈ (level.run (host.unitsOver run)).visits) :
    v.before.frame = level.context.frame ∧ v.after.frame = level.context.frame := by
  rw [visits_eq] at hv
  cases hbind : bindInputs level.plan.inputs level.params with
  | error fault =>
    simp only [hbind] at hv
    exact absurd hv List.not_mem_nil
  | ok bindings =>
    simp only [hbind] at hv
    have henter : (level.plan.enter level.context bindings).frame = level.context.frame := by simp [Plan.enter]
    rw [← henter]
    exact walk_frames (fun id p hp => hb.unitOf_keepsFrame hreg hp) hv

/-- An opened level lies one deeper than the level that opens it, and still within the limit. -/
theorem opens (hb : level.Bounded host.registry limits) (hreg : host.registry.KeepsFrame)
    (h : host.Opens run level child) :
    child.Bounded host.registry limits ∧ child.context.frame.depth = level.context.frame.depth + 1 := by
  obtain ⟨v, hv, p, hp, a, ha, hchild⟩ := h
  unfold Host.child? at hchild
  split at hchild
  · rename_i call _ hcall
    obtain ⟨hframe, hroom, hnew, i, hbuild⟩ := Host.opened_eq_ok (Option.some.inj hchild)
    have hcaller : call.context.frame = level.context.frame := by
      rw [Pipeline.leafCall_frame hcall, Pipeline.attempts_frame ha]
      exact (hb.visit_frames hreg hv).1
    obtain ⟨hlimits, _⟩ := hb.pipelines _ p hp
    rw [hcaller, hlimits] at hroom
    rw [hcaller] at hnew hframe
    have hsound : child.context.frame.Sound limits.maxDepth := hframe ▸ hb.frame.enter hroom hnew
    exact ⟨Level.bounded_of_build hbuild hlimits hsound, by rw [hframe]; rfl⟩
  · cases hchild

end Level.Bounded

/-! ### Runs end -/

namespace Host

variable {host : Host} {limits : Limits} {level : Level} {report : Report} {entries : List Entry}

/-- The depth limit bounds how many levels are left, so the count does not run out. -/
theorem runs_within (hreg : host.registry.KeepsFrame) (levels : Nat) (hb : level.Bounded host.registry limits)
    (hroom : limits.maxDepth < level.context.frame.depth + levels) :
    host.Runs level (host.runWithin levels level) (host.recordWithin levels level) := by
  induction levels generalizing level with
  | zero =>
    have hle := hb.frame.depth_le
    omega
  | succ levels ih =>
    refine .intro (host.runWithin levels) (host.recordWithin levels) fun child hopens => ?_
    obtain ⟨hchild, hdepth⟩ := hb.opens hreg hopens
    exact ih hchild (by omega)

theorem Runs.frames (hreg : host.registry.KeepsFrame) (h : host.Runs level report entries)
    (hb : level.Bounded host.registry limits) :
    ∀ e ∈ entries, ∀ c ∈ e.event.contexts,
      c.frame.Sound limits.maxDepth ∧ c.frame.depth = level.context.frame.depth + e.nesting := by
  induction h with
  | @intro level run record children ih =>
    -- a context of this level itself
    have hown {c : Context} (hc : c.frame = level.context.frame) :
        c.frame.Sound limits.maxDepth ∧ c.frame.depth = level.context.frame.depth + 0 := by
      rw [hc]
      exact ⟨hb.frame, rfl⟩
    intro e he c hc
    rcases levelEntries_cases he with rfl | ⟨v, hv, rfl | ⟨p, hp, a, ha, he⟩⟩
    · rw [List.mem_singleton.mp hc]
      exact hown rfl
    · obtain ⟨hbefore, hafter⟩ := hb.visit_frames hreg hv
      rcases List.mem_pair.mp hc with rfl | rfl
      · exact hown hbefore
      · exact hown hafter
    · have hcall : a.context.frame = level.context.frame :=
        (Pipeline.attempts_frame ha).trans (hb.visit_frames hreg hv).1
      rcases List.mem_append.mp he with he | he
      · rcases mem_childEntries.mp he with ⟨child, hchild, inner, hinner, rfl⟩ | ⟨fault, _, rfl⟩
        · have hopens : host.Opens run level child := ⟨v, hv, p, hp, a, ha, hchild⟩
          obtain ⟨hbounded, hdepth⟩ := hb.opens hreg hopens
          obtain ⟨hsound, hnesting⟩ := ih child hopens hbounded inner hinner c hc
          refine ⟨hsound, ?_⟩
          rw [hnesting, hdepth]
          simp only [Entry.deeper]
          omega
        · exact absurd hc List.not_mem_nil
      · rw [List.mem_singleton.mp he] at hc ⊢
        rcases List.mem_pair.mp hc with rfl | rfl
        · exact hown hcall
        · refine hown ?_
          rw [Pipeline.attempt_keepsFrame (hb.unitOf_keepsFrame hreg hp), hcall]

/-- A level comes to its report, and to no other, and every context on the way has a frame that is sound for the limit
and as deep as the level it belongs to. -/
structure EndsWithin (host : Host) (limit : Nat) (level : Level) : Prop where
  runs : ∀ report entries,
    host.Runs level report entries ↔ report = host.report level ∧ entries = host.record level
  frames : ∀ e ∈ host.record level, ∀ c ∈ e.event.contexts, c.frame.Sound limit ∧ c.frame.depth = e.nesting

theorem top_bounded {d : Document} {params : Fields} {options : PlanOptions} {plan : Plan}
    (hp : host.plan d params options = .ok plan) : (plan.top params).Bounded host.registry options.limits :=
  Level.bounded_of_build hp rfl (CallFrame.root_sound _ _)

/-- A document that does not compile is rejected. Any other runs to its end, whatever its files refer to and whatever
`max_depth` its steps ask for, and nowhere deeper than the limits allow. -/
theorem run_ends_within_depth (host : Host) (hreg : host.registry.KeepsFrame) (d : Document) (params : Fields)
    (options : PlanOptions) :
    match host.plan d params options with
    | .error fault => host.run d params options = .rejected fault
    | .ok plan =>
      host.run d params options = (host.report (plan.top params)).result ∧
        host.EndsWithin options.limits.maxDepth (plan.top params) := by
  unfold run
  cases hp : host.plan d params options with
  | error fault => rfl
  | ok plan =>
    have hb := top_bounded hp
    have hruns : host.Runs (plan.top params) (host.report (plan.top params)) (host.record (plan.top params)) := by
      refine runs_within hreg _ hb ?_
      rw [hb.limits_eq]
      omega
    refine ⟨rfl, ?_, ?_⟩
    · intro report entries
      constructor
      · exact hruns.unique
      · rintro ⟨rfl, rfl⟩
        exact hruns
    · intro e he c hc
      obtain ⟨hsound, hdepth⟩ := hruns.frames hreg hb e he c hc
      refine ⟨hsound, ?_⟩
      rw [hdepth]
      exact Nat.zero_add _

end Host

theorem Registry.builtin_keepsFrame : Registry.builtin.KeepsFrame := by
  intro kind entry make hentry hmake site
  rcases builtin_leaf hentry hmake with rfl | rfl | rfl
  all_goals exact fun _ _ _ => rfl

/-- A document that runs the file it stands in, and asks for more depth than there is. -/
def loopDocument : Document where
  version := "1"
  name := none
  start := none
  steps := [⟨"again", "workflow", none, [("workflow_ref", .str "/loop.json"), ("max_depth", .nat 99)], none⟩]
  edges := []
  inputs := []
  outputs := []
  mode := .strict

def loopHost : Host := ⟨.builtin, ⟨"/", [(["loop.json"], loopDocument.toJson.text.toUTF8)]⟩⟩

theorem run_ends_within_depth_loop :
    ∃ plan, loopHost.plan loopDocument [] {} = .ok plan ∧
      loopHost.run loopDocument [] {} = (loopHost.report (plan.top [])).result ∧
      loopHost.EndsWithin 10 (plan.top []) := by
  have hok : (loopHost.plan loopDocument [] {}).toOption.isSome = true := by decide +kernel
  have hends := Host.run_ends_within_depth loopHost Registry.builtin_keepsFrame loopDocument [] {}
  cases hp : loopHost.plan loopDocument [] {} with
  | error fault =>
    rw [hp] at hok
    cases hok
  | ok plan =>
    rw [hp] at hends
    exact ⟨plan, rfl, hends⟩

end Workflow