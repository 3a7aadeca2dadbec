import Workflow.Proofs.Agreement
import Workflow.Proofs.Trail

/-! What the depth limit is good for. It is handed down from level to level, and all that any level does with it is to
refuse children that would lie too deep. A refusal ends the whole run, so a run that ends in any other way is the same
run under every higher limit. -/

namespace Workflow

/-! ### Another limit -/

def Limits.withDepth (depth : Nat) (l : Limits) : Limits := { l with maxDepth := depth }

def Site.withDepth (depth : Nat) (s : Site) : Site := { s with limits := s.limits.withDepth depth }

def Pipeline.withDepth (depth : Nat) (p : Pipeline) : Pipeline := { p with site := p.site.withDepth depth }

def Plan.withDepth (depth : Nat) (plan : Plan) : Plan :=
  { plan with
    limits := plan.limits.withDepth depth
    pipelines := plan.pipelines.map fun e => (e.1, e.2.withDepth depth) }

def Level.withDepth (depth : Nat) (level : Level) : Level := { level with plan := level.plan.withDepth depth }

def PlanOptions.withDepth (depth : Nat) (options : PlanOptions) : PlanOptions :=
  { options with limits := options.limits.withDepth depth }

def Fault.isTooDeep : Fault → Bool
  | .maxDepthExceeded .. => true
  | _ => false

theorem Fault.category_of_isTooDeep {fault : Fault} (h : fault.isTooDeep = true) : fault.category = .recursion := by
  cases fault <;> first | rfl | cases h

/-- The units that the registry makes do not look at the depth limit, although their makers are told of all limits. Of
units of other makes this assumes what is documented of the limit: it is there for nested workflows alone. -/
def Registry.IgnoresDepth (registry : Registry) : Prop :=
  ∀ kind entry make, Assoc.get? registry kind = some entry → entry.implementation = .leaf make →
    ∀ site depth, make (Site.withDepth depth site) = make site

theorem Registry.builtin_ignoresDepth : Registry.builtin.IgnoresDepth := by
  intro kind entry make hentry hmake site depth
  rcases builtin_leaf hentry hmake with rfl | rfl | rfl
  all_goals rfl

theorem bind_eq_map_bind {ε α β : Type} {x : Except ε α} {f g : α → Except ε β} {h : β → β}
    (hrest : ∀ a, f a = (g a).map h) : x >>= f = (x >>= g).map h := by
  cases x with
  | error fault => rfl
  | ok a => exact hrest a

namespace Plan

theorem pipeline?_withDepth (depth : Nat) (plan : Plan) (stepId : String) :
    (plan.withDepth depth).pipeline? stepId = (plan.pipeline? stepId).map (Pipeline.withDepth depth) := by
  unfold pipeline? withDepth
  simp only
  induction plan.pipelines with
  | nil => rfl
  | cons e rest ih =>
    obtain ⟨id, p⟩ := e
    rw [List.map_cons, Assoc.get?_cons, Assoc.get?_cons, ih]
    split <;> rfl

/-- No stage of a build looks at the depth limit. -/
theorem build_withDepth (registry : Registry) (options : PlanOptions) (depth : Nat) (d : Document) :
    build registry (options.withDepth depth) d = (build registry options d).map (withDepth depth) := by
  unfold build
  refine bind_eq_map_bind fun _ => bind_eq_map_bind fun _ => bind_eq_map_bind fun resolved => bind_eq_map_bind fun _ =>
    bind_eq_map_bind fun _ => bind_eq_map_bind fun _ => ?_
  simp only [Except.map, withDepth, List.map_map]
  rfl

theorem withDepth_parallels (depth : Nat) (plan : Plan) : plan.Parallels (plan.withDepth depth) where
  missing id h := by rw [pipeline?_withDepth, h, Option.map_none]
  successor? _ _ := rfl
  start := rfl
  inputs := rfl
  outputs := rfl
  maxSteps := rfl

end Plan

namespace Subworkflow

variable {files : FileTree} {site : Site} {depth : Nat} {params : Fields}

theorem depthLimit_withDepth (h : site.limits.maxDepth ≤ depth) (params : Fields) :
    depthLimit site params ≤ depthLimit (site.withDepth depth) params := by
  unfold depthLimit
  split
  · exact h
  · rename_i limit _
    exact Nat.le_min.mpr ⟨Nat.min_le_left _ _, Nat.le_trans (Nat.min_le_right _ _) h⟩

/-- A higher limit changes the guards only where the lower one is in the way. -/
theorem checkGuards_deeper (frame : CallFrame) {limit limit' : Nat} (h : limit ≤ limit') (identity : String) :
    checkGuards frame limit' identity = checkGuards frame limit identity ∨
      checkGuards frame limit identity = .error (.fatal (.maxDepthExceeded identity (frame.depth + 1) limit)) := by
  unfold checkGuards
  by_cases hdeep : limit ≤ frame.depth
  · exact .inr (if_pos hdeep)
  · have hdeep' : ¬limit' ≤ frame.depth := by omega
    rw [if_neg hdeep, if_neg hdeep']
    exact .inl rfl

/-- A step prepares the same under a higher limit, unless it is refused for depth under the lower. -/
theorem invocation_deeper (h : site.limits.maxDepth ≤ depth) (files : FileTree) (params : Fields) (context : Context) :
    invocation files (site.withDepth depth) params context = invocation files site params context ∨
      ∃ fault, invocation files site params context = .error (.fatal fault) ∧ fault.isTooDeep = true := by
  unfold invocation
  cases storageMode params with
  | error fault => exact .inl rfl
  | ok mode =>
    have hlocate : locate files (site.withDepth depth) params = locate files site params := rfl
    rw [hlocate]
    cases locate files site params with
    | error fault => exact .inl rfl
    | ok target =>
      have hguards := checkGuards_deeper context.frame (depthLimit_withDepth h params) target.identity
      simp only [bind, Except.bind]
      rcases hguards with hsame | htripped
      · rw [hsame]
        exact .inl rfl
      · rw [htripped]
        exact .inr ⟨_, rfl, rfl⟩

theorem openLevel_withDepth (registry : Registry) (site : Site) (depth : Nat) (i : Invocation) :
    openLevel registry (site.withDepth depth) i = (openLevel registry site i).map (Level.withDepth depth) := by
  have hbuild := Plan.build_withDepth registry (childOptions site.limits i) depth i.document
  have hoptions : childOptions (site.withDepth depth).limits i = (childOptions site.limits i).withDepth depth := rfl
  unfold openLevel
  rw [hoptions, hbuild]
  cases Plan.build registry (childOptions site.limits i) i.document <;> rfl

end Subworkflow

/-! ### Levels under a higher limit -/

namespace Host

variable {host : Host} {limits : Limits} {level : Level} {run run' : Level → Report} {p : Pipeline} {depth : Nat}

/-- An attempt comes to the same under a higher limit, or is refused for depth, here or further down. -/
theorem core_deeper (hlow : p.site.limits.maxDepth ≤ depth)
    (hunits : ∀ make, p.implementation = .leaf make → make (p.site.withDepth depth) = make p.site) {a : Call}
    (hchild : ∀ child, host.child? p a = some (.ok child) →
      run' (child.withDepth depth) = run child ∨ ∃ fault, (run child).fatal = some fault ∧ fault.isTooDeep = true) :
    p.core (host.unitOf run' (p.withDepth depth)) a = p.core (host.unitOf run p) a ∨
      ∃ fault, (p.core (host.unitOf run p) a).1 = .aborted fault ∧ fault.isTooDeep = true := by
  cases hw : p.implementation with
  | leaf make =>
    have hmade : host.unitOf run' (p.withDepth depth) = make (p.site.withDepth depth) := by
      have hw' : (p.withDepth depth).implementation = .leaf make := hw
      unfold unitOf
      rw [hw']
      rfl
    left
    rw [hmade, hunits make hw]
    unfold unitOf
    rw [hw]
    rfl
  | subworkflow =>
    have hw' : (p.withDepth depth).implementation = .subworkflow := hw
    cases hc : p.leafCall a with
    | error fault =>
      left
      rw [Pipeline.core_of_leafCall_error _ hc, Pipeline.core_of_leafCall_error _ hc]
    | ok call =>
      have hc' : (p.withDepth depth).leafCall a = .ok call := hc
      rcases Subworkflow.invocation_deeper hlow host.files (Assoc.putAll p.literals call.params) call.context with
        hsame | ⟨fault, htripped, hdeep⟩
      · cases hi : Subworkflow.invocation host.files p.site (Assoc.putAll p.literals call.params) call.context with
        | error fault =>
          rw [hi] at hsame
          exact .inl ((core_of_invocation_error hw' hc' hsame run').trans (core_of_invocation_error hw hc hi run).symm)
        | ok i =>
          rw [hi] at hsame
          have hhere := core_of_invocation hw hc hi run
          have hdeeper := core_of_invocation hw' hc' hsame run'
          have hsite : (p.withDepth depth).site = p.site.withDepth depth := rfl
          rw [hsite, Subworkflow.openLevel_withDepth] at hdeeper
          cases ho : Subworkflow.openLevel host.registry p.site i with
          | error fault =>
            rw [ho] at hhere hdeeper
            exact .inl (hdeeper.trans hhere.symm)
          | ok child =>
            rw [ho] at hhere hdeeper
            have hopened : host.child? p a = some (.ok child) := by
              unfold child?
              simp only [hw, hc, opened_eq, hi]
              exact congrArg some ho
            rcases hchild child hopened with heq | ⟨fault, hfatal, hdeep⟩
            · simp only [Except.map, heq] at hdeeper
              exact .inl (hdeeper.trans hhere.symm)
            · refine .inr ⟨fault, ?_, hdeep⟩
              have hjudged : Subworkflow.judge child.plan.identity (run child) = .error (.fatal fault) :=
                (Subworkflow.judge_eq_fatal _).mpr ⟨hfatal, Fault.category_of_isTooDeep hdeep⟩
              rw [hhere]
              exact conclude_of_error hjudged
      · refine .inr ⟨fault, ?_, hdeep⟩
        rw [core_of_invocation_error hw hc htripped]
        rfl

theorem visit_deeper (hreg : host.registry.IgnoresDepth) (hlow : limits.maxDepth ≤ depth)
    (hb : level.Built host limits)
    (hchild : ∀ child : Level, child.Built host limits →
      run' (child.withDepth depth) = run child ∨ ∃ fault, (run child).fatal = some fault ∧ fault.isTooDeep = true)
    {stepId : String} (hp : level.plan.pipeline? stepId = some p) (bindings : Fields) (context : Context) :
    visit (host.unitsOver run') (level.plan.withDepth depth) bindings stepId (p.withDepth depth) context =
        visit (host.unitsOver run) level.plan bindings stepId p context ∨
      ∃ fault, (visit (host.unitsOver run) level.plan bindings stepId p context).outcome = .aborted fault ∧
        fault.isTooDeep = true := by
  obtain ⟨options, d, rfl, hbuild⟩ := hb
  obtain ⟨step, _, entry, _, hkind, rfl⟩ := Plan.pipeline?_eq_some hbuild hp
  let p := Plan.pipelineOf options step entry
  let call : Call := ⟨context, [], bindings, level.plan.mode⟩
  have hbody : p.body (host.unitOf run' (p.withDepth depth)) call = p.body (host.unitOf run p) call ∨
      ∃ fault, (p.body (host.unitOf run p) call).1 = .aborted fault ∧ fault.isTooDeep = true := by
    refine Pipeline.body_agrees fun a _ => ?_
    have hunits : ∀ make, p.implementation = .leaf make → make (p.site.withDepth depth) = make p.site :=
      fun make hmake => hreg step.kind entry make hkind hmake p.site depth
    refine core_deeper hlow hunits fun child hopened => hchild child ?_
    obtain ⟨_, call, _, hopened⟩ := child?_eq_some hopened
    obtain ⟨_, _, _, i, hplan⟩ := opened_eq_ok hopened
    exact ⟨Subworkflow.childOptions _ i, i.document, rfl, hplan⟩
  rcases hbody with heq | hended
  · left
    have hrun : (p.withDepth depth).run (host.unitOf run' (p.withDepth depth)) context bindings level.plan.mode =
        p.run (host.unitOf run p) context bindings level.plan.mode :=
      congrArg (fun body => instrumentedLayer p.stepId (fun _ => body) call) heq
    exact congrArg (fun ended : StepOutcome × Context => Visit.mk stepId context ended.1 ended.2) hrun
  · exact .inr hended

/-- A level comes to the same under a higher limit if the levels that it opens do, or it is cut off. -/
theorem level_deeper (hreg : host.registry.IgnoresDepth) (hlow : limits.maxDepth ≤ depth)
    (hb : level.Built host limits)
    (hchild : ∀ child : Level, child.Built host limits →
      run' (child.withDepth depth) = run child ∨ ∃ fault, (run child).fatal = some fault ∧ fault.isTooDeep = true) :
    (level.withDepth depth).run (host.unitsOver run') = level.run (host.unitsOver run) ∨
      ∃ fault, (level.run (host.unitsOver run)).fatal = some fault ∧ fault.isTooDeep = true := by
  refine (level.plan.withDepth_parallels depth).execute_eq rfl ?_ (fun _ => rfl) level.params
  intro bindings id p hp
  refine ⟨p.withDepth depth, by rw [Plan.pipeline?_withDepth, hp]; rfl, fun c => ?_⟩
  exact visit_deeper hreg hlow hb hchild hp bindings c

/-- With more levels left and under a higher limit a level comes to the same, or it is cut off. -/
theorem runWithin_deeper (hreg : host.registry.IgnoresDepth) (hlow : limits.maxDepth ≤ depth) {levels levels' : Nat}
    (hle : levels ≤ levels') {level : Level} (hb : level.Built host limits) :
    host.runWithin levels' (level.withDepth depth) = host.runWithin levels level ∨
      ∃ fault, (host.runWithin levels level).fatal = some fault ∧ fault.isTooDeep = true := by
  induction levels generalizing levels' level with
  | zero => exact .inr ⟨_, rfl, rfl⟩
  | succ levels ih =>
    cases levels' with
    | zero => omega
    | succ levels' => exact level_deeper hreg hlow hb fun child hchild => ih (by omega) hchild

/-- The depth limit only cuts runs off: a run that it has not ended is the same run under any higher limit, in every
field of its result, whatever limits the workflow steps at its levels set themselves. -/
theorem run_eq_of_higher_limit (host : Host) (hreg : host.registry.IgnoresDepth) (d : Document) (params : Fields)
    (options : PlanOptions) {depth : Nat} (hle : options.limits.maxDepth ≤ depth)
    (hended : ∀ identity level limit,
      Failure.ofFault (.maxDepthExceeded identity level limit) ∉ (host.run d params options).errors) :
    host.run d params (options.withDepth depth) = host.run d params options := by
  have hplan : host.plan d params (options.withDepth depth) = (host.plan d params options).map (Plan.withDepth depth) :=
    let named : PlanOptions := { options with external := options.external ++ Assoc.keys params }
    Plan.build_withDepth host.registry named depth d
  unfold run at hended ⊢
  rw [hplan]
  cases hp : host.plan d params options with
  | error fault => rfl
  | ok plan =>
    rw [hp] at hended
    simp only [Except.map] at hended ⊢
    have hlimits : plan.limits = options.limits := (top_built hp).limits_eq
    have hreport : host.report ((plan.withDepth depth).top params) =
        host.runWithin (depth + 1) ((plan.top params).withDepth depth) := rfl
    have hlevels : plan.limits.maxDepth + 1 ≤ depth + 1 := by
      rw [hlimits]
      omega
    rcases runWithin_deeper hreg hle hlevels (top_built hp) with heq | ⟨fault, hfatal, hdeep⟩
    · rw [hreport, heq]
      rfl
    · have hlisted : Failure.ofFault fault ∈ (host.report (plan.top params)).result.errors := by
        have hfatal : (host.report (plan.top params)).fatal = some fault := hfatal
        simp [Report.result, Report.failures, hfatal]
      cases fault with
      | maxDepthExceeded identity level limit => exact absurd hlisted (hended identity level limit)
      | _ => cases hdeep

end Host

/-- Runs a workflow that runs another, both within limits of their own. -/
def shallowDocument : Document where
  version := "1"
  name := none
  start := none
  steps :=
    [⟨"outer", "workflow", none,
      [("max_depth", .nat 1),
        ("workflow_ir", .obj [("nodes", .arr [.obj [("id", .str "inner"), ("type", .str "workflow"),
          ("params", .obj [("max_depth", .nat 2),
            ("workflow_ir", .obj [("nodes", .arr [.obj [("id", .str "leaf"), ("type", .str "echo")]])])])]])])], none⟩]
  edges := []
  inputs := []
  outputs := []
  mode := .strict

theorem run_eq_of_higher_limit_shallow :
    ∃ host : Host, (host.run shallowDocument [] ⟨none, .testing, none, none, []⟩).errors = [] ∧
      host.run shallowDocument [] (PlanOptions.withDepth 7 ⟨none, .testing, none, none, []⟩) =
        host.run shallowDocument [] ⟨none, .testing, none, none, []⟩ := by
  let host : Host := ⟨.builtin, .empty⟩
  have hended : (host.run shallowDocument [] ⟨none, .testing, none, none, []⟩).errors = [] := by decide +kernel
  refine ⟨host, hended, ?_⟩
  refine Host.run_eq_of_higher_limit host Registry.builtin_ignoresDepth shallowDocument [] _ (by decide) ?_
  intro identity level limit
  rw [hended]
  exact List.not_mem_nil

end Workflow
