import Workflow.Proofs.Agreement
import Workflow.Proofs.Escalation

/-! Strict and permissive runs of one document. A problem with a reference ends a strict run and leaves a warning in a
permissive one; that is all the difference, so a strict run that meets no such problem and a permissive run are the
same run. Children keep the mode of their own documents in both. -/

namespace Workflow

def Fault.isIssue : Fault → Bool
  | .unresolvedTemplate .. | .typeMismatch .. | .invalidBatchItems .. | .nestedAccess .. | .undeclaredOutput .. => true
  | _ => false

theorem Fault.isIssue_of_recursion {fault : Fault} (h : fault.category = .recursion) : fault.isIssue = false := by
  cases fault <;> first | rfl | cases h

/-! ### Settling -/

theorem map_eq_bind {ε α β : Type} (x : Except ε α) (f : α → β) : x.map f = x >>= fun a => .ok (f a) := by
  cases x <;> rfl

/-- What strict mode lets pass comes to the same in permissive mode; what it raises is an issue, or is raised in
permissive mode as well, where no issue is ever raised. -/
structure Relaxes {α : Type} (strict permissive : Except Fault α) : Prop where
  agrees : ∀ a, strict = .ok a → permissive = .ok a
  raises : ∀ fault, strict = .error fault → fault.isIssue = true ∨ permissive = .error fault
  spares : ∀ fault, permissive = .error fault → fault.isIssue = false

namespace Relaxes

variable {α β : Type}

/-- What does not ask for the mode. -/
theorem same {x : Except Fault α} (h : ∀ fault, x = .error fault → fault.isIssue = false) : Relaxes x x :=
  ⟨fun _ hok => hok, fun _ herror => .inr herror, h⟩

theorem pure (a : α) : Relaxes (.ok a) (.ok a) := same (by simp)

theorem settle {issue : Fault} (h : issue.isIssue = true) (warnings : List Warning) :
    Relaxes (Mode.strict.settle issue warnings) (Mode.permissive.settle issue warnings) := by
  refine ⟨?_, ?_, ?_⟩
  · intro _ hok
    cases hok
  · intro fault herror
    cases herror
    exact .inl h
  · intro _ herror
    cases herror

theorem bind {strict permissive : Except Fault α} (h : Relaxes strict permissive) {f g : α → Except Fault β}
    (hrest : ∀ a, Relaxes (f a) (g a)) : Relaxes (strict >>= f) (permissive >>= g) := by
  have hspares : ∀ fault, permissive >>= g = .error fault → fault.isIssue = false := by
    intro fault hfault
    rcases bind_eq_error.mp hfault with hp | ⟨a, _, hg⟩
    · exact h.spares fault hp
    · exact (hrest a).spares fault hg
  cases hs : strict with
  | ok a =>
    rw [h.agrees a hs] at hspares ⊢
    exact ⟨(hrest a).agrees, (hrest a).raises, hspares⟩
  | error fault =>
    refine ⟨?_, ?_, hspares⟩
    · intro _ hok
      cases hok
    · intro cause hcause
      cases hcause
      exact (h.raises fault hs).imp id fun hp => bind_eq_error.mpr (.inl hp)

theorem map {strict permissive : Except Fault α} (h : Relaxes strict permissive) (f : α → β) :
    Relaxes (strict.map f) (permissive.map f) := by
  rw [map_eq_bind, map_eq_bind]
  exact h.bind fun a => pure (f a)

theorem foldlM {f g : β → α → Except Fault β} {xs : List α} (b : β) (h : ∀ b, ∀ x ∈ xs, Relaxes (f b x) (g b x)) :
    Relaxes (xs.foldlM f b) (xs.foldlM g b) := by
  induction xs generalizing b with
  | nil => exact pure b
  | cons x rest ih =>
    rw [List.foldlM_cons, List.foldlM_cons]
    exact (h b x List.mem_cons_self).bind fun b => ih b fun b y hy => h b y (List.mem_cons_of_mem x hy)

theorem mapM {f g : α → Except Fault β} {xs : List α} (h : ∀ x, Relaxes (f x) (g x)) :
    Relaxes (xs.mapM f) (xs.mapM g) := by
  induction xs with
  | nil => exact pure []
  | cons x rest ih =>
    rw [List.mapM_cons, List.mapM_cons]
    exact (h x).bind fun b => ih.bind fun bs => pure (b :: bs)

end Relaxes

/-! ### Steps -/

def Call.permissive (call : Call) : Call := { call with mode := .permissive }

theorem paramIssue?_isIssue {stepId : String} {declared : Assoc SemanticType} {key : String} {raw : Json} {r : Resolved}
    {issue : Fault} (h : paramIssue? stepId declared key raw r = some issue) : issue.isIssue = true := by
  unfold paramIssue? at h
  split at h
  · cases h
    rfl
  · split at h
    · split at h
      · cases h
      · split at h
        · cases h
        · cases h
          rfl
    · cases h

theorem resolveParams_relaxes (stepId : String) (templated : Fields) (declared : Assoc SemanticType) (depth : Nat)
    {call : Call} (h : call.mode = .strict) :
    Relaxes ((resolveParams stepId templated declared depth call).map Call.permissive)
      (resolveParams stepId templated declared depth call.permissive) := by
  unfold resolveParams
  simp only [map_eq_bind, bind_assoc]
  refine (Relaxes.foldlM _ ?_).bind fun _ => .pure _
  intro warnings issue hissue
  obtain ⟨e, _, he⟩ := List.mem_filterMap.mp hissue
  rw [h]
  exact .settle (paramIssue?_isIssue he) warnings

theorem resolveItems_relaxes (stepId : String) (batch : Batch) {call : Call} (h : call.mode = .strict) :
    Relaxes (resolveItems stepId batch call) (resolveItems stepId batch call.permissive) := by
  unfold resolveItems
  have hsettle (issue : Fault) (hissue : issue.isIssue = true) :
      Relaxes ((call.mode.settle issue call.context.journal.warnings).map fun warnings => (([] : List Json), warnings))
        ((call.permissive.mode.settle issue call.context.journal.warnings).map fun warnings => ([], warnings)) := by
    rw [h]
    exact (Relaxes.settle hissue _).map _
  simp only [show call.permissive.scope = call.scope from rfl, show call.permissive.context = call.context from rfl]
  split
  · split
    · exact .pure _
    · exact hsettle _ rfl
  · exact hsettle _ rfl

namespace Pipeline

variable {p : Pipeline} {call : Call}

theorem leafCall_relaxes (h : call.mode = .strict) :
    Relaxes ((p.leafCall call).map Call.permissive) (p.leafCall call.permissive) := by
  unfold leafCall
  split
  · exact .pure call.permissive
  · exact resolveParams_relaxes _ _ _ _ h

/-- An attempt comes to the same in both modes, or the strict one aborts with an issue. The leaf sees no mode. -/
theorem core_relaxes (unit : LeafUnit) (h : call.mode = .strict) :
    p.core unit call.permissive = p.core unit call ∨
      ∃ fault, (p.core unit call).1 = .aborted fault ∧ fault.isIssue = true := by
  have hrelaxes := leafCall_relaxes (p := p) h
  cases hc : p.leafCall call with
  | error fault =>
    rw [hc] at hrelaxes
    rcases hrelaxes.raises fault rfl with hfault | hc'
    · exact .inr ⟨fault, by rw [core_of_leafCall_error unit hc], hfault⟩
    · left
      rw [core_of_leafCall_error unit hc, core_of_leafCall_error unit hc']
      rfl
  | ok settled =>
    left
    rw [hc] at hrelaxes
    rw [core_of_leafCall_ok unit hc, core_of_leafCall_ok unit (hrelaxes.agrees settled.permissive rfl)]
    rfl

theorem body_relaxes (unit : LeafUnit) (h : call.mode = .strict) :
    p.body unit call.permissive = p.body unit call ∨
      ∃ fault, (p.body unit call).1 = .aborted fault ∧ fault.isIssue = true := by
  by_cases hissue : ∃ a ∈ p.attempts unit call, ∃ fault, (p.core unit a).1 = .aborted fault ∧ fault.isIssue = true
  · obtain ⟨a, ha, fault, hcore, hfault⟩ := hissue
    exact .inr ⟨fault, (body_of_attempt_aborted unit ha hcore).2, hfault⟩
  · have hsame : ∀ a ∈ p.attempts unit call, a.mode = .strict → p.attempt unit a.permissive = p.attempt unit a := by
      intro a ha hmode
      rcases core_relaxes (p := p) unit hmode with heq | ⟨fault, hcore, hfault⟩
      · simp only [attempt, namespaceLayer, heq]
      · exact absurd ⟨a, ha, fault, hcore, hfault⟩ hissue
    cases hb : p.batch with
    | none =>
      left
      rw [body_single unit hb, body_single unit hb]
      refine hsame call ?_ h
      rw [attempts_single unit hb]
      exact List.mem_singleton_self call
    | some batch =>
      have hitems := resolveItems_relaxes p.stepId batch h
      cases hi : resolveItems p.stepId batch call with
      | error fault =>
        rcases hitems.raises fault hi with hfault | hi'
        · exact .inr ⟨fault, (attempts_unresolved unit hb hi).2, hfault⟩
        · left
          rw [body_batch unit hb, body_batch unit hb]
          unfold batchLayer
          simp only [hi, hi']
          rfl
      | ok resolved =>
        left
        obtain ⟨items, warnings⟩ := resolved
        rw [attempts_batch unit hb hi] at hsame
        have hagree : ∀ r ∈ batchRuns batch (p.attempt unit) call items,
            ∀ r' ∈ batchRuns batch (p.attempt unit) call.permissive items, r'.item = r.item →
              p.attempt unit (itemCall batch.itemName call r.item) =
                p.attempt unit (itemCall batch.itemName call.permissive r.item) := by
          intro r hr _ _ _
          exact (hsame (itemCall batch.itemName call r.item) (List.mem_map.mpr ⟨r, hr, rfl⟩) h).symm
        have hcontext : call.permissive.context = call.context := rfl
        rw [body_batch unit hb, body_batch unit hb]
        exact ((batchLayer_congr hcontext hi (hitems.agrees _ hi) hagree).2 _).symm

end Pipeline

/-! ### Walks -/

def Plan.permissive (plan : Plan) : Plan := { plan with mode := .permissive }

theorem visit_relaxes (units : UnitMaker) {plan : Plan} (h : plan.mode = .strict) (bindings : Fields) (stepId : String)
    (p : Pipeline) (context : Context) :
    visit units plan.permissive bindings stepId p context = visit units plan bindings stepId p context ∨
      ∃ fault, (visit units plan bindings stepId p context).outcome = .aborted fault ∧ fault.isIssue = true := by
  let call : Call := ⟨context, [], bindings, plan.mode⟩
  have hstrict : call.mode = .strict := h
  rcases Pipeline.body_relaxes (p := p) (units p.implementation p.site) hstrict with heq | haborted
  · left
    have hcall : call.permissive = ⟨context, [], bindings, .permissive⟩ := rfl
    rw [hcall] at heq
    simp only [visit, Pipeline.run, Pipeline.layer, instrumentedLayer, Plan.permissive, heq]
    rfl
  · exact .inr haborted

theorem Plan.permissive_parallels (plan : Plan) : plan.Parallels plan.permissive :=
  ⟨fun _ h => h, fun _ _ => rfl, rfl, rfl, rfl, rfl⟩

theorem execute_relaxes (units : UnitMaker) {plan : Plan} (h : plan.mode = .strict) (context : Context)
    (params : Fields) :
    plan.permissive.execute units context params = plan.execute units context params ∨
      ∃ fault, (plan.execute units context params).fatal = some fault ∧ fault.isIssue = true := by
  refine plan.permissive_parallels.execute_eq rfl ?_ (fun _ => rfl) params
  intro bindings id p hp
  exact ⟨p, hp, fun c => visit_relaxes units h bindings id p c⟩

/-! ### Building -/

namespace Plan

theorem checkAccess_isIssue {stepId : String} {r : Reference} {source : Interface} {issue : Fault}
    (h : checkAccess stepId r source = .issue issue) : issue.isIssue = true := by
  unfold checkAccess at h
  split at h
  · split at h
    · cases h
      rfl
    · split at h
      · cases h
      · simp only at h
        split at h
        · cases h
          rfl
        · cases h
        · split at h
          · cases h
          · split at h
            · cases h
            · cases h
              rfl
  · cases h

theorem settleAccess_relaxes (interfaces : Assoc Interface) (stepId : String) (warnings : List Warning)
    (r : Reference) :
    Relaxes (settleAccess .strict interfaces stepId warnings r)
      (settleAccess .permissive interfaces stepId warnings r) := by
  unfold settleAccess
  split
  · exact .pure warnings
  · split
    · exact .pure warnings
    · split
      · exact .pure warnings
      · exact .pure _
      · rename_i hissue
        exact .settle (checkAccess_isIssue hissue) warnings

theorem checkInterfaces_relaxes (interfaces : Assoc Interface) (steps : List Step) :
    Relaxes (checkInterfaces .strict interfaces steps) (checkInterfaces .permissive interfaces steps) := by
  unfold checkInterfaces
  refine .foldlM _ fun warnings step _ => ?_
  exact .foldlM _ fun warnings r _ => settleAccess_relaxes interfaces step.id warnings r

end Plan

def PlanOptions.under (options : PlanOptions) (mode : Mode) : PlanOptions := { options with mode := some mode }

namespace Plan

variable {registry : Registry} {options : PlanOptions} {d : Document} {plan : Plan} {fault : Fault}

theorem checkIdentity_relaxes (d : Document) : Relaxes d.checkIdentity d.checkIdentity := by
  refine .same fun fault h => ?_
  unfold Document.checkIdentity at h
  split at h <;> cases h
  rfl

theorem validate_relaxes (seen : Document) (external : List String) :
    Relaxes (validate seen external) (validate seen external) := by
  refine .same fun fault h => ?_
  unfold validate at h
  simp only at h
  split at h <;> cases h
  rfl

theorem resolveKind_relaxes (registry : Registry) (step : Step) :
    Relaxes (resolveKind registry step) (resolveKind registry step) := by
  refine .same fun fault h => ?_
  unfold resolveKind at h
  split at h <;> cases h
  rfl

theorem wire_relaxes (ids : List String) (edges : List Edge) : Relaxes (wire ids edges) (wire ids edges) := by
  refine .foldlM _ fun w e _ => .same fun fault h => ?_
  unfold addEdge at h
  split at h <;> cases h
  rfl

theorem detectStart_relaxes (d : Document) : Relaxes (detectStart d) (detectStart d) := by
  refine .same fun fault h => ?_
  unfold detectStart at h
  split at h
  · split at h <;> cases h
    rfl
  · split at h <;> cases h
    rfl

/-- Of the stages of a build only the check of the accesses asks for the mode. -/
theorem build_relaxes (registry : Registry) (options : PlanOptions) (d : Document) :
    Relaxes ((build registry (options.under .strict) d).map permissive)
      (build registry (options.under .permissive) d) := by
  simp only [build, map_eq_bind, bind_assoc]
  refine (checkIdentity_relaxes d).bind fun _ => ?_
  refine (validate_relaxes _ _).bind fun _ => ?_
  refine (Relaxes.mapM (resolveKind_relaxes registry)).bind fun _ => ?_
  refine (checkInterfaces_relaxes _ _).bind fun _ => ?_
  refine (wire_relaxes _ _).bind fun _ => ?_
  refine (detectStart_relaxes d).bind fun _ => ?_
  exact .pure _

theorem build_mode (h : build registry options d = .ok plan) : plan.mode = options.mode.getD d.mode := by
  obtain ⟨s, _, rfl⟩ := build_eq_ok_iff.mp h
  rfl

end Plan

/-! ### Runs -/

/-- A fatal fault that a unit hands out itself. -/
inductive LeafUnit.Raises (unit : LeafUnit) (fault : Fault) : Prop where
  | prepare (params : Fields) (context : Context) (h : unit.prepare params context = .error (.fatal fault))
  | attempt (prepared : Json) (h : unit.attempt prepared = .error (.fatal fault))
  | finalize (context : Context) (prepared executed : Json)
      (h : (unit.finalize context prepared executed).2 = .error (.fatal fault))

/-- No unit that the registry makes passes a fault of its own off as a problem with a reference. Of units of other makes
this assumes what is documented of fatal faults: they are there for recursion guards. -/
def Registry.RaisesNoIssue (registry : Registry) : Prop :=
  ∀ kind entry make, Assoc.get? registry kind = some entry → entry.implementation = .leaf make →
    ∀ site fault, (make site).Raises fault → fault.isIssue = false

theorem leafLayer_eq_aborted {stepId : String} {unit : LeafUnit} {literals : Fields} {call : Call} {fault : Fault}
    (h : (leafLayer stepId unit literals call).1 = .aborted fault) : unit.Raises fault := by
  unfold leafLayer at h
  simp only at h
  cases hp : unit.prepare (Assoc.putAll literals call.params) call.context with
  | error cause =>
    rw [hp] at h
    exact .prepare _ _ (StepOutcome.ofUnitFault_eq_aborted.mp h ▸ hp)
  | ok prepared =>
    rw [hp] at h
    simp only at h
    cases he : unit.attempt prepared with
    | error cause =>
      rw [he] at h
      exact .attempt _ (StepOutcome.ofUnitFault_eq_aborted.mp h ▸ he)
    | ok executed =>
      rw [he] at h
      simp only at h
      refine .finalize call.context prepared executed ?_
      cases hf : unit.finalize call.context prepared executed with
      | mk context result =>
        rw [hf] at h
        cases result with
        | error cause =>
          simp only at h ⊢
          rw [StepOutcome.ofUnitFault_eq_aborted.mp h]
        | ok output => cases h

theorem Call.eq_permissive {call : Call} (h : call.mode = .permissive) :
    ∃ strict : Call, strict.mode = .strict ∧ strict.permissive = call := by
  refine ⟨{ call with mode := .strict }, rfl, ?_⟩
  rw [permissive, ← h]

/-- A step that aborts could not resolve its items, or an attempt of it aborted. -/
theorem Level.aborted_cases {level : Level} {units : UnitMaker} {v : Visit} (hv : v ∈ (level.run units).visits)
    {fault : Fault} (h : v.outcome = .aborted fault) :
    ∃ p, level.plan.pipeline? v.stepId = some p ∧
      ((∃ batch, p.batch = some batch ∧ resolveItems p.stepId batch (level.call v) = .error fault) ∨
        ∃ a ∈ p.attempts (units p.implementation p.site) (level.call v),
          (p.core (units p.implementation p.site) a).1 = .aborted fault) := by
  obtain ⟨p, hp, hvisit⟩ := visit_eq hv
  rw [hvisit] at h
  exact ⟨p, hp, Pipeline.aborted_of_body _ h⟩

namespace Host

variable {host : Host} {run : Level → Report} {options : PlanOptions} {d : Document} {p : Pipeline} {fault : Fault}

/-- An attempt aborts over its own parameters, with a fault that its unit raises, or over a guard that trips here or
further down. -/
theorem core_aborted_cases {a : Call} (h : (p.core (host.unitOf run p) a).1 = .aborted fault) :
    p.leafCall a = .error fault ∨ (∃ make, p.implementation = .leaf make ∧ (make p.site).Raises fault) ∨
      p.implementation = .subworkflow ∧ fault.category = .recursion ∧ ∃ call, p.leafCall a = .ok call ∧
        (host.opened p call = .error (.fatal fault) ∨
          ∃ child, host.opened p call = .ok child ∧ (run child).fatal = some fault) := by
  cases hw : p.implementation with
  | subworkflow =>
    rcases core_eq_aborted hw h with hc | htripped
    · exact .inl hc
    · exact .inr (.inr ⟨rfl, htripped⟩)
  | leaf make =>
    cases hc : p.leafCall a with
    | error cause =>
      rw [Pipeline.core_of_leafCall_error _ hc] at h
      cases h
      exact .inl rfl
    | ok call =>
      rw [Pipeline.core_of_leafCall_ok _ hc] at h
      have hraises := leafLayer_eq_aborted h
      unfold unitOf at hraises
      rw [hw] at hraises
      exact .inr (.inl ⟨make, rfl, hraises⟩)

theorem core_spares (hreg : host.registry.RaisesNoIssue) {kind : String} {entry : RegistryEntry}
    (hentry : Assoc.get? host.registry kind = some entry) (himpl : p.implementation = entry.implementation) {a : Call}
    (hmode : a.mode = .permissive) (h : (p.core (host.unitOf run p) a).1 = .aborted fault) : fault.isIssue = false := by
  obtain ⟨strict, hstrict, rfl⟩ := Call.eq_permissive hmode
  rcases core_aborted_cases h with hc | ⟨make, hw, hraises⟩ | ⟨_, hcategory, _⟩
  · exact (Pipeline.leafCall_relaxes (p := p) hstrict).spares fault hc
  · exact hreg kind entry make hentry (himpl ▸ hw) p.site fault hraises
  · exact Fault.isIssue_of_recursion hcategory

/-- No level that runs in permissive mode is ended by an issue. -/
theorem level_spares (level : Level) (hreg : host.registry.RaisesNoIssue)
    (hb : Plan.build host.registry options d = .ok level.plan) (hmode : level.plan.mode = .permissive)
    (h : (level.run (host.unitsOver run)).fatal = some fault) : fault.isIssue = false := by
  rcases execute_fatal_cases hb (host.unitsOver run) level.context level.params h with hbind | ⟨v, hlast, hv⟩ | ⟨rfl, _⟩
  · unfold bindInputs at hbind
    simp only at hbind
    split at hbind <;> cases hbind
    rfl
  · obtain ⟨p, hp, haborted⟩ := Level.aborted_cases (List.mem_of_getLast? hlast) hv
    obtain ⟨step, _, entry, _, hentry, himpl⟩ := Plan.pipeline?_eq_some hb hp
    rcases haborted with ⟨batch, _, hi⟩ | ⟨a, ha, hcore⟩
    · obtain ⟨strict, hstrict, heq⟩ := Call.eq_permissive (show (level.call v).mode = .permissive from hmode)
      rw [← heq] at hi
      exact (resolveItems_relaxes p.stepId batch hstrict).spares fault hi
    · exact core_spares hreg hentry (by rw [himpl]; rfl) ((Pipeline.attempts_mode ha).trans hmode) hcore
  · rfl

def endedBy? (host : Host) (d : Document) (params : Fields) (options : PlanOptions) : Option Fault :=
  match host.plan d params options with
  | .error fault => some fault
  | .ok plan => (host.report (plan.top params)).fatal

theorem report_relaxes (host : Host) {plan : Plan} (h : plan.mode = .strict) (params : Fields) :
    host.report (plan.permissive.top params) = host.report (plan.top params) ∨
      ∃ fault, (host.report (plan.top params)).fatal = some fault ∧ fault.isIssue = true :=
  let levels := plan.limits.maxDepth - (plan.top params).context.frame.depth
  execute_relaxes (host.units levels) h (plan.top params).context params

/-- A strict run that no issue ends is the permissive run, in every field of its result. Only the run itself changes its
mode: children are compiled with that of their own documents. -/
theorem permissive_run_eq_strict (host : Host) (d : Document) (params : Fields) (options : PlanOptions) :
    ((∀ fault, host.endedBy? d params (options.under .strict) = some fault → fault.isIssue = false) →
        host.run d params (options.under .permissive) = host.run d params (options.under .strict)) ∧
      (host.registry.RaisesNoIssue →
        ∀ fault, host.endedBy? d params (options.under .permissive) = some fault → fault.isIssue = false) := by
  let shared : PlanOptions := { options with external := options.external ++ Assoc.keys params }
  have hbuild : Relaxes ((host.plan d params (options.under .strict)).map Plan.permissive)
      (host.plan d params (options.under .permissive)) := Plan.build_relaxes host.registry shared d
  refine ⟨?_, ?_⟩
  · intro hended
    unfold endedBy? at hended
    unfold run
    cases hs : host.plan d params (options.under .strict) with
    | error fault =>
      rw [hs] at hended hbuild
      rcases hbuild.raises fault rfl with hfault | hp
      · rw [hended fault rfl] at hfault
        cases hfault
      · rw [hp]
    | ok plan =>
      rw [hs] at hended hbuild
      rw [hbuild.agrees plan.permissive rfl]
      have hmode : plan.mode = .strict := Plan.build_mode hs
      rcases report_relaxes host hmode params with heq | ⟨fault, hfatal, hfault⟩
      · simp only [heq]
      · rw [hended fault hfatal] at hfault
        cases hfault
  · intro hreg fault hended
    unfold endedBy? at hended
    cases hp : host.plan d params (options.under .permissive) with
    | error cause =>
      rw [hp] at hended
      cases hended
      exact hbuild.spares fault hp
    | ok plan =>
      rw [hp] at hended
      exact level_spares (plan.top params) hreg hp (Plan.build_mode hp) hended

end Host

theorem LeafUnit.delay_not_fatal (timeout : Nat) (prepared : Json) (fault : Fault) :
    (delay timeout).attempt prepared ≠ .error (.fatal fault) := by
  rw [attempt_eq_execute fun _ _ => rfl]
  intro h
  simp only [delay, ofExecute] at h
  split at h
  · simp only [Except.bind] at h
    split at h <;> cases h
  · split at h
    · simp only [Except.bind] at h
      split at h <;> cases h
    · cases h

/-- The units that every registry begins with raise nothing. -/
theorem Registry.builtin_raises {kind : String} {entry : RegistryEntry} {make : Site → LeafUnit}
    (hentry : Assoc.get? builtin kind = some entry) (hmake : entry.implementation = .leaf make) (site : Site)
    (fault : Fault) : ¬ (make site).Raises fault := by
  intro hraises
  rcases builtin_leaf hentry hmake with rfl | rfl | rfl
  · cases hraises with
    | prepare params context h => cases h
    | attempt prepared h => cases h
    | finalize context prepared executed h => cases h
  · cases hraises with
    | prepare params context h => cases h
    | attempt prepared h => cases h
    | finalize context prepared executed h => cases h
  · cases hraises with
    | prepare params context h => cases h
    | attempt prepared h => exact LeafUnit.delay_not_fatal _ prepared fault h
    | finalize context prepared executed h => cases h

theorem Registry.builtin_raisesNoIssue : Registry.builtin.RaisesNoIssue :=
  fun _ _ _ hentry hmake site fault hraises => absurd hraises (builtin_raises hentry hmake site fault)

theorem permissive_run_eq_strict_rescue :
    ∃ host : Host, host.run rescueDocument [] (PlanOptions.under {} .permissive) =
        host.run rescueDocument [] (PlanOptions.under {} .strict) ∧
      ∀ fault, host.endedBy? rescueDocument [] (PlanOptions.under {} .permissive) = some fault →
        fault.isIssue = false := by
  let host : Host := ⟨.builtin, .empty⟩
  obtain ⟨hsame, hspares⟩ := Host.permissive_run_eq_strict host rescueDocument [] {}
  have hended : host.endedBy? rescueDocument [] (PlanOptions.under {} .strict) = none := by decide +kernel
  refine ⟨host, hsame ?_, hspares Registry.builtin_raisesNoIssue⟩
  intro fault hfault
  rw [hended] at hfault
  cases hfault

end Workflow
