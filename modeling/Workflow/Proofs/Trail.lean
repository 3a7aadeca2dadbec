import Workflow.Proofs.Escalation
import Workflow.Proofs.Parameters

/-! How contexts travel: what the layers of a step leave of a context, and how a walk hands it on from step to step. A
relation between contexts that the single operations respect holds from the beginning of a walk to its end. -/

namespace Workflow

/-! ### Layers -/

/-- A relation between contexts that warnings do not touch. -/
structure Context.Carried (R : Context → Context → Prop) : Prop where
  refl : ∀ c, R c c
  trans : ∀ {a b c}, R a b → R b c → R a c
  warn : ∀ c warnings, R c (c.warn warnings)

/-- A relation that a context stays in through what is written to it. -/
structure Context.Written (R : Context → Context → Prop) : Prop extends Context.Carried R where
  insert : ∀ c key v, R c (c.insert key v)

/-- A relation that a context stays in through everything that the layers around a unit do to it. -/
structure Context.Kept (R : Context → Context → Prop) : Prop extends Context.Written R where
  /-- What is noted of steps and their times does not matter. -/
  noted : ∀ (c : Context) (journal : Journal), journal.warnings = c.journal.warnings →
    R c { c with journal := journal }

namespace Context.Written

variable {R : Context → Context → Prop}

theorem copy (h : Written R) (c : Context) (stepId : String) (entries : Fields) : R c (c.copy stepId entries) := by
  induction entries generalizing c with
  | nil => exact h.refl c
  | cons e rest ih =>
    rw [Context.copy_cons]
    refine h.trans ?_ (ih _)
    split
    · exact h.refl c
    · exact h.insert c e.1 e.2

theorem commit (h : Written R) (c : Context) (stepId : String) (values : Fields) : R c (c.commit stepId values) :=
  h.trans (h.insert c stepId _) (h.copy _ stepId values)

theorem insertAll (h : Written R) (c : Context) (entries : Fields) : R c (c.insertAll entries) := by
  unfold Context.insertAll
  induction entries generalizing c with
  | nil => exact h.refl c
  | cons e rest ih => exact h.trans (h.insert c e.1 e.2) (ih _)

/-- Entering a plan keeps a relation that does not look at the guarded keys. -/
theorem enter (h : Written R) (hguard : ∀ c keys, R c (c.guardKeys keys)) (plan : Plan) (c : Context)
    (bindings : Fields) : R c (plan.enter c bindings) :=
  h.trans (hguard c _) (h.trans (hguard _ _) (h.trans (h.insertAll _ bindings) (h.warn _ _)))

end Context.Written

/-- A unit that keeps a relation. Only its last phase gets to change the context. -/
def LeafUnit.Keeps (R : Context → Context → Prop) (unit : LeafUnit) : Prop :=
  ∀ context prepared executed, R context (unit.finalize context prepared executed).1

/-- Every unit that the registry makes keeps a relation. Of units of other makes this assumes what their life cycle
promises: they work on what they were prepared with and hand back values, which the layers around them store. -/
def Registry.Keeps (R : Context → Context → Prop) (registry : Registry) : Prop :=
  ∀ kind entry make, Assoc.get? registry kind = some entry → entry.implementation = .leaf make →
    ∀ site, (make site).Keeps R

theorem Registry.builtin_keeps {R : Context → Context → Prop} (hR : ∀ c, R c c) : Registry.builtin.Keeps R := by
  intro kind entry make hentry hmake site
  rcases builtin_leaf hentry hmake with rfl | rfl | rfl
  all_goals exact fun context _ _ => hR context

theorem leafLayer_keeps {R : Context → Context → Prop} (hR : Context.Carried R) {unit : LeafUnit} (stepId : String)
    {literals : Fields} {call : Call}
    (h : ∀ prepared executed, unit.prepare (Assoc.putAll literals call.params) call.context = .ok prepared →
      unit.attempt prepared = .ok executed → R call.context (unit.finalize call.context prepared executed).1) :
    R call.context (leafLayer stepId unit literals call).2 := by
  unfold leafLayer
  simp only
  split
  · exact hR.refl _
  · rename_i prepared hprepared
    split
    · exact hR.refl _
    · rename_i executed hexecuted
      have hfinal := h prepared executed hprepared hexecuted
      split
      all_goals
        rename_i heq
        rw [heq] at hfinal
        exact hfinal

theorem Context.warn_eq_setWarnings (c : Context) (warnings : List Warning) :
    c.setWarnings (c.journal.warnings ++ warnings) = c.warn warnings := rfl

theorem settle_eq_ok {mode : Mode} {issue : Fault} {warnings after : List Warning}
    (h : mode.settle issue warnings = .ok after) : mode = .permissive ∧ after = warnings ++ [.ofFault issue] := by
  cases mode with
  | strict => cases h
  | permissive =>
    cases h
    exact ⟨rfl, rfl⟩

/-- Items that resolve leave a warning only where a problem was let pass; then there are none. -/
theorem resolveItems_eq_ok {stepId : String} {batch : Batch} {call : Call} {items : List Json} {warnings : List Warning}
    (h : resolveItems stepId batch call = .ok (items, warnings)) :
    (warnings = call.context.journal.warnings ∧ (call.scope.resolveText batch.items).isComplete = true ∧
        listOfItems (call.scope.resolveText batch.items).value = .ok items) ∨
      (call.mode = .permissive ∧ items = [] ∧ ∃ issue, warnings = call.context.journal.warnings ++ [issue]) := by
  have hsettled (issue : Fault)
      (h : (call.mode.settle issue call.context.journal.warnings).map (fun w => (([] : List Json), w)) =
        .ok (items, warnings)) :
      call.mode = .permissive ∧ items = [] ∧ ∃ issue, warnings = call.context.journal.warnings ++ [issue] := by
    cases hs : call.mode.settle issue call.context.journal.warnings with
    | error fault =>
      rw [hs] at h
      cases h
    | ok after =>
      rw [hs] at h
      cases h
      obtain ⟨hmode, rfl⟩ := settle_eq_ok hs
      exact ⟨hmode, rfl, _, rfl⟩
  unfold resolveItems at h
  simp only at h
  split at h
  · rename_i hcomplete
    split at h
    · rename_i hlist
      cases h
      exact .inl ⟨rfl, hcomplete, hlist⟩
    · exact .inr (hsettled _ h)
  · exact .inr (hsettled _ h)

namespace Pipeline

variable {p : Pipeline} {unit : LeafUnit} {call : Call} {R : Context → Context → Prop}

/-- Before the leaf there can only be warnings. -/
theorem leafCall_keeps (hR : Context.Carried R) {inner : Call} (h : p.leafCall call = .ok inner) :
    R call.context inner.context := by
  rw [leafCall_eq_settled h]
  exact hR.warn _ _

/-- Of a call only the last phase of the unit matters, and only where the unit gets to it. -/
theorem core_keeps_of_phases (hR : Context.Carried R) {a : Call}
    (h : ∀ params context prepared executed, p.handed a = .ok (params, context) →
      unit.prepare params context = .ok prepared → unit.attempt prepared = .ok executed →
      R context (unit.finalize context prepared executed).1) : R a.context (p.core unit a).2 := by
  cases hc : p.leafCall a with
  | error fault =>
    rw [core_of_leafCall_error unit hc]
    exact hR.refl _
  | ok inner =>
    rw [core_of_leafCall_ok unit hc]
    refine hR.trans (leafCall_keeps hR hc) (leafLayer_keeps hR _ ?_)
    intro prepared executed
    refine h _ _ prepared executed ?_
    rw [handed, hc]
    rfl

theorem core_keeps (hR : Context.Carried R) (h : unit.Keeps R) (a : Call) : R a.context (p.core unit a).2 :=
  core_keeps_of_phases hR fun _ context prepared executed _ _ _ => h context prepared executed

/-- What an attempt stores comes after what its core leaves. -/
theorem core_attempt (hR : Context.Written R) (a : Call) : R (p.core unit a).2 (p.attempt unit a).2 := by
  rw [attempt, namespaceLayer]
  split
  all_goals
    rename_i hcore
    rw [hcore]
  · exact hR.commit _ _ _
  · exact hR.insert _ _ _
  · exact hR.refl _

/-- Items leave nothing but their warnings, and the batch its output. -/
theorem batchLayer_keeps (hR : Context.Written R) (stepId : String) (batch : Batch) (maxErrors : Nat) (inner : Layer)
    (call : Call) : R call.context (batchLayer stepId batch maxErrors inner call).2 := by
  unfold batchLayer
  split
  · exact hR.refl _
  · rename_i items warnings hi
    have hset : R call.context (call.context.setWarnings warnings) := by
      rcases resolveItems_eq_ok hi with ⟨rfl, _, _⟩ | ⟨_, _, issue, rfl⟩
      · exact hR.refl _
      · rw [Context.warn_eq_setWarnings]
        exact hR.warn _ _
    simp only
    split
    · exact hR.trans (hR.trans hset (hR.warn _ _)) (hR.insert _ _ _)
    · exact hR.trans hset (hR.warn _ _)
    · refine hR.trans ?_ (hR.commit _ _ _)
      split
      · exact hR.trans (hR.trans hset (hR.warn _ _)) (hR.warn _ _)
      · exact hR.trans hset (hR.warn _ _)

theorem body_keeps (hR : Context.Written R) (h : ∀ a ∈ p.attempts unit call, R a.context (p.core unit a).2) :
    R call.context (p.body unit call).2 := by
  cases hb : p.batch with
  | none =>
    rw [attempts_single unit hb] at h
    rw [body_single unit hb]
    exact hR.trans (h call (List.mem_singleton_self call)) (core_attempt hR call)
  | some batch =>
    rw [body_batch unit hb]
    exact batchLayer_keeps hR _ _ _ _ _

theorem layer_eq (p : Pipeline) (unit : LeafUnit) (call : Call) :
    ∃ journal, journal.warnings = (p.body unit call).2.journal.warnings ∧
      p.layer unit call = ((p.body unit call).1, { (p.body unit call).2 with journal := journal }) := by
  unfold layer instrumentedLayer
  refine ⟨_, ?_, rfl⟩
  split <;> rfl

theorem layer_keeps (hR : Context.Kept R) (h : ∀ a ∈ p.attempts unit call, R a.context (p.core unit a).2) :
    R call.context (p.layer unit call).2 := by
  obtain ⟨journal, hjournal, heq⟩ := layer_eq p unit call
  rw [heq]
  exact hR.trans (body_keeps hR.toWritten h) (hR.noted _ journal hjournal)

end Pipeline

/-! ### Walks -/

def Visit.left (v : Visit) : Context :=
  match v.outcome with
  | .failed failure => v.after.warn [routedWarning failure]
  | _ => v.after

theorem Context.Carried.left {R : Context → Context → Prop} (hR : Carried R) (v : Visit) : R v.after v.left := by
  unfold Visit.left
  split
  · exact hR.warn _ _
  · exact hR.refl _

theorem Plan.follow_left {plan : Plan} {v : Visit} {next : String} {context : Context}
    (h : plan.follow v = .go next context) : context = v.left := by
  unfold follow at h
  unfold Visit.left
  cases hv : v.outcome with
  | completed values action =>
    simp only [hv] at h
    split at h
    · cases h
    · cases h
      rfl
  | failed failure =>
    simp only [hv] at h
    split at h
    · cases h
    · cases h
      rfl
  | aborted fault =>
    simp only [hv] at h
    cases h

/-- A walk as it is seen from outside: from which context, over which visits, to which ending and context. -/
inductive Trail (plan : Plan) : Context → List Visit → WalkEnd → Context → Prop where
  | cut (c : Context) (fault : Fault) : Trail plan c [] (.aborted fault) c
  | stop {v : Visit} {first last : Context} {ending : WalkEnd} (enter : v.before = first)
      (h : plan.follow v = .stop ending) (leave : v.after = last) : Trail plan first [v] ending last
  | go {v : Visit} {rest : List Visit} {first last : Context} {ending : WalkEnd} {next : String}
      (enter : v.before = first) (h : plan.follow v = .go next v.left) (onward : Trail plan v.left rest ending last) :
      Trail plan first (v :: rest) ending last

theorem walk_trail (units : UnitMaker) (plan : Plan) (bindings : Fields) (budget : Nat) (stepId : String)
    (context : Context) :
    Trail plan context (walk units plan bindings budget stepId context).visits
      (walk units plan bindings budget stepId context).ending
      (walk units plan bindings budget stepId context).context := by
  induction budget generalizing stepId context with
  | zero => exact .cut _ _
  | succ budget ih =>
    rw [walk]
    cases hp : plan.pipeline? stepId with
    | none => exact .cut _ _
    | some pipeline =>
      simp only
      cases hf : plan.follow (visit units plan bindings stepId pipeline context) with
      | stop ending => exact .stop rfl hf rfl
      | go next left =>
        cases Plan.follow_left hf
        exact .go rfl hf (ih next _)

namespace Trail

variable {plan : Plan} {first last : Context} {visits : List Visit} {ending : WalkEnd}

/-- From any visit on, a trail is a trail. -/
theorem split (h : Trail plan first visits ending last) {before : List Visit} {v : Visit} {rest : List Visit}
    (hv : visits = before ++ v :: rest) : Trail plan v.before (v :: rest) ending last := by
  induction before generalizing first visits with
  | nil =>
    rw [List.nil_append] at hv
    subst hv
    cases h with
    | stop _ hf hleave => exact .stop rfl hf hleave
    | go _ hf onward => exact .go rfl hf onward
  | cons w before ih =>
    cases h with
    | cut => simp at hv
    | stop => simp at hv
    | go _ _ onward =>
      rw [List.cons_append] at hv
      exact ih onward (List.cons.inj hv).2

/-- What the steps of a trail keep is kept from its beginning to its end. -/
theorem keeps {R : Context → Context → Prop} (hR : Context.Carried R) (h : Trail plan first visits ending last)
    (hvisits : ∀ v ∈ visits, R v.before v.after) :
    R first last ∧ ∀ v ∈ visits, R first v.before ∧ R v.after last := by
  induction h with
  | cut c fault => exact ⟨hR.refl c, by simp⟩
  | @stop v first last ending henter hf hleave =>
    subst henter hleave
    refine ⟨hvisits v (List.mem_singleton_self v), ?_⟩
    intro w hw
    rw [List.mem_singleton.mp hw]
    exact ⟨hR.refl _, hR.refl _⟩
  | @go v rest first last ending next henter hf onward ih =>
    subst henter
    obtain ⟨hlast, hrest⟩ := ih fun w hw => hvisits w (List.mem_cons_of_mem v hw)
    have hfirst : R v.before v.after := hvisits v List.mem_cons_self
    have hleft : R v.after v.left := hR.left v
    refine ⟨hR.trans hfirst (hR.trans hleft hlast), ?_⟩
    intro w hw
    rcases List.mem_cons.mp hw with rfl | hw
    · exact ⟨hR.refl _, hR.trans hleft hlast⟩
    · obtain ⟨hbefore, hafter⟩ := hrest w hw
      exact ⟨hR.trans hfirst (hR.trans hleft hbefore), hafter⟩

/-- Between two visits of a trail the relation holds too, and none but the last visit aborts. -/
theorem pairwise_keeps {R : Context → Context → Prop} (hR : Context.Carried R) (h : Trail plan first visits ending last)
    (hvisits : ∀ v ∈ visits, R v.before v.after) :
    visits.Pairwise fun u v => (∀ fault, u.outcome ≠ .aborted fault) ∧ R u.after v.before := by
  induction h with
  | cut c fault => exact .nil
  | stop henter hf hleave => exact List.pairwise_singleton _ _
  | @go v rest first last ending next henter hf onward ih =>
    have hrest : ∀ w ∈ rest, R w.before w.after := fun w hw => hvisits w (List.mem_cons_of_mem v hw)
    refine List.pairwise_cons.mpr ⟨fun w hw => ⟨fun fault haborted => ?_, ?_⟩, ih hrest⟩
    · rw [Plan.follow_of_aborted plan haborted] at hf
      cases hf
    · exact hR.trans (hR.left v) ((onward.keeps hR hrest).2 w hw).1

/-- A step that aborts ends the trail with its fault and its context. -/
theorem ends_at_aborted (h : Trail plan first visits ending last) {v : Visit} (hv : v ∈ visits) {fault : Fault}
    (hf : v.outcome = .aborted fault) : ending = .aborted fault ∧ last = v.after := by
  obtain ⟨before, rest, hvisits⟩ := List.append_of_mem hv
  have hstop := Plan.follow_of_aborted plan hf
  cases h.split hvisits with
  | stop _ hend hleave =>
    rw [hstop] at hend
    cases hend
    exact ⟨rfl, hleave.symm⟩
  | go _ hgo _ =>
    rw [hstop] at hgo
    cases hgo

end Trail

/-! ### Levels -/

theorem Walk.report_visits (w : Walk) (plan : Plan) (bindings : Fields) :
    (w.report plan bindings).visits = w.visits := by
  unfold report
  split <;> rfl

theorem Walk.report_keeps {R : Context → Context → Prop} (hR : Context.Carried R) (w : Walk) (plan : Plan)
    (bindings : Fields) : R w.context (w.report plan bindings).context := by
  unfold report
  split
  · exact hR.refl _
  · exact hR.refl _
  · exact hR.warn _ _

/-- A level lacks inputs and takes no step, or reports a walk from the context that it enters with its bindings. -/
theorem Level.run_cases (level : Level) (units : UnitMaker) :
    (∃ fault, bindInputs level.plan.inputs level.params = .error fault ∧
        level.run units = .failing level.plan level.context [] (some fault) []) ∨
      bindInputs level.plan.inputs level.params = .ok level.bindings ∧
        ∃ w : Walk, level.run units = w.report level.plan level.bindings ∧
          Trail level.plan (level.plan.enter level.context level.bindings) w.visits w.ending w.context := by
  unfold run Plan.execute bindings
  cases hb : bindInputs level.plan.inputs level.params with
  | error fault => exact .inl ⟨fault, rfl, rfl⟩
  | ok bindings => exact .inr ⟨rfl, _, rfl, walk_trail _ _ _ _ _ _⟩

/-- What a level records of a step is what the layers of the step made of its call. -/
theorem Level.visit_layer {level : Level} {units : UnitMaker} {v : Visit} {p : Pipeline}
    (hv : v ∈ (level.run units).visits) (hp : level.plan.pipeline? v.stepId = some p) :
    p.layer (units p.implementation p.site) (level.call v) = (v.outcome, v.after) := by
  obtain ⟨p', hp', hvisit⟩ := visit_eq hv
  rw [hp] at hp'
  cases hp'
  rw [hvisit]
  rfl

namespace Level

variable {level : Level} {units : UnitMaker} {R : Context → Context → Prop}

/-- A level that takes a step has bound its inputs. -/
theorem bound_of_visit {v : Visit} (hv : v ∈ (level.run units).visits) :
    bindInputs level.plan.inputs level.params = .ok level.bindings := by
  rcases level.run_cases units with ⟨fault, _, hrun⟩ | ⟨hbound, _⟩
  · rw [hrun] at hv
    exact absurd hv List.not_mem_nil
  · exact hbound

/-- What the steps of a level keep is kept from its beginning to its end. -/
theorem run_keeps (hR : Context.Kept R) (hguard : ∀ c keys, R c (c.guardKeys keys))
    (h : ∀ v ∈ (level.run units).visits, R v.before v.after) :
    R level.context (level.run units).context ∧
      ∀ v ∈ (level.run units).visits, R level.context v.before ∧ R v.after (level.run units).context := by
  rcases level.run_cases units with ⟨fault, _, hrun⟩ | ⟨_, w, hrun, htrail⟩
  · rw [hrun]
    exact ⟨hR.refl _, fun v hv => absurd hv List.not_mem_nil⟩
  · rw [hrun, Walk.report_visits] at h
    have hfirst := hR.enter hguard level.plan level.context level.bindings
    have hreport := w.report_keeps hR.toCarried level.plan level.bindings
    obtain ⟨hlast, hvisits⟩ := htrail.keeps hR.toCarried h
    rw [hrun, Walk.report_visits]
    refine ⟨hR.trans hfirst (hR.trans hlast hreport), fun v hv => ?_⟩
    obtain ⟨hbefore, hafter⟩ := hvisits v hv
    exact ⟨hR.trans hfirst hbefore, hR.trans hafter hreport⟩

/-- What the steps of a level keep is kept between any two of them, of which the first did not abort. -/
theorem visits_pairwise (hR : Context.Carried R) (h : ∀ v ∈ (level.run units).visits, R v.before v.after) :
    (level.run units).visits.Pairwise fun u v => (∀ fault, u.outcome ≠ .aborted fault) ∧ R u.after v.before := by
  rcases level.run_cases units with ⟨fault, _, hrun⟩ | ⟨_, w, hrun, htrail⟩
  · rw [hrun]
    exact .nil
  · rw [hrun, Walk.report_visits] at h ⊢
    exact htrail.pairwise_keeps hR h

/-- What every attempt of a step keeps, the step keeps. -/
theorem visit_keeps (hR : Context.Kept R) {v : Visit} (hv : v ∈ (level.run units).visits) {p : Pipeline}
    (hp : level.plan.pipeline? v.stepId = some p)
    (h : ∀ a ∈ p.attempts (units p.implementation p.site) (level.call v),
      R a.context (p.core (units p.implementation p.site) a).2) : R v.before v.after := by
  have hlayer : R (level.call v).context (p.layer (units p.implementation p.site) (level.call v)).2 :=
    Pipeline.layer_keeps hR h
  rw [visit_layer hv hp] at hlayer
  exact hlayer

end Level

def Level.Built (host : Host) (limits : Limits) (level : Level) : Prop :=
  ∃ options d, options.limits = limits ∧ Plan.build host.registry options d = .ok level.plan

/-- A step of the document that the plan of a level was built from, as the pipeline that the level takes it through. -/
structure Level.Declares (host : Host) (level : Level) (stepId : String) (p : Pipeline) (step : Step)
    (entry : RegistryEntry) : Prop where
  pipeline : level.plan.pipeline? stepId = some p
  id : step.id = stepId
  kind : Assoc.get? host.registry step.kind = some entry
  built : ∃ options d, Plan.build host.registry options d = .ok level.plan ∧ step ∈ d.steps ∧
    p = Plan.pipelineOf options step entry ∧ options.limits = level.plan.limits

theorem Level.Built.declares {host : Host} {limits : Limits} {level : Level} (hb : level.Built host limits)
    {stepId : String} {p : Pipeline} (hp : level.plan.pipeline? stepId = some p) :
    ∃ step entry, level.Declares host stepId p step entry := by
  obtain ⟨options, d, _, hbuild⟩ := hb
  obtain ⟨step, hstep, entry, hid, hkind, heq⟩ := Plan.pipeline?_eq_some hbuild hp
  exact ⟨step, entry, hp, hid, hkind, options, d, hbuild, hstep, heq, (Plan.limits_eq hbuild).symm⟩

/-- A step runs under the id that its plan has it under. -/
theorem Level.Declares.stepId {host : Host} {level : Level} {id : String} {p : Pipeline} {step : Step}
    {entry : RegistryEntry} (hd : level.Declares host id p step entry) : p.stepId = id := by
  obtain ⟨options, d, _, _, rfl, _⟩ := hd.built
  exact hd.id

theorem Level.Built.limits_eq {host : Host} {limits : Limits} {level : Level} (hb : level.Built host limits) :
    level.plan.limits = limits := by
  obtain ⟨options, d, hlimits, hbuild⟩ := hb
  exact (Plan.limits_eq hbuild).trans hlimits

namespace Host

variable {host : Host} {limits : Limits} {level child : Level} {run : Level → Report}

theorem unitOf_keeps_of_leaf {R : Context → Context → Prop} (hreg : host.registry.Keeps R) {id : String}
    {p : Pipeline} {step : Step} {entry : RegistryEntry} (hd : level.Declares host id p step entry)
    {make : Site → LeafUnit} (hmake : p.implementation = .leaf make) : (host.unitOf run p).Keeps R := by
  obtain ⟨options, d, _, _, rfl, _⟩ := hd.built
  rw [unitOf, hmake]
  exact hreg step.kind entry make hd.kind hmake _

/-- A unit of a level keeps what the registry and workflow steps keep. -/
theorem unitOf_keeps {R : Context → Context → Prop} (hreg : host.registry.Keeps R)
    (hchild : ∀ child site, (Subworkflow.unit host.files child site).Keeps R) {id : String} {p : Pipeline} {step : Step}
    {entry : RegistryEntry} (hd : level.Declares host id p step entry) : (host.unitOf run p).Keeps R := by
  cases hmake : p.implementation with
  | leaf make => exact unitOf_keeps_of_leaf hreg hd hmake
  | subworkflow =>
    rw [unitOf, hmake]
    exact hchild _ _

end Host

/-- What a step takes over from its child are warnings and, in shared mode, the data. -/
theorem Subworkflow.finish_keeps {R : Context → Context → Prop} (hR : Context.Carried R)
    (hreplace : ∀ c data, R c (c.replaceData data)) (stepId : String) (context : Context) (prepared executed : Json) :
    R context (finish stepId context prepared executed).1 := by
  have htaken (data : Fields) : R context
      (if prepared.get? "storage_mode" = some (.str "shared") then context.replaceData data else context) := by
    split
    · exact hreplace context data
    · exact hR.refl context
  unfold finish
  simp only
  split
  · exact hR.trans (htaken _) (hR.warn _ _)
  · exact hR.trans (hR.trans (htaken _) (hR.warn _ _)) (hR.warn _ _)

namespace Level.Built

variable {host : Host} {limits : Limits} {level : Level} {run : Level → Report} {R : Context → Context → Prop}

/-- What the units of the registry and replaced data keep, every attempt of a step keeps. -/
theorem core_keeps (hb : level.Built host limits) (hR : Context.Carried R) (hreplace : ∀ c data, R c (c.replaceData data))
    (hreg : host.registry.Keeps R) {id : String} {p : Pipeline} (hp : level.plan.pipeline? id = some p) (a : Call) :
    R a.context (p.core (host.unitOf run p) a).2 := by
  obtain ⟨step, entry, hd⟩ := hb.declares hp
  refine Pipeline.core_keeps hR (Host.unitOf_keeps hreg ?_ hd) a
  exact fun _ site context prepared executed => Subworkflow.finish_keeps hR hreplace site.stepId context prepared executed

theorem visits_keep (hb : level.Built host limits) (hR : Context.Kept R) (hreplace : ∀ c data, R c (c.replaceData data))
    (hreg : host.registry.Keeps R) {v : Visit} (hv : v ∈ (level.run (host.unitsOver run)).visits) :
    R v.before v.after := by
  obtain ⟨p, hp, _⟩ := visit_eq hv
  exact visit_keeps hR hv hp fun a _ => hb.core_keeps hR.toCarried hreplace hreg hp a

end Level.Built

namespace Host

variable {host : Host} {limits : Limits} {level child : Level} {run : Level → Report}

theorem Opens.built (h : host.Opens run level child) (hb : level.Built host limits) : child.Built host limits := by
  obtain ⟨options, d, hlimits, hbuild⟩ := hb
  obtain ⟨v, _, p, hp, a, _, hchild⟩ := h
  obtain ⟨_, call, _, hopened⟩ := child?_eq_some hchild
  obtain ⟨_, _, _, i, hplan⟩ := opened_eq_ok hopened
  obtain ⟨step, _, entry, _, _, rfl⟩ := Plan.pipeline?_eq_some hbuild hp
  exact ⟨Subworkflow.childOptions _ i, i.document, hlimits, hplan⟩

/-- All levels that a run opens are built under the same limits. -/
theorem built_of_recordWithin (levels : Nat) (hb : level.Built host limits) {k : Nat}
    (h : ⟨k, .opened child⟩ ∈ host.recordWithin levels level) : child.Built host limits := by
  induction levels generalizing level k with
  | zero => exact absurd h List.not_mem_nil
  | succ levels ih =>
    rcases levelEntries_cases h with heq | ⟨v, hv, heq | ⟨p, hp, a, ha, h⟩⟩
    · cases heq
      exact hb
    · cases heq
    · rcases List.mem_append.mp h with h | h
      · rcases mem_childEntries.mp h with ⟨below, hchild, inner, hinner, heq⟩ | ⟨_, _, heq⟩
        · have hopens : host.Opens (host.runWithin levels) level below := ⟨v, hv, p, hp, a, ha, hchild⟩
          obtain ⟨nesting, event⟩ := inner
          cases heq
          exact ih (hopens.built hb) hinner
        · cases heq
      · cases List.mem_singleton.mp h

theorem report_top (host : Host) (plan : Plan) (params : Fields) :
    host.report (plan.top params) = (plan.top params).run (host.unitsOver (host.runWithin plan.limits.maxDepth)) := rfl

/-- A document that is accepted is run in a fresh context. -/
theorem run_of_plan {d : Document} {params : Fields} {options : PlanOptions} {plan : Plan}
    (hp : host.plan d params options = .ok plan) :
    host.run d params options = (host.report (plan.top params)).result := by
  unfold run
  rw [hp]

theorem top_built {d : Document} {params : Fields} {options : PlanOptions} {plan : Plan}
    (hp : host.plan d params options = .ok plan) : (plan.top params).Built host options.limits :=
  ⟨{ options with external := options.external ++ Assoc.keys params }, d, rfl, hp⟩

end Host

end Workflow
