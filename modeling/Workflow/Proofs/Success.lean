import Workflow.Proofs.Consistency

/-! What success means. Warnings are only ever added to: those of an item reach its batch, those of a child its caller,
and those of a step the end of the run. A run without a warning is therefore clean, and so are all runs below it. -/

namespace Workflow

/-! ### Warnings -/

/-- All warnings are still there, in front of any new ones. Warnings are documented to accumulate until the result lists
them, so this is assumed of units of other makes as well. -/
def Context.KeepsWarnings (c c' : Context) : Prop := c.journal.warnings <+: c'.journal.warnings

open Context (KeepsWarnings)

theorem Context.insert_journal (c : Context) (key : String) (v : Json) : (c.insert key v).journal = c.journal := by
  unfold insert
  split <;> rfl

theorem Context.keepsWarnings_kept : Kept KeepsWarnings where
  refl c := List.prefix_rfl
  trans h h' := h.trans h'
  warn c warnings := List.prefix_append _ _
  insert c key v := by
    rw [KeepsWarnings, insert_journal]
  noted c journal hjournal := by
    rw [KeepsWarnings, hjournal]

theorem Warning.ofJson?_toJson (w : Warning) : ofJson? w.toJson = some w := by
  obtain ⟨stepId, message, category, outputType, nestedPath⟩ := w
  have hcategory : Category.ofJson? (.str category.name) = some category := by cases category <;> rfl
  unfold ofJson?
  cases stepId <;> cases outputType <;> cases nestedPath
  all_goals
    simp only [bind, Option.bind_eq_some_iff]
    exact ⟨_, rfl, _, rfl, _, hcategory, _, rfl, _, rfl, rfl⟩

theorem infix_flatMap {α β : Type} {f : α → List β} {xs : List α} {x : α} (h : x ∈ xs) : f x <:+: xs.flatMap f := by
  obtain ⟨before, after, rfl⟩ := List.append_of_mem h
  rw [List.flatMap_append, List.flatMap_cons]
  exact ⟨before.flatMap f, after.flatMap f, List.append_assoc _ _ _⟩

/-! ### Steps -/

theorem mem_runItems {run : Json → ItemRun} {policy : BatchPolicy} {items : List Json} {r : ItemRun}
    (h : r ∈ runItems run policy items) : ∃ x ∈ items, r = run x := by
  rcases runItems_cases run policy items with ⟨heq, _⟩ | ⟨done, item, rest, hitems, heq, _, _⟩
  · rw [heq] at h
    obtain ⟨x, hx, rfl⟩ := List.mem_map.mp h
    exact ⟨x, hx, rfl⟩
  · rw [heq] at h
    rw [hitems]
    rcases List.mem_append.mp h with h | h
    · obtain ⟨x, hx, rfl⟩ := List.mem_map.mp h
      exact ⟨x, List.mem_append_left _ hx, rfl⟩
    · exact ⟨item, by simp, List.mem_singleton.mp h⟩

theorem failedItems_eq_nil {runs : List ItemRun} (h : failedItems runs = []) : ∀ r ∈ runs, r.failure? = none := by
  intro r hr
  obtain ⟨i, hi, rfl⟩ := List.mem_iff_getElem.mp hr
  have hnone := List.filterMap_eq_nil_iff.mp h (runs[i], i) (List.mk_mem_zipIdx_iff_getElem?.mpr (by simp))
  simpa using hnone

section
variable {stepId : String} {batch : Batch} {maxErrors : Nat} {inner : Layer} {call : Call} {items : List Json}
  {warnings : List Warning}

def batchContext (batch : Batch) (inner : Layer) (call : Call) (items : List Json) (warnings : List Warning) :
    Context :=
  (call.context.setWarnings warnings).warn ((batchRuns batch inner call items).flatMap ItemRun.warnings)

theorem batchContext_warnings (batch : Batch) (inner : Layer) (call : Call) (items : List Json)
    (warnings : List Warning) : (batchContext batch inner call items warnings).journal.warnings =
      warnings ++ (batchRuns batch inner call items).flatMap ItemRun.warnings := rfl

theorem batchLayer_collects (hi : resolveItems stepId batch call = .ok (items, warnings)) :
    KeepsWarnings (batchContext batch inner call items warnings) (batchLayer stepId batch maxErrors inner call).2 := by
  have hR := Context.keepsWarnings_kept
  unfold batchLayer
  simp only [hi]
  split
  · exact hR.insert _ _ _
  · exact hR.refl _
  · refine hR.trans ?_ (hR.commit _ _ _)
    split
    · exact hR.warn _ _
    · exact hR.refl _

/-- A batch that completes without a warning has no failed item. -/
theorem batchLayer_failedItems (hi : resolveItems stepId batch call = .ok (items, warnings)) {values : Fields}
    {action : String} (hout : (batchLayer stepId batch maxErrors inner call).1 = .completed values action)
    (hw : (batchLayer stepId batch maxErrors inner call).2.journal.warnings = []) :
    failedItems (batchRuns batch inner call items) = [] := by
  have hR := Context.keepsWarnings_kept
  unfold batchLayer at hout hw
  simp only [hi] at hout hw
  split at hout
  · cases hout
  · cases hout
  · rename_i hfailed haborted
    by_contra hne
    have hpos : 0 < (failedItems (batchRuns batch inner call items)).length := List.length_pos_iff.mpr hne
    have hcommit := hR.commit
      ((batchContext batch inner call items warnings).warn
        [batchWarning stepId (failedItems (batchRuns batch inner call items)).length
          (batchRuns batch inner call items).length])
      stepId (batchValues (batchRuns batch inner call items) maxErrors)
    unfold batchContext batchRuns at hcommit
    unfold batchRuns at hpos
    split at hw
    · rename_i h
      exact absurd h (hfailed _ _ _)
    · rename_i h
      exact absurd h (haborted _ _ _)
    · rw [if_pos hpos] at hw
      rw [KeepsWarnings, hw, List.prefix_nil] at hcommit
      simp [Context.warn, Journal.warn] at hcommit

end

namespace Pipeline

variable {p : Pipeline} {unit : LeafUnit} {call a : Call} {values : Fields} {action : String}

/-- The warnings of every attempt reach the step. -/
theorem core_warnings (ha : a ∈ p.attempts unit call) :
    (p.core unit a).2.journal.warnings <:+: (p.layer unit call).2.journal.warnings := by
  have hattempt (b : Call) : KeepsWarnings (p.core unit b).2 (p.attempt unit b).2 :=
    core_attempt Context.keepsWarnings_kept.toWritten b
  obtain ⟨journal, hjournal, heq⟩ := layer_eq p unit call
  rw [heq]
  simp only [hjournal]
  cases hb : p.batch with
  | none =>
    rw [attempts_single unit hb] at ha
    rw [List.mem_singleton.mp ha, body_single unit hb]
    exact (hattempt call).isInfix
  | some batch =>
    cases hi : resolveItems p.stepId batch call with
    | error fault =>
      rw [(attempts_unresolved unit hb hi).1] at ha
      exact absurd ha List.not_mem_nil
    | ok resolved =>
      rw [attempts_batch unit hb hi] at ha
      obtain ⟨r, hr, rfl⟩ := List.mem_map.mp ha
      have hwarnings : r.warnings = (p.attempt unit (itemCall batch.itemName call r.item)).2.journal.warnings := by
        obtain ⟨x, _, rfl⟩ := mem_runItems hr
        rfl
      have hrun : r.warnings <:+:
          (batchContext batch (p.attempt unit) call resolved.1 resolved.2).journal.warnings :=
        (infix_flatMap hr).trans (List.suffix_append _ _).isInfix
      rw [body_batch unit hb]
      refine (hattempt _).isInfix.trans ?_
      rw [← hwarnings]
      exact hrun.trans (batchLayer_collects hi).isInfix

theorem attempts_quiet (hw : (p.layer unit call).2.journal.warnings = []) (ha : a ∈ p.attempts unit call) :
    (p.core unit a).2.journal.warnings = [] := by
  have hinfix := core_warnings ha
  rw [hw] at hinfix
  exact List.infix_nil.mp hinfix

/-- An attempt that completes without a warning had its parameters in order. -/
theorem issues_of_core (hunit : unit.Keeps KeepsWarnings) (hout : (p.core unit a).1 = .completed values action)
    (hw : (p.core unit a).2.journal.warnings = []) : p.issues a = [] := by
  cases hc : p.leafCall a with
  | error fault =>
    rw [core_of_leafCall_error unit hc] at hout
    cases hout
  | ok inner =>
    rw [core_of_leafCall_ok unit hc] at hw
    have hleaf : KeepsWarnings inner.context (leafLayer p.stepId unit p.literals inner).2 :=
      leafLayer_keeps Context.keepsWarnings_kept.toCarried _ fun prepared executed _ _ => hunit _ prepared executed
    rw [KeepsWarnings, hw, List.prefix_nil, leafCall_eq_settled hc] at hleaf
    exact List.map_eq_nil_iff.mp (List.append_eq_nil_iff.mp hleaf).2

/-- The items of a batch were resolved, and all of them were attempted. -/
def ItemsResolved (p : Pipeline) (unit : LeafUnit) (call : Call) (batch : Batch) : Prop :=
  (call.scope.resolveText batch.items).isComplete = true ∧
    ∃ items, listOfItems (call.scope.resolveText batch.items).value = .ok items ∧
      p.attempts unit call = items.map (itemCall batch.itemName call)

/-- A batch that completes got through all of its items. -/
theorem attempts_of_completed_batch {batch : Batch} {items : List Json} {warnings : List Warning}
    (hb : p.batch = some batch) (hi : resolveItems p.stepId batch call = .ok (items, warnings))
    (hout : (p.body unit call).1 = .completed values action) :
    p.attempts unit call = items.map (itemCall batch.itemName call) ∧
      ∀ a ∈ p.attempts unit call, (p.core unit a).1.stops batch.onError = false := by
  rcases attempts_cases unit hb hi with ⟨hattempts, hgoes, _⟩ | ⟨_, item, _, _, _, _, hstops, hbody⟩
  · exact ⟨hattempts, hgoes⟩
  · rw [hbody] at hout
    cases hcore : (p.core unit (itemCall batch.itemName call item)).1 with
    | completed values action =>
      rw [hcore] at hstops
      cases hstops
    | failed failure =>
      rw [hcore] at hout
      cases hout
    | aborted fault =>
      rw [hcore] at hout
      cases hout

/-- The outcome of an attempt is a failure only if it is among those that the batch collects. -/
theorem not_failed_of_failedItems {batch : Batch} {items : List Json} {warnings : List Warning}
    (hb : p.batch = some batch) (hi : resolveItems p.stepId batch call = .ok (items, warnings))
    (h : failedItems (batchRuns batch (p.attempt unit) call items) = []) :
    ∀ a ∈ p.attempts unit call, ∀ failure, (p.core unit a).1 ≠ .failed failure := by
  intro a ha failure hfailure
  rw [attempts_batch unit hb hi] at ha
  obtain ⟨r, hr, rfl⟩ := List.mem_map.mp ha
  have houtcome : r.outcome = (p.core unit (itemCall batch.itemName call r.item)).1 := by
    obtain ⟨x, _, rfl⟩ := mem_runItems hr
    exact attempt_outcome unit _
  have hnone := failedItems_eq_nil h r hr
  rw [ItemRun.failure?, houtcome, hfailure] at hnone
  cases hnone

/-- In a step that completes without a warning every attempt completes, and those of a batch are for all its items. -/
theorem attempts_of_completed (hout : (p.layer unit call).1 = .completed values action)
    (hw : (p.layer unit call).2.journal.warnings = []) :
    (∀ a ∈ p.attempts unit call, ∃ values action, (p.core unit a).1 = .completed values action) ∧
      ∀ batch, p.batch = some batch → p.ItemsResolved unit call batch := by
  obtain ⟨journal, hjournal, heq⟩ := layer_eq p unit call
  rw [heq] at hout hw
  simp only [hjournal] at hout hw
  cases hb : p.batch with
  | none =>
    rw [attempts_single unit hb]
    rw [body_single unit hb, attempt_outcome] at hout
    refine ⟨?_, by simp⟩
    intro a ha
    rw [List.mem_singleton.mp ha]
    exact ⟨values, action, hout⟩
  | some batch =>
    cases hi : resolveItems p.stepId batch call with
    | error fault =>
      rw [(attempts_unresolved unit hb hi).2] at hout
      cases hout
    | ok resolved =>
      obtain ⟨items, warnings⟩ := resolved
      obtain ⟨hattempts, hgoes⟩ := attempts_of_completed_batch hb hi hout
      rw [body_batch unit hb] at hout hw
      have hcollects : KeepsWarnings (batchContext batch (p.attempt unit) call items warnings)
          (batchLayer p.stepId batch p.site.limits.maxBatchErrors (p.attempt unit) call).2 := batchLayer_collects hi
      rw [KeepsWarnings, hw, List.prefix_nil, batchContext_warnings] at hcollects
      have hnofail := not_failed_of_failedItems hb hi (batchLayer_failedItems hi hout hw)
      refine ⟨?_, ?_⟩
      · intro a ha
        have hgoes := hgoes a ha
        cases hcore : (p.core unit a).1 with
        | completed values action => exact ⟨values, action, rfl⟩
        | failed failure => exact absurd hcore (hnofail a ha failure)
        | aborted fault =>
          rw [hcore] at hgoes
          cases hgoes
      · rintro _ ⟨⟩
        rcases resolveItems_eq_ok hi with ⟨_, hcomplete, hlist⟩ | ⟨_, _, issue, hwarnings⟩
        · exact ⟨hcomplete, items, hlist, hattempts⟩
        · rw [(List.append_eq_nil_iff.mp hcollects).1] at hwarnings
          exact absurd hwarnings (by simp)

end Pipeline

/-! ### Children -/

namespace Subworkflow

theorem finish_keepsWarnings (stepId : String) (context : Context) (prepared executed : Json) :
    KeepsWarnings context (finish stepId context prepared executed).1 :=
  finish_keeps Context.keepsWarnings_kept.toCarried (fun _ _ => List.prefix_rfl) stepId context prepared executed

/-- The warnings of a finished child come back as they were, although they are handed over as Json. Those about mapped
outputs that were not found come after them. -/
theorem finish_childResult (stepId : String) (context : Context) (prepared : Json) (report : Report) :
    let mapping := memberObject prepared "output_mapping"
    let mapped := mapOutputs stepId ⟨report.outputs, report.context.data⟩ mapping
    (finish stepId context prepared (childResult report)).1.journal.warnings =
        context.journal.warnings ++ report.context.journal.warnings ++ (if mapping.isEmpty then [] else mapped.2) ∧
      (finish stepId context prepared (childResult report)).2 =
        ⟨if mapping.isEmpty then report.outputs else mapped.1, none⟩ := by
  intro mapping mapped
  have hstored (data : Fields) :
      (if prepared.get? "storage_mode" = some (.str "shared") then context.replaceData data else context).journal =
        context.journal := by
    split <;> rfl
  have hread : ((childResult report).get? "warnings").bind Json.asArray? =
      some (report.context.journal.warnings.map Warning.toJson) := rfl
  have hhanded : (report.context.journal.warnings.map Warning.toJson).filterMap Warning.ofJson? =
      report.context.journal.warnings := by
    rw [List.filterMap_map, Function.comp_def]
    simp only [Warning.ofJson?_toJson, List.filterMap_some]
  unfold finish
  simp only [hread, Option.getD_some, hhanded]
  by_cases hempty : mapping.isEmpty = true
  · rw [if_pos hempty, if_pos hempty, if_pos hempty, List.append_nil]
    refine ⟨?_, rfl⟩
    rw [Context.warn, hstored]
    rfl
  · rw [if_neg hempty, if_neg hempty, if_neg hempty]
    refine ⟨?_, rfl⟩
    rw [Context.warn, Context.warn, hstored]
    rfl

end Subworkflow

/-- A report that can be judged by its status: it says success or degraded by whether there are warnings, and unless it
says failed no fault has ended the run. -/
structure Report.Candid (report : Report) : Prop where
  fatal : report.status ≠ .failed → report.fatal = none
  warnings : report.status = .success ↔ report.status ≠ .failed ∧ report.context.journal.warnings = []

theorem Report.candid_of_settled {report : Report} (h : report.result.Settled) : report.Candid := by
  obtain ⟨_, _, hfailed, _, _, hsuccess⟩ := h.consistent
  have herrors : report.status ≠ .failed ↔ report.failures = [] := not_iff_comm.mp hfailed.symm
  refine ⟨fun hended => ?_, ?_⟩
  · have hnone := herrors.mp hended
    unfold failures at hnone
    simpa using (List.append_eq_nil_iff.mp hnone).1
  · rw [herrors]
    exact hsuccess

theorem Subworkflow.judge_of_candid {report : Report} (hcandid : report.Candid) (hstatus : report.status ≠ .failed)
    (identity : String) : judge identity report = .ok (childResult report) := by
  unfold judge
  rw [hcandid.fatal hstatus]
  simp only [Option.filter_none, if_neg hstatus]

namespace Host

variable {host : Host} {run : Level → Report} {p : Pipeline} {a : Call} {child : Level}

/-- An attempt that completes over a child finished the child, and has its warnings. -/
theorem child_of_completed (hchild : host.child? p a = some (.ok child)) {values : Fields} {action : String}
    (hout : (p.core (host.unitOf run p) a).1 = .completed values action) :
    (run child).status ≠ .failed ∧
      (run child).context.journal.warnings <:+: (p.core (host.unitOf run p) a).2.journal.warnings := by
  obtain ⟨hw, call, hc, ho⟩ := child?_eq_some hchild
  obtain ⟨prepared, hcore⟩ := core_of_opened_ok hw hc ho
  rw [hcore] at hout ⊢
  cases hjudge : Subworkflow.judge child.plan.identity (run child) with
  | error fault =>
    rw [conclude_of_error hjudge] at hout
    cases fault <;> cases hout
  | ok executed =>
    obtain ⟨hstatus, rfl⟩ := Subworkflow.judge_eq_ok hjudge
    refine ⟨hstatus, ?_⟩
    obtain ⟨hwarnings, _⟩ := Subworkflow.finish_childResult p.stepId call.context prepared (run child)
    rw [conclude, hjudge]
    simp only [hwarnings]
    exact ⟨_, _, rfl⟩

/-- An attempt whose child finishes completes. -/
theorem completed_of_child (hchild : host.child? p a = some (.ok child)) (hcandid : (run child).Candid)
    (hstatus : (run child).status ≠ .failed) :
    ∃ values action, (p.core (host.unitOf run p) a).1 = .completed values action := by
  obtain ⟨hw, call, hc, ho⟩ := child?_eq_some hchild
  obtain ⟨prepared, hcore⟩ := core_of_opened_ok hw hc ho
  rw [hcore, conclude, Subworkflow.judge_of_candid hcandid hstatus]
  exact ⟨_, _, rfl⟩

end Host

/-! ### References to outputs -/

namespace Plan

/-- A reference that names nothing but declared outputs, if it is to a step that declares any. -/
def AccessClean (interfaces : Assoc Interface) (stepId : String) (r : Reference) : Prop :=
  ∀ source, Assoc.get? interfaces r.base = some source → source.outputs ≠ [] → checkAccess stepId r source = .clean

theorem accessClean_of_accessWarnings {interfaces : Assoc Interface} {stepId : String} {r : Reference}
    (h : accessWarnings interfaces stepId r = []) : AccessClean interfaces stepId r := by
  intro source hsource hdeclares
  have hempty : source.outputs.isEmpty = false := by simpa using hdeclares
  unfold accessWarnings at h
  simp only [hsource, hempty, Bool.false_eq_true, if_false] at h
  split at h
  · assumption
  · cases h
  · cases h

/-- A plan without warnings let no problem with a reference pass and left no access unchecked. -/
theorem accesses_of_warnings {registry : Registry} {options : PlanOptions} {d : Document} {s : Stages}
    (hs : s.Passed registry options d) (h : s.warnings = []) :
    ∀ step ∈ (view registry d).steps, ∀ r ∈ stepRefs step, AccessClean s.interfaces step.id r := by
  intro step hstep r hr
  have hnone := checkInterfaces_eq_ok hs.accesses
  rw [h, eq_comm, List.flatMap_eq_nil_iff] at hnone
  exact accessClean_of_accessWarnings (List.flatMap_eq_nil_iff.mp (hnone step hstep) r hr)

end Plan

/-! ### Levels -/

def Visit.EndsClean (v : Visit) : Prop :=
  v.after.journal.warnings = [] ∧ ∃ values action, v.outcome = .completed values action

theorem Trail.completed {plan : Plan} {first last : Context} {visits : List Visit}
    (h : Trail plan first visits .finished last) (hvisits : ∀ v ∈ visits, KeepsWarnings v.before v.after)
    (hw : last.journal.warnings = []) : first.journal.warnings = [] ∧ ∀ v ∈ visits, v.EndsClean := by
  have hR := Context.keepsWarnings_kept.toCarried
  have hnil {c : Context} (hc : KeepsWarnings c last) : c.journal.warnings = [] := by
    rw [KeepsWarnings, hw, List.prefix_nil] at hc
    exact hc
  obtain ⟨hfirst, hall⟩ := h.keeps hR hvisits
  refine ⟨hnil hfirst, fun v hv => ⟨hnil (hall v hv).2, ?_⟩⟩
  cases houtcome : v.outcome with
  | completed values action => exact ⟨values, action, rfl⟩
  | aborted fault =>
    have hends := h.ends_at_aborted hv houtcome
    cases hends.1
  | failed failure =>
    exfalso
    obtain ⟨before, rest, hsplit⟩ := List.append_of_mem hv
    cases h.split hsplit with
    | stop _ hf _ =>
      rw [(Plan.routes_of_failed houtcome).2] at hf
      split at hf <;> cases hf
    | go _ _ onward =>
      have hrest : ∀ w ∈ rest, KeepsWarnings w.before w.after := by
        intro w hw
        refine hvisits w ?_
        rw [hsplit]
        exact List.mem_append_right _ (List.mem_cons_of_mem _ hw)
      have hleft := hnil (onward.keeps hR hrest).1
      rw [Visit.left, houtcome] at hleft
      simp [Context.warn, Journal.warn] at hleft

/-- A walk is a success only if it came to its end, its declared outputs resolved and there is no warning. -/
theorem Walk.report_success {w : Walk} {plan : Plan} {bindings : Fields}
    (h : (w.report plan bindings).status = .success) :
    w.ending = .finished ∧ w.context.journal.warnings = [] ∧ (w.report plan bindings).context.data = w.context.data ∧
      ∀ name spec, (name, spec) ∈ plan.outputs →
        ((Scope.mk bindings w.context.data).resolveText (outputTemplate name spec)).isComplete = true := by
  cases hending : w.ending with
  | aborted fault =>
    rw [report, hending] at h
    cases h
  | failed failure =>
    rw [report, hending] at h
    cases h
  | finished =>
    have hw := ((Report.candid_of_settled (w.report_settled plan bindings)).warnings.mp h).2
    rw [report, hending] at hw ⊢
    obtain ⟨hbefore, hmissing⟩ := List.append_eq_nil_iff.mp hw
    refine ⟨rfl, hbefore, rfl, ?_⟩
    intro name spec hspec
    have hnone := List.filterMap_eq_nil_iff.mp hmissing _ (List.mem_map_of_mem hspec)
    rw [Option.map_eq_none_iff, List.head?_eq_none_iff] at hnone
    exact List.isEmpty_iff.mpr hnone

/-- Nothing went wrong in a run of a level, nothing was let pass, and nothing is left to be warned of. -/
structure Level.Clean (host : Host) (run : Level → Report) (level : Level) : Prop where
  warnings : (level.run (host.unitsOver run)).context.journal.warnings = []
  /-- Every step completed, and so did every attempt of it, with its parameters in order and its items resolved. -/
  steps : ∀ v ∈ (level.run (host.unitsOver run)).visits,
    (∃ values action, v.outcome = .completed values action) ∧
      ∃ p step entry, level.Declares host v.stepId p step entry ∧
        (∀ batch, p.batch = some batch → p.ItemsResolved (host.unitOf run p) (level.call v) batch) ∧
        ∀ a ∈ p.attempts (host.unitOf run p) (level.call v),
          (∃ values action, (p.core (host.unitOf run p) a).1 = .completed values action) ∧
            step.Resolvable entry.interface level.plan.limits.maxTemplateDepth a.scope
  /-- Every reference to an output was checked when the plan was built. -/
  accesses : ∃ (options : PlanOptions) (d : Document) (s : Plan.Stages), s.Passed host.registry options d ∧
    level.plan = s.plan options d ∧
      ∀ step ∈ (Plan.view host.registry d).steps, ∀ r ∈ Plan.stepRefs step, Plan.AccessClean s.interfaces step.id r
  outputs : ∀ name spec, (name, spec) ∈ level.plan.outputs →
    ((Scope.mk level.bindings (level.run (host.unitsOver run)).context.data).resolveText
      (outputTemplate name spec)).isComplete = true
  children : ∀ child, host.Opens run level child → (run child).status = .success

namespace Level

variable {host : Host} {limits : Limits} {level : Level} {run : Level → Report}

theorem visit_keepsWarnings (hreg : host.registry.Keeps KeepsWarnings) (hb : level.Built host limits) {v : Visit}
    (hv : v ∈ (level.run (host.unitsOver run)).visits) : KeepsWarnings v.before v.after :=
  hb.visits_keep Context.keepsWarnings_kept (fun _ _ => List.prefix_rfl) hreg hv

/-- The warnings that a step leaves are there at the end. -/
theorem after_keepsWarnings (hreg : host.registry.Keeps KeepsWarnings) (hb : level.Built host limits) {v : Visit}
    (hv : v ∈ (level.run (host.unitsOver run)).visits) :
    KeepsWarnings v.after (level.run (host.unitsOver run)).context := by
  have hkeeps : ∀ v ∈ (level.run (host.unitsOver run)).visits, KeepsWarnings v.before v.after :=
    fun v hv => visit_keepsWarnings hreg hb hv
  have hguard (c : Context) (keys : List String) : KeepsWarnings c (c.guardKeys keys) := List.prefix_rfl
  exact ((run_keeps Context.keepsWarnings_kept hguard hkeeps).2 v hv).2

/-- What the attempts of a step come to that ends clean. -/
theorem visit_attempts {v : Visit} (hv : v ∈ (level.run (host.unitsOver run)).visits) {p : Pipeline}
    (hp : level.plan.pipeline? v.stepId = some p) (h : v.EndsClean) :
    (∀ batch, p.batch = some batch → p.ItemsResolved (host.unitOf run p) (level.call v) batch) ∧
      ∀ a ∈ p.attempts (host.unitOf run p) (level.call v),
        (∃ values action, (p.core (host.unitOf run p) a).1 = .completed values action) ∧
          (p.core (host.unitOf run p) a).2.journal.warnings = [] := by
  obtain ⟨hafter, values, action, houtcome⟩ := h
  have hlayer : p.layer (host.unitOf run p) (level.call v) = (v.outcome, v.after) := visit_layer hv hp
  have hout : (p.layer (host.unitOf run p) (level.call v)).1 = .completed values action := by rw [hlayer, houtcome]
  have hquiet : (p.layer (host.unitOf run p) (level.call v)).2.journal.warnings = [] := by rw [hlayer, hafter]
  obtain ⟨hcompleted, hitems⟩ := Pipeline.attempts_of_completed hout hquiet
  exact ⟨hitems, fun a ha => ⟨hcompleted a ha, Pipeline.attempts_quiet hquiet ha⟩⟩

theorem resolvable_of_completed (hreg : host.registry.Keeps KeepsWarnings) {id : String} {p : Pipeline} {step : Step}
    {entry : RegistryEntry} (hd : level.Declares host id p step entry) {a : Call} {values : Fields} {action : String}
    (hcore : (p.core (host.unitOf run p) a).1 = .completed values action)
    (hquiet : (p.core (host.unitOf run p) a).2.journal.warnings = []) :
    step.Resolvable entry.interface level.plan.limits.maxTemplateDepth a.scope := by
  have hunit : (host.unitOf run p).Keeps KeepsWarnings :=
    Host.unitOf_keeps hreg (fun _ site => Subworkflow.finish_keepsWarnings site.stepId) hd
  have hissues := Pipeline.issues_of_core hunit hcore hquiet
  obtain ⟨options, d, _, _, rfl, hlimits⟩ := hd.built
  exact hlimits ▸ Plan.issues_eq_nil_iff.mp hissues

theorem clean_of_success (hreg : host.registry.Keeps KeepsWarnings) (hb : level.Built host limits)
    (hcandid : ∀ child, (run child).Candid) (h : (level.run (host.unitsOver run)).status = .success) :
    level.Clean host run := by
  have hkeeps : ∀ v ∈ (level.run (host.unitsOver run)).visits, KeepsWarnings v.before v.after :=
    fun v hv => visit_keepsWarnings hreg hb hv
  have hnone := (Report.candid_of_settled (level.run_settled (host.unitsOver run))).warnings.mp h
  rcases level.run_cases (host.unitsOver run) with ⟨fault, _, hrun⟩ | ⟨_, w, hrun, htrail⟩
  · rw [hrun] at h
    cases h
  have hvisits : (level.run (host.unitsOver run)).visits = w.visits := by
    rw [hrun, Walk.report_visits]
  have hsuccess := h
  rw [hrun] at hsuccess
  obtain ⟨hending, hw, hdata, houtputs⟩ := Walk.report_success hsuccess
  rw [hending] at htrail
  obtain ⟨hfirst, hsteps⟩ := htrail.completed (hvisits ▸ hkeeps) hw
  have hended : ∀ v ∈ (level.run (host.unitsOver run)).visits, v.EndsClean := fun v hv => hsteps v (hvisits ▸ hv)
  refine ⟨hnone.2, ?_, ?_, ?_, ?_⟩
  · intro v hv
    obtain ⟨p, hp, _⟩ := visit_eq hv
    obtain ⟨step, entry, hd⟩ := hb.declares hp
    obtain ⟨hitems, hall⟩ := visit_attempts hv hp (hended v hv)
    refine ⟨(hended v hv).2, p, step, entry, hd, hitems, fun a ha => ⟨(hall a ha).1, ?_⟩⟩
    obtain ⟨⟨values, action, hcore⟩, hquiet⟩ := hall a ha
    exact resolvable_of_completed hreg hd hcore hquiet
  · obtain ⟨options, d, _, hbuild⟩ := hb
    obtain ⟨s, hs, hplan⟩ := Plan.build_eq_ok_iff.mp hbuild
    have hplanned : s.warnings = [] := by
      have henter : level.plan.warnings = [] := (List.append_eq_nil_iff.mp hfirst).2
      rw [hplan] at henter
      exact henter
    exact ⟨options, d, s, hs, hplan, Plan.accesses_of_warnings hs hplanned⟩
  · rw [hrun, hdata]
    exact houtputs
  · rintro child ⟨v, hv, p, hp, a, ha, hchild⟩
    obtain ⟨⟨values, action, hcore⟩, hquiet⟩ := (visit_attempts hv hp (hended v hv)).2 a ha
    obtain ⟨hstatus, hinfix⟩ := Host.child_of_completed hchild hcore
    rw [hquiet] at hinfix
    exact (hcandid child).warnings.mpr ⟨hstatus, List.infix_nil.mp hinfix⟩

end Level

/-! ### Runs -/

namespace Host

/-- A level comes to its report in a clean run, and so do the levels it opens, and theirs. -/
inductive CleanRun (host : Host) : Level → Report → Prop where
  | intro {level : Level} (run : Level → Report) (clean : level.Clean host run)
      (children : ∀ child, host.Opens run level child → CleanRun host child (run child)) :
      CleanRun host level (level.run (host.unitsOver run))

variable {host : Host} {limits : Limits} {level child : Level}

theorem cleanRun_of_success (hreg : host.registry.Keeps KeepsWarnings) (levels : Nat) (hb : level.Built host limits)
    (h : (host.runWithin levels level).status = .success) : host.CleanRun level (host.runWithin levels level) := by
  induction levels generalizing level with
  | zero => cases h
  | succ levels ih =>
    have hcandid : ∀ child, (host.runWithin levels child).Candid :=
      fun child => Report.candid_of_settled (host.runWithin_settled levels child)
    have hclean := Level.clean_of_success hreg hb hcandid h
    exact .intro (host.runWithin levels) hclean fun child hopens => ih (hopens.built hb) (hclean.children child hopens)

/-- What a finished child warns of, its caller warns of in the end. -/
theorem child_warnings (hreg : host.registry.Keeps KeepsWarnings) (hb : level.Built host limits) {levels : Nat}
    (hopens : host.Opens (host.runWithin levels) level child)
    (hstatus : (host.runWithin levels child).status ≠ .failed) :
    (host.runWithin levels child).context.journal.warnings <:+:
      (host.runWithin (levels + 1) level).context.journal.warnings := by
  obtain ⟨v, hv, p, hp, a, ha, hchild⟩ := hopens
  have hcandid := Report.candid_of_settled (host.runWithin_settled levels child)
  obtain ⟨values, action, hcore⟩ := completed_of_child hchild hcandid hstatus
  have hinfix := (child_of_completed hchild hcore).2.trans (Pipeline.core_warnings ha)
  have hlayer : p.layer (host.unitOf (host.runWithin levels) p) (level.call v) = (v.outcome, v.after) :=
    Level.visit_layer hv hp
  rw [hlayer] at hinfix
  exact hinfix.trans (Level.after_keepsWarnings hreg hb hv).isInfix

/-- A run that succeeds is clean at every level. Whether or not it does, a child that finishes hands all its warnings to
its caller; the levels of a run differ in how many are left to their children. -/
theorem success_is_clean (host : Host) (hreg : host.registry.Keeps KeepsWarnings) (d : Document) (params : Fields)
    (options : PlanOptions) :
    ((host.run d params options).status = .success →
      ∃ plan, host.plan d params options = .ok plan ∧
        host.run d params options = (host.report (plan.top params)).result ∧
        host.CleanRun (plan.top params) (host.report (plan.top params))) ∧
    ∀ plan, host.plan d params options = .ok plan → ∀ k level, ⟨k, .opened level⟩ ∈ host.record (plan.top params) →
      ∀ levels child, host.Opens (host.runWithin levels) level child → (host.runWithin levels child).status ≠ .failed →
        (host.runWithin levels child).context.journal.warnings <:+:
          (host.runWithin (levels + 1) level).context.journal.warnings := by
  refine ⟨fun h => ?_, ?_⟩
  · unfold run at h ⊢
    cases hp : host.plan d params options with
    | error fault =>
      rw [hp] at h
      cases h
    | ok plan =>
      rw [hp] at h
      exact ⟨plan, rfl, rfl, cleanRun_of_success hreg _ (top_built hp) h⟩
  · intro plan hp k level hlevel levels child hopens hstatus
    exact child_warnings hreg (built_of_recordWithin _ (top_built hp) hlevel) hopens hstatus

end Host

def greetDocument : Document where
  version := "1"
  name := none
  start := none
  steps := [⟨"say", "echo", none, [("text", .str "hello $\x7bname\x7d")], none⟩]
  edges := []
  inputs := []
  outputs := [("greeting", ⟨.parse "str", "", some "$\x7bsay.text\x7d"⟩)]
  mode := .strict

def greetAllDocument : Document where
  version := "1"
  name := none
  start := none
  steps :=
    [⟨"greet", "workflow", none,
      [("workflow_ir", greetDocument.toJson), ("param_mapping", .obj [("name", .str "$\x7bitem\x7d")])],
      some ⟨"$\x7bnames\x7d", "item", .carryOn⟩⟩]
  edges := []
  inputs := []
  outputs := []
  mode := .permissive

theorem success_is_clean_greet :
    ∃ host : Host, ∃ plan,
      host.plan greetAllDocument [("names", .arr [.str "first", .str "second"])] {} = .ok plan ∧
      (host.run greetAllDocument [("names", .arr [.str "first", .str "second"])] {}).status = .success ∧
      host.CleanRun (plan.top [("names", .arr [.str "first", .str "second"])])
        (host.report (plan.top [("names", .arr [.str "first", .str "second"])])) := by
  let host : Host := ⟨.builtin, .empty⟩
  let params : Fields := [("names", .arr [.str "first", .str "second"])]
  have hstatus : (host.run greetAllDocument params {}).status = .success := by decide +kernel
  have hreg : host.registry.Keeps KeepsWarnings := Registry.builtin_keeps Context.keepsWarnings_kept.refl
  obtain ⟨plan, hp, _, hclean⟩ := (Host.success_is_clean host hreg greetAllDocument params {}).1 hstatus
  exact ⟨host, plan, hp, hstatus, hclean⟩

end Workflow
