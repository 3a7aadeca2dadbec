import Workflow.Proofs.Agreement
import Workflow.Proofs.Isolation
import Workflow.Proofs.Trail
import Mathlib.Data.List.Perm.Basic

/-! Contexts whose warnings and guarded names stand in another order. Warnings are only ever added to, and of the
guarded names it is only asked whether one is among them, so no layer of a step comes to anything else in such a
context, and what it leaves differs in those orders alone. -/

namespace Workflow

/-! ### Contexts -/

/-- A context with the same warnings and guarded names, in some order. -/
structure Context.Reorders (c c' : Context) : Prop where
  data : c'.data = c.data
  frame : c'.frame = c.frame
  guarded : c'.guarded.Perm c.guarded
  warnings : c'.journal.warnings.Perm c.journal.warnings
  journal : c'.journal = { c.journal with warnings := c'.journal.warnings }

namespace Context.Reorders

variable {c c' : Context}

theorem refl (c : Context) : c.Reorders c := ⟨rfl, rfl, .refl _, .refl _, rfl⟩

theorem isGuarded (h : c.Reorders c') (key : String) : c'.isGuarded key = c.isGuarded key := by
  unfold Context.isGuarded
  rw [h.guarded.contains_eq]

theorem guardKeys (h : c.Reorders c') {keys keys' : List String} (hkeys : keys'.Perm keys) :
    (c.guardKeys keys).Reorders (c'.guardKeys keys') :=
  { h with guarded := h.guarded.append hkeys }

theorem setWarnings (h : c.Reorders c') {warnings warnings' : List Warning} (hw : warnings'.Perm warnings) :
    (c.setWarnings warnings).Reorders (c'.setWarnings warnings') where
  data := h.data
  frame := h.frame
  guarded := h.guarded
  warnings := hw
  journal := by
    unfold Context.setWarnings
    rw [h.journal]

theorem warn (h : c.Reorders c') {warnings warnings' : List Warning} (hw : warnings'.Perm warnings) :
    (c.warn warnings).Reorders (c'.warn warnings') :=
  h.setWarnings (h.warnings.append hw)

theorem insert (h : c.Reorders c') (key : String) (v : Json) : (c.insert key v).Reorders (c'.insert key v) := by
  unfold Context.insert
  split
  · exact h
  · exact { h with data := congrArg (Assoc.put key v) h.data }

theorem insertAll (h : c.Reorders c') (entries : Fields) : (c.insertAll entries).Reorders (c'.insertAll entries) := by
  unfold Context.insertAll
  induction entries generalizing c c' with
  | nil => exact h
  | cons e rest ih => exact ih (h.insert e.1 e.2)

theorem copy (h : c.Reorders c') (stepId : String) (entries : Fields) :
    (c.copy stepId entries).Reorders (c'.copy stepId entries) := by
  induction entries generalizing c c' with
  | nil => exact h
  | cons e rest ih =>
    rw [copy_cons, copy_cons, h.isGuarded]
    refine ih ?_
    split
    · exact h
    · exact h.insert e.1 e.2

theorem commit (h : c.Reorders c') (stepId : String) (values : Fields) :
    (c.commit stepId values).Reorders (c'.commit stepId values) :=
  (h.insert stepId _).copy stepId values

theorem replaceData (h : c.Reorders c') (data : Fields) : (c.replaceData data).Reorders (c'.replaceData data) :=
  { h with data := rfl }

theorem scratch (h : c.Reorders c') : c.scratch.Reorders c'.scratch :=
  ⟨h.data, h.frame, h.guarded, .refl _, rfl⟩

/-- What a step notes of itself does not touch the warnings. -/
theorem noted (h : c.Reorders c') (note : Journal → Journal)
    (hnote : ∀ j warnings, note { j with warnings := warnings } = { note j with warnings := warnings }) :
    Reorders { c with journal := note c.journal } { c' with journal := note c'.journal } := by
  have hjournal : note c'.journal = { note c.journal with warnings := c'.journal.warnings } := by
    rw [← hnote, ← h.journal]
  have hwarnings : (note c.journal).warnings = c.journal.warnings := by
    have hsame := congrArg Journal.warnings (hnote c.journal c.journal.warnings)
    exact hsame
  refine ⟨h.data, h.frame, h.guarded, ?_, ?_⟩
  · simp only [hjournal, hwarnings]
    exact h.warnings
  · simp only [hjournal]

theorem shared (h : c.Reorders c') : c'.shared = c.shared := by
  unfold Context.shared
  rw [h.data, h.frame, h.journal]

end Context.Reorders

theorem Context.agreement_reorders : Agreement Reorders where
  warn _ h := h.warn (.refl _)
  data h := h.data
  silent h := by rw [← List.perm_nil, h.warnings.congr_left, List.perm_nil]

/-! ### Layers -/

def Call.on (call : Call) (context : Context) : Call := { call with context := context }

def Layer.IgnoresOrder (layer : Layer) : Prop :=
  ∀ call c', call.context.Reorders c' → ∃ outcome left left', layer call = (outcome, left) ∧
    layer (call.on c') = (outcome, left') ∧ left.Reorders left'

/-- A unit that looks neither at the order of the warnings nor at that of the guarded names. -/
structure LeafUnit.IgnoresOrder (unit : LeafUnit) : Prop where
  prepare : ∀ params {c c'}, c.Reorders c' → unit.prepare params c' = unit.prepare params c
  finalize : ∀ {c c'} prepared executed, c.Reorders c' → ∃ output left left',
    unit.finalize c prepared executed = (left, output) ∧ unit.finalize c' prepared executed = (left', output) ∧
      left.Reorders left'

/-- Every unit that the registry makes ignores order. Of units of other makes this assumes that they work on parameters
and data, as documented: warnings accumulate for the result, and guarded names only keep keys from being written over. -/
def Registry.IgnoresOrder (registry : Registry) : Prop :=
  ∀ kind entry make, Assoc.get? registry kind = some entry → entry.implementation = .leaf make →
    ∀ site, (make site).IgnoresOrder

theorem Registry.builtin_ignoresOrder : Registry.builtin.IgnoresOrder := by
  intro kind entry make hentry hmake site
  rcases builtin_leaf hentry hmake with rfl | rfl | rfl
  all_goals exact ⟨fun _ _ _ _ => rfl, fun _ _ h => ⟨_, _, _, rfl, rfl, h⟩⟩

section
variable {unit : LeafUnit} {inner : Layer} {c' : Context} {call : Call}

theorem Call.scope_on (h : call.context.Reorders c') : (call.on c').scope = call.scope := by
  unfold Call.scope Call.on
  rw [h.data]

theorem leafLayer_ignoresOrder (h : unit.IgnoresOrder) (stepId : String) (literals : Fields) :
    (leafLayer stepId unit literals).IgnoresOrder := by
  intro call c' hc
  unfold leafLayer
  simp only [Call.on, h.prepare _ hc]
  cases unit.prepare (Assoc.putAll literals call.params) call.context with
  | error fault => exact ⟨_, _, _, rfl, rfl, hc⟩
  | ok prepared =>
    simp only
    cases unit.attempt prepared with
    | error fault => exact ⟨_, _, _, rfl, rfl, hc⟩
    | ok executed =>
      obtain ⟨output, left, left', hfinal, hfinal', hleft⟩ := h.finalize prepared executed hc
      simp only [hfinal, hfinal']
      cases output with
      | error fault => exact ⟨_, _, _, rfl, rfl, hleft⟩
      | ok output => exact ⟨_, _, _, rfl, rfl, hleft⟩

theorem namespaceLayer_ignoresOrder (h : inner.IgnoresOrder) (stepId : String) :
    (namespaceLayer stepId inner).IgnoresOrder := by
  intro call c' hc
  obtain ⟨outcome, left, left', heq, heq', hleft⟩ := h call c' hc
  unfold namespaceLayer
  rw [heq, heq']
  cases outcome with
  | completed values action => exact ⟨_, _, _, rfl, rfl, hleft.commit stepId values⟩
  | failed failure => exact ⟨_, _, _, rfl, rfl, hleft.insert stepId _⟩
  | aborted fault => exact ⟨_, _, _, rfl, rfl, hleft⟩

theorem instrumentedLayer_ignoresOrder (h : inner.IgnoresOrder) (stepId : String) :
    (instrumentedLayer stepId inner).IgnoresOrder := by
  intro call c' hc
  obtain ⟨outcome, left, left', heq, heq', hleft⟩ := h call c' hc
  unfold instrumentedLayer
  rw [heq, heq']
  refine ⟨_, _, _, rfl, rfl, ?_⟩
  cases outcome with
  | completed values action =>
    exact hleft.noted (fun j => (j.recordTiming stepId 0).recordCompletion stepId (!values.isEmpty))
      fun _ _ => rfl
  | failed failure => exact hleft.noted (fun j => j.recordTiming stepId 0) fun _ _ => rfl
  | aborted fault => exact hleft.noted (fun j => j.recordTiming stepId 0) fun _ _ => rfl

/-! ### Batches -/

structure ItemRun.Reorders (r r' : ItemRun) : Prop where
  item : r'.item = r.item
  outcome : r'.outcome = r.outcome
  warnings : r'.warnings.Perm r.warnings

theorem runItem_reorders (h : inner.IgnoresOrder) (itemName : String) (hc : call.context.Reorders c') (item : Json) :
    (runItem inner itemName call item).Reorders (runItem inner itemName (call.on c') item) := by
  obtain ⟨outcome, left, left', heq, heq', hleft⟩ := h (itemCall itemName call item) c'.scratch hc.scratch
  have heq' : inner (itemCall itemName (call.on c') item) = (outcome, left') := heq'
  unfold runItem
  rw [heq, heq']
  exact ⟨rfl, rfl, hleft.warnings⟩

theorem runItems_reorders {run run' : Json → ItemRun} (h : ∀ x, (run x).Reorders (run' x)) (policy : BatchPolicy)
    (items : List Json) : List.Forall₂ ItemRun.Reorders (runItems run policy items) (runItems run' policy items) := by
  induction items with
  | nil => exact .nil
  | cons item rest ih =>
    have hstops : (run' item).stops policy = (run item).stops policy := by
      unfold ItemRun.stops
      rw [(h item).outcome]
    rw [runItems, runItems]
    simp only [hstops]
    split
    · exact .cons (h item) .nil
    · exact .cons (h item) ih

theorem flatMap_warnings_perm {runs runs' : List ItemRun} (h : List.Forall₂ ItemRun.Reorders runs runs') :
    (runs'.flatMap ItemRun.warnings).Perm (runs.flatMap ItemRun.warnings) := by
  induction h with
  | nil => exact .refl _
  | cons hhead _ ih =>
    rw [List.flatMap_cons, List.flatMap_cons]
    exact hhead.warnings.append ih

def ItemRun.silenced (r : ItemRun) : ItemRun := { r with warnings := [] }

theorem map_silenced {runs runs' : List ItemRun} (h : List.Forall₂ ItemRun.Reorders runs runs') :
    runs'.map ItemRun.silenced = runs.map ItemRun.silenced := by
  induction h with
  | nil => rfl
  | cons hhead _ ih =>
    rw [List.map_cons, List.map_cons, ih]
    simp only [ItemRun.silenced, hhead.item, hhead.outcome]

theorem failedItems_silenced (runs : List ItemRun) : failedItems (runs.map ItemRun.silenced) = failedItems runs := by
  unfold failedItems
  rw [List.zipIdx_map, List.filterMap_map]
  rfl

theorem batchValues_silenced (runs : List ItemRun) (maxErrors : Nat) :
    batchValues (runs.map ItemRun.silenced) maxErrors = batchValues runs maxErrors := by
  unfold batchValues
  rw [failedItems_silenced, List.map_map, List.length_map]
  rfl

def batchEnd (stepId : String) (batch : Batch) (maxErrors : Nat) (runs : List ItemRun) (context : Context) :
    StepOutcome × Context :=
  match runs.getLast?.filter (·.stops batch.onError) with
  | some ⟨item, .failed failure, _⟩ =>
    let failure := batchFailure stepId (runs.length - 1) item failure
    (.failed failure, context.insert stepId (errorValue failure.message))
  | some ⟨_, .aborted fault, _⟩ => (.aborted fault, context)
  | _ =>
    let values := batchValues runs maxErrors
    let failed := (failedItems runs).length
    let context := if 0 < failed then context.warn [batchWarning stepId failed runs.length] else context
    (.completed values defaultAction, context.commit stepId values)

theorem batchLayer_eq_end {stepId : String} {batch : Batch} {items : List Json} {warnings : List Warning}
    (h : resolveItems stepId batch call = .ok (items, warnings)) (maxErrors : Nat) (inner : Layer) :
    batchLayer stepId batch maxErrors inner call =
      batchEnd stepId batch maxErrors (batchRuns batch inner call items)
        ((call.context.setWarnings warnings).warn ((batchRuns batch inner call items).flatMap ItemRun.warnings)) := by
  unfold batchLayer
  rw [h]
  rfl

theorem batchEnd_silenced (stepId : String) (batch : Batch) (maxErrors : Nat) (runs : List ItemRun)
    (context : Context) :
    batchEnd stepId batch maxErrors (runs.map ItemRun.silenced) context =
      batchEnd stepId batch maxErrors runs context := by
  have hlast : (runs.map ItemRun.silenced).getLast?.filter (·.stops batch.onError) =
      (runs.getLast?.filter (·.stops batch.onError)).map ItemRun.silenced := by
    rw [List.getLast?_map]
    cases runs.getLast? with
    | none => rfl
    | some last =>
      have hstops : last.silenced.stops batch.onError = last.stops batch.onError := rfl
      simp only [Option.map_some, Option.filter, hstops]
      split <;> rfl
  unfold batchEnd
  rw [hlast, batchValues_silenced, failedItems_silenced, List.length_map]
  cases runs.getLast?.filter (·.stops batch.onError) with
  | none => rfl
  | some last =>
    obtain ⟨item, outcome, warnings⟩ := last
    cases outcome <;> rfl

theorem batchEnd_reorders (stepId : String) (batch : Batch) (maxErrors : Nat) (runs : List ItemRun) {c c' : Context}
    (hc : c.Reorders c') :
    ∃ outcome left left', batchEnd stepId batch maxErrors runs c = (outcome, left) ∧
      batchEnd stepId batch maxErrors runs c' = (outcome, left') ∧ left.Reorders left' := by
  unfold batchEnd
  split
  · exact ⟨_, _, _, rfl, rfl, hc.insert stepId _⟩
  · exact ⟨_, _, _, rfl, rfl, hc⟩
  · refine ⟨_, _, _, rfl, rfl, Context.Reorders.commit ?_ stepId _⟩
    split
    · exact hc.warn (.refl _)
    · exact hc

/-- Problems with the items leave the same warning behind others in any order. -/
theorem resolveItems_reorders (stepId : String) (batch : Batch) (hc : call.context.Reorders c') :
    (∃ fault, resolveItems stepId batch call = .error fault ∧ resolveItems stepId batch (call.on c') = .error fault) ∨
      ∃ items warnings warnings', resolveItems stepId batch call = .ok (items, warnings) ∧
        resolveItems stepId batch (call.on c') = .ok (items, warnings') ∧ warnings'.Perm warnings := by
  have hsettle (issue : Fault) :
      (∃ fault, (call.mode.settle issue call.context.journal.warnings).map (fun w => (([] : List Json), w)) =
            .error fault ∧
          (call.mode.settle issue c'.journal.warnings).map (fun w => (([] : List Json), w)) = .error fault) ∨
        ∃ items warnings warnings',
          (call.mode.settle issue call.context.journal.warnings).map (fun w => (([] : List Json), w)) =
              .ok (items, warnings) ∧
            (call.mode.settle issue c'.journal.warnings).map (fun w => (([] : List Json), w)) = .ok (items, warnings') ∧
            warnings'.Perm warnings := by
    cases call.mode with
    | strict => exact .inl ⟨issue, rfl, rfl⟩
    | permissive => exact .inr ⟨[], _, _, rfl, rfl, hc.warnings.append_right _⟩
  unfold resolveItems
  simp only [Call.scope_on hc]
  split
  · split
    · exact .inr ⟨_, _, _, rfl, rfl, hc.warnings⟩
    · exact hsettle _
  · exact hsettle _

theorem batchLayer_ignoresOrder (h : inner.IgnoresOrder) (stepId : String) (batch : Batch) (maxErrors : Nat) :
    (batchLayer stepId batch maxErrors inner).IgnoresOrder := by
  intro call c' hc
  rcases resolveItems_reorders stepId batch hc with
    ⟨fault, hi, hi'⟩ | ⟨items, warnings, warnings', hi, hi', hwarnings⟩
  · unfold batchLayer
    rw [hi, hi']
    exact ⟨_, _, _, rfl, rfl, hc⟩
  · have hruns : List.Forall₂ ItemRun.Reorders (batchRuns batch inner call items)
        (batchRuns batch inner (call.on c') items) :=
      runItems_reorders (fun item => runItem_reorders h batch.itemName hc item) batch.onError items
    have hsame (c : Context) : batchEnd stepId batch maxErrors (batchRuns batch inner (call.on c') items) c =
        batchEnd stepId batch maxErrors (batchRuns batch inner call items) c := by
      rw [← batchEnd_silenced, map_silenced hruns, batchEnd_silenced]
    rw [batchLayer_eq_end hi, batchLayer_eq_end hi', hsame]
    exact batchEnd_reorders stepId batch maxErrors _ ((hc.setWarnings hwarnings).warn (flatMap_warnings_perm hruns))

end

/-! ### Steps -/

namespace Pipeline

variable {p : Pipeline} {unit : LeafUnit} {call : Call} {c' : Context}

theorem leafCall_reorders (p : Pipeline) (hc : call.context.Reorders c') :
    (∃ fault, p.leafCall call = .error fault ∧ p.leafCall (call.on c') = .error fault) ∨
      ∃ inner left', p.leafCall call = .ok inner ∧ p.leafCall (call.on c') = .ok (inner.on left') ∧
        inner.context.Reorders left' := by
  have hissues : p.issues (call.on c') = p.issues call := by
    unfold issues
    rw [Call.scope_on hc]
  have hsettled (warnings : List Warning) :
      p.settled (call.on c') warnings = (p.settled call warnings).on (c'.warn warnings) := by
    unfold settled
    rw [Call.scope_on hc]
    rfl
  cases hmode : call.mode with
  | permissive =>
    have hmode' : (call.on c').mode = .permissive := hmode
    refine .inr ⟨_, _, leafCall_permissive hmode, ?_, hc.warn (.refl _)⟩
    rw [leafCall_permissive hmode', hissues, hsettled]
  | strict =>
    have hmode' : (call.on c').mode = .strict := hmode
    cases hi : p.issues call with
    | nil =>
      refine .inr ⟨_, _, leafCall_of_no_issues hi, ?_, hc.warn (.refl _)⟩
      rw [leafCall_of_no_issues (hissues.trans hi), hsettled]
    | cons issue rest =>
      exact .inl ⟨issue, leafCall_strict hmode hi, leafCall_strict hmode' (hissues.trans hi)⟩

theorem core_ignoresOrder (p : Pipeline) (h : unit.IgnoresOrder) : (p.core unit).IgnoresOrder := by
  intro call c' hc
  rcases p.leafCall_reorders hc with ⟨fault, hleaf, hleaf'⟩ | ⟨inner, left', hleaf, hleaf', hleft⟩
  · rw [core_of_leafCall_error unit hleaf, core_of_leafCall_error unit hleaf']
    exact ⟨_, _, _, rfl, rfl, hc⟩
  · rw [core_of_leafCall_ok unit hleaf, core_of_leafCall_ok unit hleaf']
    exact leafLayer_ignoresOrder h p.stepId p.literals inner left' hleft

theorem layer_ignoresOrder (p : Pipeline) (h : unit.IgnoresOrder) : (p.layer unit).IgnoresOrder := by
  have hattempt : (p.attempt unit).IgnoresOrder := namespaceLayer_ignoresOrder (p.core_ignoresOrder h) p.stepId
  refine instrumentedLayer_ignoresOrder ?_ p.stepId
  cases hb : p.batch with
  | none =>
    have hbody : p.body unit = p.attempt unit := funext fun _ => body_single unit hb
    rw [hbody]
    exact hattempt
  | some batch =>
    have hbody : p.body unit = batchLayer p.stepId batch p.site.limits.maxBatchErrors (p.attempt unit) :=
      funext fun _ => body_batch unit hb
    rw [hbody]
    exact batchLayer_ignoresOrder hattempt p.stepId batch p.site.limits.maxBatchErrors

end Pipeline

/-- What the child hands back is taken over in any order. -/
theorem Subworkflow.finish_reorders (stepId : String) (prepared executed : Json) {c c' : Context} (h : c.Reorders c') :
    ∃ output left left', finish stepId c prepared executed = (left, output) ∧
      finish stepId c' prepared executed = (left', output) ∧ left.Reorders left' := by
  have htaken (data : Fields) (shared : Prop) [Decidable shared] (warnings : List Warning) :
      ((if shared then c.replaceData data else c).warn warnings).Reorders
        ((if shared then c'.replaceData data else c').warn warnings) := by
    split
    · exact (h.replaceData data).warn (.refl _)
    · exact h.warn (.refl _)
  unfold finish
  by_cases hempty : (memberObject prepared "output_mapping").isEmpty
  · simp only [if_pos hempty]
    exact ⟨_, _, _, rfl, rfl, htaken _ _ _⟩
  · simp only [if_neg hempty]
    exact ⟨_, _, _, rfl, rfl, (htaken _ _ _).warn (.refl _)⟩

/-- A step that runs a workflow looks at the data and the frame of its context alone, so its child is the same. -/
theorem Subworkflow.unit_ignoresOrder (files : FileTree) (child : Invocation → Except UnitFault Json) (site : Site) :
    (unit files child site).IgnoresOrder where
  prepare params c c' h := by
    have hsame : invocation files site params c' = invocation files site params c :=
      invocation_congr h.frame fun _ _ => by rw [h.data]
    exact congrArg (fun i => i.map Invocation.toJson) hsame
  finalize prepared executed h := by
    obtain ⟨output, left, left', heq, heq', hleft⟩ := finish_reorders site.stepId prepared executed h
    simp only [unit, heq, heq']
    exact ⟨_, _, _, rfl, rfl, hleft⟩

theorem Host.unitOf_ignoresOrder {host : Host} (hreg : host.registry.IgnoresOrder) (run : Level → Report) {p : Pipeline}
    {kind : String} {entry : RegistryEntry} (hkind : Assoc.get? host.registry kind = some entry)
    (himplementation : p.implementation = entry.implementation) : (host.unitOf run p).IgnoresOrder := by
  unfold unitOf
  rw [himplementation]
  cases hw : entry.implementation with
  | leaf make => exact hreg kind entry make hkind hw p.site
  | subworkflow => exact Subworkflow.unit_ignoresOrder _ _ _

end Workflow
