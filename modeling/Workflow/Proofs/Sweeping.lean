import Workflow.Proofs.Arrangement
import Workflow.Proofs.Effects
import Workflow.Proofs.Summaries

/-! A batch item by item. The loop runs each item on a copy of the context as the items before it have left it, and
counts as it goes. All that an item leaves in that context are warnings, and a copy is made without them; so an item
comes to what it would come to alone, wherever it stands in the batch. -/

namespace Workflow

/-! ### The end of a batch -/

section
variable {stepId : String} {batch : Batch} {maxErrors : Nat} {runs : List ItemRun}

theorem batchEnd_of_none_stops (h : ∀ r ∈ runs, r.stops batch.onError = false) (context : Context) :
    batchEnd stepId batch maxErrors runs context =
      (.completed (batchValues runs maxErrors) defaultAction,
        (if 0 < (failedItems runs).length then
            context.warn [batchWarning stepId (failedItems runs).length runs.length]
          else context).commit stepId (batchValues runs maxErrors)) := by
  unfold batchEnd
  rw [stopping_eq_none h]

theorem getLast?_of_stops {r : ItemRun} {policy : BatchPolicy} (h : r.stops policy = true) :
    (runs ++ [r]).getLast?.filter (·.stops policy) = some r := by
  rw [List.getLast?_concat, Option.filter_some, if_pos h]

/-- What is in the context has no part in what a batch comes to. -/
theorem batchEnd_outcome (context context' : Context) :
    (batchEnd stepId batch maxErrors runs context).1 = (batchEnd stepId batch maxErrors runs context').1 := by
  unfold batchEnd
  split <;> rfl

theorem batchEnd_of_failed {r : ItemRun} {failure : StepFailure} (h : r.outcome = .failed failure)
    (hpolicy : batch.onError = .failFast) (context : Context) :
    batchEnd stepId batch maxErrors (runs ++ [r]) context =
      (.failed (batchFailure stepId runs.length r.item failure),
        context.insert stepId (errorValue (batchFailure stepId runs.length r.item failure).message)) := by
  have hstops : r.stops batch.onError = true := by
    rw [ItemRun.stops, h, hpolicy]
    rfl
  have hlength : (runs ++ [r]).length - 1 = runs.length := by simp
  obtain ⟨item, outcome, warnings⟩ := r
  cases h
  unfold batchEnd
  rw [getLast?_of_stops hstops, hlength]

theorem batchEnd_of_aborted {r : ItemRun} {fault : Fault} (h : r.outcome = .aborted fault) (context : Context) :
    batchEnd stepId batch maxErrors (runs ++ [r]) context = (.aborted fault, context) := by
  have hstops : r.stops batch.onError = true := by
    rw [ItemRun.stops, h]
    rfl
  obtain ⟨item, outcome, warnings⟩ := r
  cases h
  unfold batchEnd
  rw [getLast?_of_stops hstops]

end

/-! ### The loop -/

/-- Runs the items that are left, given what has been counted of those before. The context goes from item to item; there
is no result if a count falls short. -/
def sweepItems (stepId : String) (batch : Batch) (maxErrors : Nat) (inner : Layer) (call : Call) (t : Tally) :
    List Json → Option (StepOutcome × Context)
  | [] => t.values?.map fun values =>
    let context :=
      if 0 < t.failed then call.context.warn [batchWarning stepId t.failed t.results.length] else call.context
    (.completed values defaultAction, context.commit stepId values)
  | item :: rest =>
    let r := runItem inner batch.itemName call item
    let context := call.context.warn r.warnings
    match r.outcome, batch.onError with
    | .aborted fault, _ => some (.aborted fault, context)
    | .failed failure, .failFast =>
      let failure := batchFailure stepId t.results.length item failure
      some (.failed failure, context.insert stepId (errorValue failure.message))
    | _, _ => sweepItems stepId batch maxErrors inner { call with context := context } (t.add maxErrors r) rest

section
variable {stepId : String} {batch : Batch} {maxErrors : Nat} {inner : Layer} {call : Call}

theorem sweepItems_cons_of_goes {t : Tally} {item : Json} {rest : List Json}
    (h : (runItem inner batch.itemName call item).stops batch.onError = false) :
    sweepItems stepId batch maxErrors inner call t (item :: rest) =
      sweepItems stepId batch maxErrors inner
        { call with context := call.context.warn (runItem inner batch.itemName call item).warnings }
        (t.add maxErrors (runItem inner batch.itemName call item)) rest := by
  rw [ItemRun.stops] at h
  rw [sweepItems]
  split
  · rename_i houtcome
    rw [houtcome] at h
    cases h
  · rename_i houtcome hpolicy
    rw [houtcome, hpolicy] at h
    cases h
  · rfl

theorem sweepItems_cons_of_stops {before : List ItemRun} {t : Tally} (ht : t.results.length = before.length)
    {item : Json} {rest : List Json} (h : (runItem inner batch.itemName call item).stops batch.onError = true) :
    sweepItems stepId batch maxErrors inner call t (item :: rest) =
      some (batchEnd stepId batch maxErrors (before ++ [runItem inner batch.itemName call item])
        (call.context.warn (runItem inner batch.itemName call item).warnings)) := by
  rw [sweepItems]
  cases houtcome : (runItem inner batch.itemName call item).outcome with
  | completed values action =>
    rw [ItemRun.stops, houtcome] at h
    cases h
  | aborted fault => rw [batchEnd_of_aborted houtcome]
  | failed failure =>
    have hpolicy : batch.onError = .failFast := by
      rw [ItemRun.stops, houtcome] at h
      exact of_decide_eq_true h
    rw [batchEnd_of_failed houtcome hpolicy, hpolicy]
    simp only [ht]
    rfl

/-- The loop ends as the batch does. What has been counted and warned of so far belongs to the items before. -/
theorem sweepItems_eq_end {before : List ItemRun} (hbefore : ∀ r ∈ before, r.stops batch.onError = false)
    (items : List Json) :
    sweepItems stepId batch maxErrors inner
        { call with context := call.context.warn (before.flatMap ItemRun.warnings) } (.ofRuns maxErrors before) items =
      some (batchEnd stepId batch maxErrors (before ++ batchRuns batch inner call items)
        (call.context.warn ((before ++ batchRuns batch inner call items).flatMap ItemRun.warnings))) := by
  -- The runs before are generalized: they are what the tally and the context tell of.
  induction items generalizing before with
  | nil =>
    have hruns : before ++ batchRuns batch inner call [] = before := List.append_nil before
    rw [hruns, batchEnd_of_none_stops hbefore, sweepItems, Tally.ofRuns_values?, Tally.ofRuns_eq, List.length_map]
    rfl
  | cons item rest ih =>
    -- a copy of the context is the same whatever the items before have warned of
    have hrun : runItem inner batch.itemName
        { call with context := call.context.warn (before.flatMap ItemRun.warnings) } item =
          runItem inner batch.itemName call item := rfl
    have hwarned (r : ItemRun) : (call.context.warn (before.flatMap ItemRun.warnings)).warn r.warnings =
        call.context.warn ((before ++ [r]).flatMap ItemRun.warnings) := by
      rw [Context.warn_warn, List.flatMap_append, List.flatMap_singleton]
    have hcount : (Tally.ofRuns maxErrors before).results.length = before.length := by
      rw [Tally.ofRuns_eq, List.length_map]
    cases hstops : (runItem inner batch.itemName call item).stops batch.onError with
    | false =>
      have hruns : batchRuns batch inner call (item :: rest) =
          runItem inner batch.itemName call item :: batchRuns batch inner call rest := by
        rw [batchRuns, runItems, hstops]
        rfl
      have hbefore' : ∀ r ∈ before ++ [runItem inner batch.itemName call item], r.stops batch.onError = false := by
        intro r hr
        rcases List.mem_append.mp hr with hr | hr
        · exact hbefore r hr
        · rw [List.mem_singleton.mp hr]
          exact hstops
      have hnext := ih hbefore'
      rw [List.append_assoc, List.singleton_append, ← hruns] at hnext
      rw [← hnext, sweepItems_cons_of_goes (hrun ▸ hstops), hrun, ← hwarned, Tally.ofRuns, Tally.ofRuns,
        List.foldl_concat]
    | true =>
      have hruns : batchRuns batch inner call (item :: rest) = [runItem inner batch.itemName call item] := by
        rw [batchRuns, runItems, hstops]
        rfl
      rw [hruns, sweepItems_cons_of_stops hcount (hrun ▸ hstops), hrun, hwarned]

theorem sweepItems_empty (call : Call) (items : List Json) :
    sweepItems stepId batch maxErrors inner call .empty items =
      some (batchEnd stepId batch maxErrors (batchRuns batch inner call items)
        (call.context.warn ((batchRuns batch inner call items).flatMap ItemRun.warnings))) := by
  have hsweep := @sweepItems_eq_end stepId batch maxErrors inner call [] (List.forall_mem_nil _) items
  rw [List.flatMap_nil, Context.warn_nil] at hsweep
  exact hsweep

/-- After the items are resolved, the batch is the loop. -/
theorem sweepItems_eq_batchLayer {items : List Json} {warnings : List Warning}
    (h : resolveItems stepId batch call = .ok (items, warnings)) :
    sweepItems stepId batch maxErrors inner { call with context := call.context.setWarnings warnings } .empty items =
      some (batchLayer stepId batch maxErrors inner call) := by
  rw [batchLayer_eq_end h, sweepItems_empty]
  rfl

end

/-! ### Items on their own -/

def StepOutcome.result : StepOutcome → Json
  | .completed values _ => .obj values
  | _ => .null

/-- A batch has completed with results, of which so many are from items that went well and so many from items that
failed. -/
structure Collected (outcome? : Option StepOutcome) (results : List Json) (succeeded failed : Nat) : Prop where
  length : results.length = succeeded + failed
  told : ∃ values, outcome? = some (.completed values defaultAction) ∧
    Assoc.get? values "results" = some (.arr results) ∧ Assoc.get? values "count" = some (.nat results.length) ∧
    Assoc.get? values "success_count" = some (.nat succeeded) ∧ Assoc.get? values "error_count" = some (.nat failed)

namespace Pipeline

/-- What the step comes to without its batch, on a copy of the context and with an item bound under its name. -/
def alone (p : Pipeline) (unit : LeafUnit) (batch : Batch) (context : Context) (bindings : Fields) (mode : Mode)
    (item : Json) : StepOutcome :=
  ({ p with batch := none }.run unit context.scratch (Assoc.put batch.itemName item bindings) mode).1

def sweep (p : Pipeline) (unit : LeafUnit) (batch : Batch) (context : Context) (bindings : Fields) (mode : Mode)
    (items : List Json) : Option StepOutcome :=
  (sweepItems p.stepId batch p.site.limits.maxBatchErrors (p.attempt unit) ⟨context, [], bindings, mode⟩ .empty
    items).map Prod.fst

variable {p : Pipeline} {unit : LeafUnit} {batch : Batch} {context : Context} {bindings : Fields} {mode : Mode}

theorem sweep_eq (items : List Json) (left : Context) :
    p.sweep unit batch context bindings mode items =
      some (batchEnd p.stepId batch p.site.limits.maxBatchErrors
        (batchRuns batch (p.attempt unit) ⟨context, [], bindings, mode⟩ items) left).1 := by
  rw [sweep, sweepItems_empty, Option.map_some, batchEnd_outcome _ left]

/-- The step comes to what its loop comes to over the items that it has resolved. -/
theorem sweep_of_resolved (hb : p.batch = some batch) {items : List Json} {warnings : List Warning}
    (hi : resolveItems p.stepId batch ⟨context, [], bindings, mode⟩ = .ok (items, warnings)) :
    p.sweep unit batch context bindings mode items = some (p.run unit context bindings mode).1 := by
  rw [run, layer_outcome, body_batch unit hb, batchLayer_eq_end hi]
  exact sweep_eq items _

theorem collected_sweep (hpolicy : batch.onError = .carryOn) {items : List Json}
    (hno : ∀ item ∈ items, ∀ fault, p.alone unit batch context bindings mode item ≠ .aborted fault) :
    Collected (p.sweep unit batch context bindings mode items)
      (items.map fun item => (p.alone unit batch context bindings mode item).result)
      ((items.map fun item => (p.alone unit batch context bindings mode item).result).countP (· ≠ .null))
      ((items.map fun item => (p.alone unit batch context bindings mode item).result).count .null) := by
  obtain ⟨hruns, hgoes⟩ := @batchRuns_of_carryOn batch (p.attempt unit) ⟨context, [], bindings, mode⟩ items hpolicy hno
  have hsummary := @batchValues_summarizes
    (items.map (runItem (p.attempt unit) batch.itemName ⟨context, [], bindings, mode⟩))
    (List.forall_mem_map.mpr hno) p.site.limits.maxBatchErrors
  have hmap : (items.map (runItem (p.attempt unit) batch.itemName ⟨context, [], bindings, mode⟩)).map ItemRun.result =
      items.map fun item => (p.alone unit batch context bindings mode item).result := List.map_map
  generalize (items.map fun item => (p.alone unit batch context bindings mode item).result) = results at hmap ⊢
  have hlength : results.length = results.countP (· ≠ .null) + results.count .null := by
    rw [List.length_eq_countP_add_countP (· ≠ .null), List.count_eq_countP]
    congr 2
    funext w
    by_cases hw : w = .null <;> simp [hw]
  rw [hmap] at hsummary
  refine ⟨hlength, _, ?_, hsummary.listed, ?_, ?_, hsummary.error_count⟩
  · rw [sweep_eq items context, hruns, batchEnd_of_none_stops (List.forall_mem_map.mpr hgoes)]
  · rw [hsummary.count, hsummary.length]
  · obtain ⟨n, hn, hsum⟩ := hsummary.success_count
    rw [hn]
    rw [← hsummary.length, hlength] at hsum
    rw [Nat.add_right_cancel hsum]

end Pipeline

/-- What a batch comes to over items, told by what each of them comes to alone. -/
structure ItemsApart (sweep : List Json → Option StepOutcome) (alone : Json → StepOutcome) : Prop where
  own : ∀ items, (∀ item ∈ items, ∀ fault, alone item ≠ .aborted fault) →
    ∃ results succeeded failed, Collected (sweep items) results succeeded failed ∧
      ∀ i : Nat, results[i]? = items[i]?.map fun item => (alone item).result
  appended : ∀ xs ys, (∀ item ∈ xs ++ ys, ∀ fault, alone item ≠ .aborted fault) →
    ∃ results succeeded failed results' succeeded' failed',
      Collected (sweep xs) results succeeded failed ∧ Collected (sweep ys) results' succeeded' failed' ∧
        Collected (sweep (xs ++ ys)) (results ++ results') (succeeded + succeeded') (failed + failed')
  /-- In whatever order the items stand, their results go with them. -/
  permuted : ∀ xs ys, xs.Perm ys → (∀ item ∈ xs, ∀ fault, alone item ≠ .aborted fault) →
    ∃ results results' succeeded failed,
      Collected (sweep xs) results succeeded failed ∧ Collected (sweep ys) results' succeeded failed ∧
        ∀ i j : Nat, ys[j]? = xs[i]? → results'[j]? = results[i]?

/-- Counts that are read off results that belong to the items add up, and do not depend on an order. -/
theorem itemsApart_of_collected {sweep : List Json → Option StepOutcome} {alone : Json → StepOutcome}
    (h : ∀ items, (∀ item ∈ items, ∀ fault, alone item ≠ .aborted fault) →
      Collected (sweep items) (items.map fun item => (alone item).result)
        ((items.map fun item => (alone item).result).countP (· ≠ .null))
        ((items.map fun item => (alone item).result).count .null)) : ItemsApart sweep alone where
  own items hno := ⟨_, _, _, h items hno, fun _ => List.getElem?_map⟩
  appended xs ys hno := by
    have hxs := h xs fun item hitem => hno item (List.mem_append_left ys hitem)
    have hys := h ys fun item hitem => hno item (List.mem_append_right xs hitem)
    have hboth := h (xs ++ ys) hno
    rw [List.map_append, List.countP_append, List.count_append] at hboth
    exact ⟨_, _, _, _, _, _, hxs, hys, hboth⟩
  permuted xs ys hperm hno := by
    have hresults := hperm.map fun item => (alone item).result
    have hys := h ys fun item hitem => hno item (hperm.mem_iff.mpr hitem)
    rw [← hresults.countP_eq, ← hresults.count_eq] at hys
    refine ⟨_, _, _, _, h xs hno, hys, fun i j hij => ?_⟩
    rw [List.getElem?_map, List.getElem?_map, hij]

/-- Items of a batch that carries on do not see each other. What is listed for an item is what the step makes of it alone,
on a copy of the context from before the batch; so the results and the counts of two lists of items add up, and results
move with their items. The unit may hand over the data of a child, and the name that items are bound under may be any. -/
theorem Pipeline.items_stay_apart (p : Pipeline) (unit : LeafUnit) {batch : Batch} (hb : p.batch = some batch)
    (hpolicy : batch.onError = .carryOn) (context : Context) (bindings : Fields) (mode : Mode) :
    (∀ items warnings, resolveItems p.stepId batch ⟨context, [], bindings, mode⟩ = .ok (items, warnings) →
      sweepItems p.stepId batch p.site.limits.maxBatchErrors (p.attempt unit)
          ⟨context.setWarnings warnings, [], bindings, mode⟩ .empty items =
        some (p.body unit ⟨context, [], bindings, mode⟩) ∧
      p.sweep unit batch context bindings mode items = some (p.run unit context bindings mode).1) ∧
    ItemsApart (p.sweep unit batch context bindings mode) (p.alone unit batch context bindings mode) := by
  refine ⟨fun items warnings hi => ⟨?_, sweep_of_resolved hb hi⟩,
    itemsApart_of_collected fun _ => collected_sweep hpolicy⟩
  rw [body_batch unit hb]
  exact sweepItems_eq_batchLayer hi

/-- Says what it was given and what it has seen before, and leaves word of what it was given. -/
def keepingDocument : Document where
  version := "1"
  name := none
  start := none
  steps := [⟨"keep", "echo", none, [("before", .str "$\x7bseen\x7d"), ("seen", .str "$\x7btopic\x7d")], none⟩]
  edges := []
  inputs := []
  outputs := []
  mode := .strict

/-- Runs such a document for every topic, on the data of the caller. The topic is bound under a name of that data. -/
def sharingPipeline : Pipeline where
  site := ⟨"relay", .standard, none⟩
  implementation := .subworkflow
  literals :=
    [("workflow_ir", keepingDocument.toJson), ("storage_mode", .str "shared"),
      ("output_mapping", .obj [("keep.before", .str "before"), ("keep.seen", .str "seen")])]
  templated := [("param_mapping", .obj [("topic", .str "$\x7bseen\x7d")])]
  declared := []
  batch := some ⟨"$\x7btopics\x7d", "seen", .carryOn⟩

/-- Each child finds what the caller has seen, not what the child before it has left, although it hands its data over. -/
theorem items_stay_apart_sharing :
    ∃ unit : LeafUnit, ∃ context : Context, ∃ batch : Batch, unit.RunsWorkflow ∧ sharingPipeline.batch = some batch ∧
      batch.onError = .carryOn ∧ Assoc.get? context.data batch.itemName = some (.nat 0) ∧
      ItemsApart (sharingPipeline.sweep unit batch context [] .strict)
        (sharingPipeline.alone unit batch context [] .strict) ∧
      ∃ succeeded failed, Collected (some (sharingPipeline.run unit context [] .strict).1)
        [.obj [("before", .nat 0), ("seen", .nat 1)], .obj [("before", .nat 0), ("seen", .nat 2)]] succeeded failed := by
  let unit := (Host.mk .builtin .empty).units 4 .subworkflow sharingPipeline.site
  let items : List Json := [.nat 1, .nat 2]
  let context : Context := .start [("seen", .nat 0), ("topics", .arr items)] .empty
  let batch : Batch := ⟨"$\x7btopics\x7d", "seen", .carryOn⟩
  let alone := sharingPipeline.alone unit batch context [] .strict
  have hi : resolveItems sharingPipeline.stepId batch ⟨context, [], [], .strict⟩ = .ok (items, []) := by decide +kernel
  have hno : ∀ item ∈ items, ∀ fault, alone item ≠ .aborted fault := by
    have hdone : (items.all fun item => (alone item).result != .null) = true := by decide +kernel
    intro item hitem fault haborted
    have hresult := List.all_eq_true.mp hdone item hitem
    rw [haborted] at hresult
    cases hresult
  have hvalues : (items.map fun item => (alone item).result) =
      [.obj [("before", .nat 0), ("seen", .nat 1)], .obj [("before", .nat 0), ("seen", .nat 2)]] := by decide +kernel
  obtain ⟨hlooped, hapart⟩ := sharingPipeline.items_stay_apart unit rfl rfl context [] .strict
  obtain ⟨results, succeeded, failed, hcollected, hresults⟩ := hapart.own items hno
  have hmap : results = items.map fun item => (alone item).result :=
    List.ext_getElem? fun i => (hresults i).trans List.getElem?_map.symm
  rw [(hlooped items [] hi).2, hmap, hvalues] at hcollected
  exact ⟨unit, context, batch, ⟨_, _, _, rfl⟩, rfl, rfl, rfl, hapart, succeeded, failed, hcollected⟩

end Workflow
