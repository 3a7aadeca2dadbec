import Workflow.Proofs.Success

/-! What a batch that carries on says of its items. Counting item by item, with only so many failures described, comes to
the summary that is handed out, and no count ever falls short of what is taken off it. -/

namespace Workflow

/-! ### Item by item -/

/-- What has been counted so far: the results, the failures that are described, and how many there were. -/
structure Tally where
  results : List Json
  errors : List Json
  failed : Nat

namespace Tally

def empty : Tally := ⟨[], [], 0⟩

/-- Counts one more item. A failure is described only while there is room for it. -/
def add (maxErrors : Nat) (t : Tally) (r : ItemRun) : Tally :=
  match r.failure? with
  | none => { t with results := t.results ++ [r.result] }
  | some failure =>
    { results := t.results ++ [.null]
      errors :=
        if t.errors.length < maxErrors then
          t.errors ++
            [.obj [("index", .nat t.results.length), ("item", r.item), ("error", .str failure.message)]]
        else t.errors
      failed := t.failed + 1 }

def ofRuns (maxErrors : Nat) (runs : List ItemRun) : Tally := runs.foldl (add maxErrors) empty

def minus? (a b : Nat) : Option Nat := if b ≤ a then some (a - b) else none

/-- The summary, unless a difference in it falls below zero. -/
def values? (t : Tally) : Option Fields := do
  let truncated ← minus? t.failed t.errors.length
  let succeeded ← minus? t.results.length t.failed
  some ([("results", .arr t.results), ("count", .nat t.results.length), ("success_count", .nat succeeded),
      ("error_count", .nat t.failed), ("errors", .arr t.errors)] ++
    if 0 < truncated then [("errors_truncated", .nat truncated)] else [])

end Tally

theorem ItemRun.failure?_eq_some_iff {r : ItemRun} {failure : StepFailure} :
    r.failure? = some failure ↔ r.outcome = .failed failure := by
  unfold failure?
  cases r.outcome <;> simp

theorem ItemRun.result_of_failed {r : ItemRun} {failure : StepFailure} (h : r.outcome = .failed failure) :
    r.result = .null := by
  unfold result
  rw [h]

def failing (runs : List ItemRun) : List (Nat × Json × StepFailure) :=
  runs.zipIdx.filterMap fun (r, index) => r.failure?.map fun failure => (index, r.item, failure)

theorem failedItems_eq (runs : List ItemRun) :
    failedItems runs = (failing runs).map fun (index, item, failure) => describeFailure index item failure := by
  rw [failedItems, failing, List.map_filterMap]
  refine List.filterMap_congr fun e _ => ?_
  rw [Option.map_map]
  rfl

theorem length_failedItems (runs : List ItemRun) : (failedItems runs).length = (failing runs).length := by
  rw [failedItems_eq, List.length_map]

theorem length_failing_le (runs : List ItemRun) : (failing runs).length ≤ runs.length :=
  (List.length_filterMap_le _ _).trans_eq List.length_zipIdx

theorem failing_concat (runs : List ItemRun) (r : ItemRun) :
    failing (runs ++ [r]) =
      failing runs ++ (r.failure?.map fun failure => (runs.length, r.item, failure)).toList := by
  rw [failing, List.zipIdx_append, List.filterMap_append, failing]
  cases hr : r.failure? with
  | none => simp [hr]
  | some failure => simp [hr]

theorem failedItems_concat (runs : List ItemRun) (r : ItemRun) :
    failedItems (runs ++ [r]) = failedItems runs ++ (r.failure?.map (describeFailure runs.length r.item)).toList := by
  rw [failedItems_eq, failing_concat, List.map_append, ← failedItems_eq]
  cases r.failure? <;> rfl

theorem mem_failing {runs : List ItemRun} {index : Nat} {item : Json} {failure : StepFailure} :
    (index, item, failure) ∈ failing runs ↔
      ∃ r, runs[index]? = some r ∧ r.item = item ∧ r.outcome = .failed failure := by
  rw [failing, List.mem_filterMap]
  constructor
  · rintro ⟨⟨r, i⟩, hr, heq⟩
    obtain ⟨f, hf, heq⟩ := Option.map_eq_some_iff.mp heq
    cases heq
    exact ⟨r, List.mk_mem_zipIdx_iff_getElem?.mp hr, rfl, ItemRun.failure?_eq_some_iff.mp hf⟩
  · rintro ⟨r, hr, rfl, hfailed⟩
    refine ⟨(r, index), List.mk_mem_zipIdx_iff_getElem?.mpr hr, ?_⟩
    exact Option.map_eq_some_iff.mpr ⟨failure, ItemRun.failure?_eq_some_iff.mpr hfailed, rfl⟩

theorem failing_rise (runs : List ItemRun) : (failing runs).Pairwise fun a b => a.1 < b.1 := by
  have hindices : runs.zipIdx.Pairwise fun a b => a.2 < b.2 := by
    rw [← List.pairwise_map, List.zipIdx_map_snd]
    exact List.pairwise_lt_range'
  refine hindices.filterMap _ ?_
  rintro ⟨r, i⟩ ⟨r', i'⟩ hlt _ ha _ hb
  obtain ⟨_, _, rfl⟩ := Option.map_eq_some_iff.mp ha
  obtain ⟨_, _, rfl⟩ := Option.map_eq_some_iff.mp hb
  exact hlt

namespace Tally

theorem take_concat {α : Type} (m : Nat) (xs : List α) (x : α) :
    (xs ++ [x]).take m = if xs.length < m then xs.take m ++ [x] else xs.take m := by
  split
  · rename_i hroom
    have hlength : (xs ++ [x]).length ≤ m := by
      rw [List.length_append, List.length_singleton]
      exact hroom
    rw [List.take_of_length_le hlength, List.take_of_length_le hroom.le]
  · rename_i hfull
    exact List.take_append_of_le_length (Nat.le_of_not_lt hfull)

/-- One more item: all that has been counted stays in step with the items that were run. -/
theorem add_ofRuns {maxErrors : Nat} {runs : List ItemRun} {t : Tally}
    (h : t = ⟨runs.map ItemRun.result, (failedItems runs).take maxErrors, (failedItems runs).length⟩) (r : ItemRun) :
    t.add maxErrors r = ⟨(runs ++ [r]).map ItemRun.result, (failedItems (runs ++ [r])).take maxErrors,
      (failedItems (runs ++ [r])).length⟩ := by
  subst h
  rw [failedItems_concat, List.map_append]
  cases hr : r.failure? with
  | none => simp [add, hr]
  | some failure =>
    have hnull : r.result = .null := ItemRun.result_of_failed (ItemRun.failure?_eq_some_iff.mp hr)
    have hroom : ((failedItems runs).take maxErrors).length < maxErrors ↔ (failedItems runs).length < maxErrors := by
      rw [List.length_take, min_lt_iff]
      simp
    rw [Option.map_some, Option.toList_some, take_concat]
    simp only [add, hr, hnull, hroom, describeFailure_eq, List.length_map, List.map_cons, List.map_nil,
      List.length_append, List.length_singleton]

theorem ofRuns_eq (maxErrors : Nat) (runs : List ItemRun) :
    ofRuns maxErrors runs =
      ⟨runs.map ItemRun.result, (failedItems runs).take maxErrors, (failedItems runs).length⟩ := by
  induction runs using List.reverseRecOn with
  | nil => simp [ofRuns, empty, failedItems]
  | append_singleton runs r ih =>
    rw [ofRuns, List.foldl_concat]
    exact add_ofRuns ih r

theorem minus?_of_le {a b : Nat} (h : b ≤ a) : minus? a b = some (a - b) := if_pos h

/-- No more failures are described than there were, and no more items failed than there are. -/
theorem ofRuns_values? (maxErrors : Nat) (runs : List ItemRun) :
    (ofRuns maxErrors runs).values? = some (batchValues runs maxErrors) := by
  have hdescribed : ((failedItems runs).take maxErrors).length ≤ (failedItems runs).length :=
    List.length_take_le' _ _
  have hfailed : (failedItems runs).length ≤ (runs.map ItemRun.result).length := by
    rw [length_failedItems, List.length_map]
    exact length_failing_le runs
  have htruncated : (failedItems runs).length - ((failedItems runs).take maxErrors).length =
      (failedItems runs).length - maxErrors := by
    rw [List.length_take]
    omega
  rw [ofRuns_eq, values?, minus?_of_le hdescribed, minus?_of_le hfailed, htruncated, List.length_map]
  rfl

end Tally

/-! ### The summary -/

/-- What the output of a batch tells of the items it ran. -/
structure Summarizes (runs : List ItemRun) (maxErrors : Nat) (values : Fields) (results : List Json) : Prop where
  listed : Assoc.get? values "results" = some (.arr results)
  length : results.length = runs.length
  failed : ∀ (i : Nat) (r : ItemRun), runs[i]? = some r →
    (results[i]? = some .null ↔ ∃ failure, r.outcome = .failed failure)
  completed : ∀ (i : Nat) (r : ItemRun), runs[i]? = some r →
    ∀ output action, r.outcome = .completed output action → results[i]? = some (.obj output)
  count : Assoc.get? values "count" = some (.nat runs.length)
  error_count : Assoc.get? values "error_count" = some (.nat (results.count .null))
  success_count : ∃ n, Assoc.get? values "success_count" = some (.nat n) ∧ n + results.count .null = runs.length
  /-- The first failures are described, in order of their items, as many as there is room for. -/
  errors : ∃ failures : List (Nat × Json × StepFailure),
    failures.Pairwise (fun a b => a.1 < b.1) ∧
    (∀ i item failure, (i, item, failure) ∈ failures ↔
      ∃ r, runs[i]? = some r ∧ r.item = item ∧ r.outcome = .failed failure) ∧
    failures.length = results.count .null ∧
    Assoc.get? values "errors" = some (.arr ((failures.take maxErrors).map fun (index, item, failure) =>
      .obj [("index", .nat index), ("item", item), ("error", .str failure.message)]))
  truncated : Assoc.get? values "errors_truncated" =
    if maxErrors < results.count .null then some (.nat (results.count .null - maxErrors)) else none

/-- Unless an item aborts, there is one null for each failure. -/
theorem count_null {runs : List ItemRun} (h : ∀ r ∈ runs, ∀ fault, r.outcome ≠ .aborted fault) :
    (runs.map ItemRun.result).count .null = (failing runs).length := by
  induction runs using List.reverseRecOn with
  | nil => rfl
  | append_singleton runs r ih =>
    have hrest := ih fun q hq => h q (List.mem_append_left _ hq)
    have hlast := h r (by simp)
    rw [List.map_append, List.count_append, hrest, failing_concat, List.length_append]
    unfold ItemRun.failure?
    cases hr : r.outcome with
    | completed output action => simp [ItemRun.result, hr]
    | failed failure => simp [ItemRun.result, hr]
    | aborted fault => exact absurd hr (hlast fault)

theorem batchValues_summarizes {runs : List ItemRun} (h : ∀ r ∈ runs, ∀ fault, r.outcome ≠ .aborted fault)
    (maxErrors : Nat) : Summarizes runs maxErrors (batchValues runs maxErrors) (runs.map ItemRun.result) := by
  have hnulls := count_null h
  have hlength := length_failedItems runs
  refine ⟨rfl, List.length_map _, fun i r hr => ?_, fun i r hr output action houtcome => ?_, rfl, ?_, ?_, ?_, ?_⟩
  · rw [List.getElem?_map, hr, Option.map_some, Option.some.injEq, ItemRun.result]
    cases houtcome : r.outcome with
    | completed output action => simp
    | failed failure => simp
    | aborted fault => exact absurd houtcome (h r (List.mem_of_getElem? hr) fault)
  · rw [List.getElem?_map, hr, Option.map_some, ItemRun.result, houtcome]
  · rw [hnulls, ← hlength]
    rfl
  · refine ⟨runs.length - (failing runs).length, ?_, ?_⟩
    · rw [← hlength]
      rfl
    · rw [hnulls]
      exact Nat.sub_add_cancel (length_failing_le runs)
  · refine ⟨failing runs, failing_rise runs, fun i item failure => mem_failing, hnulls.symm, ?_⟩
    simp only [← describeFailure_eq]
    rw [List.map_take, ← failedItems_eq]
    rfl
  · rw [hnulls, ← hlength, batchValues]
    by_cases hover : maxErrors < (failedItems runs).length
    · have hpos : 0 < (failedItems runs).length - maxErrors := Nat.sub_pos_of_lt hover
      rw [if_pos hover]
      simp only [if_pos hpos]
      rfl
    · have hnone : ¬ 0 < (failedItems runs).length - maxErrors := by omega
      rw [if_neg hover]
      simp only [if_neg hnone]
      rfl

/-! ### The batch -/

theorem Context.commit_journal (c : Context) (stepId : String) (values : Fields) :
    (c.commit stepId values).journal = c.journal := by
  have hcopy (d : Context) : (d.copy stepId values).journal = d.journal := by
    induction values generalizing d with
    | nil => rfl
    | cons e rest ih =>
      rw [copy_cons, ih]
      split
      · rfl
      · exact insert_journal d e.1 e.2
  rw [commit, hcopy, insert_journal]

section
variable {stepId : String} {batch : Batch} {maxErrors : Nat} {inner : Layer} {call : Call} {items : List Json}
  {warnings : List Warning}

/-- A batch that carries on comes to all of its items, unless one aborts. -/
theorem batchRuns_of_carryOn (hpolicy : batch.onError = .carryOn)
    (hno : ∀ item ∈ items, ∀ fault, (runItem inner batch.itemName call item).outcome ≠ .aborted fault) :
    batchRuns batch inner call items = items.map (runItem inner batch.itemName call) ∧
      ∀ item ∈ items, (runItem inner batch.itemName call item).stops batch.onError = false := by
  have hgoes : ∀ item ∈ items, (runItem inner batch.itemName call item).stops batch.onError = false := by
    intro item hitem
    rw [ItemRun.stops]
    cases houtcome : (runItem inner batch.itemName call item).outcome with
    | completed output action => rfl
    | failed failure => simp [StepOutcome.stops, hpolicy]
    | aborted fault => exact absurd houtcome (hno item hitem fault)
  exact ⟨runItems_of_goes hgoes, hgoes⟩

/-- The warnings of the items come first, and then the one of the batch itself. -/
theorem batchLayer_warnings (hi : resolveItems stepId batch call = .ok (items, warnings))
    (hall : ∀ r ∈ batchRuns batch inner call items, r.stops batch.onError = false) :
    (batchLayer stepId batch maxErrors inner call).2.journal.warnings =
      warnings ++ (batchRuns batch inner call items).flatMap ItemRun.warnings ++
        if 0 < (failedItems (batchRuns batch inner call items)).length then
          [batchWarning stepId (failedItems (batchRuns batch inner call items)).length
            (batchRuns batch inner call items).length]
        else [] := by
  have hlast := stopping_eq_none hall
  unfold batchLayer
  unfold batchRuns at hlast ⊢
  simp only [hi, hlast, Context.commit_journal]
  split
  · rfl
  · exact (List.append_nil _).symm

end

/-- A batch that carries on completes, unless an item aborts, with a summary of all its items. Counting them one by one
comes to the same summary, without a count that falls short. Its own warning, which says how many failed, comes after
those of its items, and just if an item failed. -/
theorem Pipeline.batch_is_summarized (p : Pipeline) (unit : LeafUnit) {batch : Batch} (hb : p.batch = some batch)
    (hpolicy : batch.onError = .carryOn) (context : Context) (bindings : Fields) (mode : Mode) {items : List Json}
    {warnings : List Warning}
    (hi : resolveItems p.stepId batch ⟨context, [], bindings, mode⟩ = .ok (items, warnings)) {runs : List ItemRun}
    (hruns : runs = items.map (runItem (p.attempt unit) batch.itemName ⟨context, [], bindings, mode⟩))
    (hno : ∀ r ∈ runs, ∀ fault, r.outcome ≠ .aborted fault) :
    ∃ values results, (p.run unit context bindings mode).1 = .completed values defaultAction ∧
      Summarizes runs p.site.limits.maxBatchErrors values results ∧
      (Tally.ofRuns p.site.limits.maxBatchErrors runs).values? = some values ∧
      let failed := results.count .null
      let count := items.length
      (p.run unit context bindings mode).2.journal.warnings =
        warnings ++ runs.flatMap ItemRun.warnings ++
          if 0 < failed then [⟨p.stepId, s!"Batch: {failed} of {count} items failed", .batch, none, none⟩]
          else [] := by
  subst hruns
  have hitems : ∀ item ∈ items, ∀ fault,
      (runItem (p.attempt unit) batch.itemName ⟨context, [], bindings, mode⟩ item).outcome ≠ .aborted fault :=
    fun item hitem => hno _ (List.mem_map_of_mem hitem)
  obtain ⟨hall, hgoes⟩ := batchRuns_of_carryOn hpolicy hitems
  have hstops : ∀ r ∈ batchRuns batch (p.attempt unit) ⟨context, [], bindings, mode⟩ items,
      r.stops batch.onError = false := by
    rw [hall]
    exact List.forall_mem_map.mpr hgoes
  obtain ⟨journal, hjournal, hlayer⟩ := p.layer_eq unit ⟨context, [], bindings, mode⟩
  have hnulls := count_null hno
  rw [run, hlayer]
  refine ⟨_, _, ?_, batchValues_summarizes hno _, Tally.ofRuns_values? _ _, ?_⟩
  · rw [body_batch unit hb, batchLayer_completed hi hstops, hall]
  · simp only [← batchWarning_eq]
    rw [hjournal, body_batch unit hb, batchLayer_warnings hi hstops, hall, hnulls, List.length_map,
      length_failedItems]

def waitingPipeline : Pipeline where
  site := ⟨"wait", { Limits.standard with maxBatchErrors := 2 }, none⟩
  implementation := .leaf fun site => .delay site.limits.timeout
  literals := []
  templated := [("ms", .str "$\x7bitem\x7d")]
  declared := []
  batch := some ⟨"$\x7btimes\x7d", "item", .carryOn⟩

theorem batch_is_summarized_waiting :
    ∃ unit context runs values results,
      (waitingPipeline.run unit context [] .strict).1 = .completed values defaultAction ∧
        Summarizes runs 2 values results ∧ runs.map ItemRun.item = [.int 1, .str "soon", .int 2, .str "late", .null] ∧
        results.count .null = 3 ∧ Assoc.get? values "errors_truncated" = some (.nat 1) ∧
        Assoc.get? values "errors" = some (.arr
          [.obj [("index", .nat 1), ("item", .str "soon"),
              ("error", .str "invalid parameters: 'ms' must be an int, got \"soon\"")],
            .obj [("index", .nat 3), ("item", .str "late"),
              ("error", .str "invalid parameters: 'ms' must be an int, got \"late\"")]]) ∧
        (waitingPipeline.run unit context [] .strict).2.journal.warnings =
          [⟨"wait", "Batch: 3 of 5 items failed", .batch, none, none⟩] := by
  let unit : LeafUnit := .delay 100
  let items : List Json := [.int 1, .str "soon", .int 2, .str "late", .null]
  let context : Context := .start [("times", .arr items)] .empty
  let runs := items.map (runItem (waitingPipeline.attempt unit) "item" ⟨context, [], [], .strict⟩)
  have hi : resolveItems waitingPipeline.stepId ⟨"$\x7btimes\x7d", "item", .carryOn⟩ ⟨context, [], [], .strict⟩ =
      .ok (items, []) := by decide +kernel
  have hno : ∀ r ∈ runs, ∀ fault, r.outcome ≠ .aborted fault := by
    have hgoes : (runs.all fun r => r.failure?.isSome || r.result != .null) = true := by decide +kernel
    intro r hr fault haborted
    have hr := List.all_eq_true.mp hgoes r hr
    simp [ItemRun.failure?, ItemRun.result, haborted] at hr
  have hquiet : runs.flatMap ItemRun.warnings = [] := by decide +kernel
  obtain ⟨values, results, hdone, hsummary, _, hwarnings⟩ :=
    waitingPipeline.batch_is_summarized unit rfl rfl context [] .strict hi rfl hno
  have hread (key : String) : Assoc.get? values key =
      (ItemRun.mk .null (waitingPipeline.run unit context [] .strict).1 []).result.get? key := by
    rw [hdone]
    rfl
  have hcount : Assoc.get? values "error_count" = some (.nat 3) := (hread _).trans (by decide +kernel)
  have hnulls : results.count .null = 3 :=
    Int.ofNat.inj (Json.int.inj (Option.some.inj (hsummary.error_count.symm.trans hcount)))
  have htruncated : Assoc.get? values "errors_truncated" = some (.nat 1) := (hread _).trans (by decide +kernel)
  refine ⟨unit, context, runs, values, results, hdone, hsummary, rfl, hnulls, htruncated, (hread _).trans ?_, ?_⟩
  · decide +kernel
  · rw [hwarnings, hquiet, hnulls]
    decide +kernel

end Workflow
