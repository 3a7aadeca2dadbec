import Workflow.Proofs.Sweeping

/-! The two ways of taking a failed item, run against run. Where no item fails there is nothing to tell them apart. Where
one does, the batch that fails fast ends with the first item for which the other lists null, as null is never the output
of an item that went well. -/

namespace Workflow

/-! ### Items that fail -/

theorem StepOutcome.result_ne_null {outcome : StepOutcome} (h : outcome.stops .failFast = false) :
    outcome.result ≠ .null := by
  cases outcome with
  | completed values action => simp [result]
  | failed failure => cases h
  | aborted fault => cases h

/-- Whoever fails fast goes on only over what everybody goes on over. -/
theorem StepOutcome.stops_of_failFast {outcome : StepOutcome} (h : outcome.stops .failFast = false)
    (policy : BatchPolicy) : outcome.stops policy = false := by
  cases outcome with
  | completed values action => rfl
  | failed failure => cases h
  | aborted fault => cases h

theorem StepOutcome.failed_of_stops {outcome : StepOutcome} (h : ∀ fault, outcome ≠ .aborted fault)
    (hstops : outcome.stops .failFast = true) : ∃ failure, outcome = .failed failure := by
  cases outcome with
  | completed values action => cases hstops
  | failed failure => exact ⟨failure, rfl⟩
  | aborted fault => exact absurd rfl (h fault)

namespace Pipeline

def under (p : Pipeline) (batch : Batch) (policy : BatchPolicy) : Pipeline :=
  { p with batch := some { batch with onError := policy } }

variable {p : Pipeline} {unit : LeafUnit} {batch : Batch} {context : Context} {bindings : Fields} {mode : Mode}
  {items : List Json} {warnings : List Warning}

theorem run_congr {p' : Pipeline} {unit' : LeafUnit} (hid : p'.stepId = p.stepId)
    (h : p'.body unit' ⟨context, [], bindings, mode⟩ = p.body unit ⟨context, [], bindings, mode⟩) :
    p'.run unit' context bindings mode = p.run unit context bindings mode := by
  unfold run layer instrumentedLayer
  rw [h, hid]

theorem body_under (policy : BatchPolicy)
    (hi : resolveItems p.stepId batch ⟨context, [], bindings, mode⟩ = .ok (items, warnings)) :
    (p.under batch policy).body unit ⟨context, [], bindings, mode⟩ =
      batchEnd p.stepId { batch with onError := policy } p.site.limits.maxBatchErrors
        (runItems (runItem (p.attempt unit) batch.itemName ⟨context, [], bindings, mode⟩) policy items)
        ((context.setWarnings warnings).warn
          ((runItems (runItem (p.attempt unit) batch.itemName ⟨context, [], bindings, mode⟩) policy items).flatMap
            ItemRun.warnings)) := by
  have hi' : resolveItems p.stepId { batch with onError := policy } ⟨context, [], bindings, mode⟩ =
    .ok (items, warnings) := hi
  exact batchLayer_eq_end hi' _ _

/-- What the batch that carries on tells. -/
theorem run_under_carryOn (hi : resolveItems p.stepId batch ⟨context, [], bindings, mode⟩ = .ok (items, warnings))
    (hno : ∀ item ∈ items, ∀ fault, p.alone unit batch context bindings mode item ≠ .aborted fault)
    {results : List Json}
    (hresults : results = items.map fun item => (p.alone unit batch context bindings mode item).result) :
    ∃ values, ((p.under batch .carryOn).run unit context bindings mode).1 = .completed values defaultAction ∧
      Assoc.get? values "results" = some (.arr results) ∧
      (Assoc.get? values "error_count" = some (.nat 0) ↔ .null ∉ results) := by
  subst hresults
  have hsweep := @sweep_of_resolved (p.under batch .carryOn) unit { batch with onError := .carryOn } context bindings
    mode rfl items warnings hi
  have hcollected := @collected_sweep (p.under batch .carryOn) unit { batch with onError := .carryOn } context bindings
    mode rfl items hno
  rw [hsweep] at hcollected
  obtain ⟨values, hdone, hresults, _, _, herrors⟩ := hcollected.told
  refine ⟨values, Option.some.inj hdone, hresults, ?_⟩
  rw [herrors, Option.some_inj, Json.nat, Json.nat, Json.int.injEq, Int.natCast_inj, List.count_eq_zero]
  rfl

/-- Where no item fails, both batches are the same. -/
theorem run_under_congr (hi : resolveItems p.stepId batch ⟨context, [], bindings, mode⟩ = .ok (items, warnings))
    (hgoes : ∀ item ∈ items, ∀ policy, (p.alone unit batch context bindings mode item).stops policy = false) :
    (p.under batch .failFast).run unit context bindings mode =
      (p.under batch .carryOn).run unit context bindings mode := by
  refine run_congr rfl ?_
  have hall (policy : BatchPolicy) :
      runItems (runItem (p.attempt unit) batch.itemName ⟨context, [], bindings, mode⟩) policy items =
        items.map (runItem (p.attempt unit) batch.itemName ⟨context, [], bindings, mode⟩) :=
    runItems_of_goes fun item hitem => hgoes item hitem policy
  have hend (policy : BatchPolicy) := @batchEnd_of_none_stops p.stepId { batch with onError := policy }
    p.site.limits.maxBatchErrors (items.map (runItem (p.attempt unit) batch.itemName ⟨context, [], bindings, mode⟩))
    (List.forall_mem_map.mpr fun item hitem => hgoes item hitem policy)
  rw [body_under _ hi, body_under _ hi, hall, hall, hend, hend]

/-- How a batch that fails fast ends, where the one that carries on lists null first. -/
structure EndsAt (p : Pipeline) (unit : LeafUnit) (batch : Batch) (context : Context) (bindings : Fields) (mode : Mode)
    (items results : List Json) (i : Nat) : Prop where
  null : results[i]? = some .null
  least : ∀ j < i, results[j]? ≠ some .null
  failed : ∃ item failure, items[i]? = some item ∧
    p.alone unit batch context bindings mode item = .failed failure ∧
    ((p.under batch .failFast).run unit context bindings mode).1 = .failed {
      stepId := p.stepId
      message := s!"Batch item {i} failed: " ++ failure.message
      category := .batch
      details := some (.obj [("index", .nat i), ("item", item)]) }
  attempted : (p.under batch .failFast).attempts unit ⟨context, [], bindings, mode⟩ =
    (items.take (i + 1)).map (itemCall batch.itemName ⟨context, [], bindings, mode⟩)
  /-- What the step would make of later items has no part in it. -/
  later : ∀ unit' : LeafUnit,
    (∀ item ∈ items.take (i + 1), p.core unit' (itemCall batch.itemName ⟨context, [], bindings, mode⟩ item) =
      p.core unit (itemCall batch.itemName ⟨context, [], bindings, mode⟩ item)) →
    (p.under batch .failFast).run unit' context bindings mode = (p.under batch .failFast).run unit context bindings mode

theorem endsAt_of_failed {done rest : List Json} {item : Json} {failure : StepFailure}
    (hi : resolveItems p.stepId batch ⟨context, [], bindings, mode⟩ = .ok (done ++ item :: rest, warnings))
    (hruns : runItems (runItem (p.attempt unit) batch.itemName ⟨context, [], bindings, mode⟩) .failFast
      (done ++ item :: rest) =
        done.map (runItem (p.attempt unit) batch.itemName ⟨context, [], bindings, mode⟩) ++
          [runItem (p.attempt unit) batch.itemName ⟨context, [], bindings, mode⟩ item])
    (hdone : ∀ x ∈ done, (p.alone unit batch context bindings mode x).stops .failFast = false)
    (hfailed : p.alone unit batch context bindings mode item = .failed failure) :
    p.EndsAt unit batch context bindings mode (done ++ item :: rest)
      ((done ++ item :: rest).map fun item => (p.alone unit batch context bindings mode item).result) done.length := by
  have htake : (done ++ item :: rest).take (done.length + 1) = done ++ [item] := by
    rw [List.take_length_add_append, List.take_succ_cons, List.take_zero]
  have hattempts : (p.under batch .failFast).attempts unit ⟨context, [], bindings, mode⟩ =
      ((done ++ item :: rest).take (done.length + 1)).map
        (itemCall batch.itemName ⟨context, [], bindings, mode⟩) := by
    rw [htake, @attempts_batch (p.under batch .failFast) unit _ { batch with onError := .failFast } _ _ rfl hi]
    refine (congrArg _ hruns).trans ?_
    rw [List.map_append, List.map_append, List.map_map]
    rfl
  refine ⟨?_, fun j hj hnull => ?_, ⟨item, failure, ?_, hfailed, ?_⟩, hattempts, fun unit' hunit => ?_⟩
  · simp [hfailed, StepOutcome.result]
  · rw [List.getElem?_map, List.getElem?_append_left hj, List.getElem?_eq_getElem hj, Option.map_some,
      Option.some_inj] at hnull
    exact StepOutcome.result_ne_null (hdone _ (List.getElem_mem hj)) hnull
  · simp
  · have hend (left : Context) := @batchEnd_of_failed p.stepId { batch with onError := .failFast }
      p.site.limits.maxBatchErrors (done.map (runItem (p.attempt unit) batch.itemName ⟨context, [], bindings, mode⟩))
      (runItem (p.attempt unit) batch.itemName ⟨context, [], bindings, mode⟩ item) failure hfailed rfl left
    rw [run, layer_outcome, body_under .failFast hi, hruns, hend, List.length_map]
    rfl
  · -- a unit has a part in a run by the calls that are attempted, and those end with the item that fails
    refine run_congr rfl (attempts_congr fun a _ ha => ?_).2
    rw [hattempts] at ha
    obtain ⟨x, hx, rfl⟩ := List.mem_map.mp ha
    exact hunit x hx

/-- The two ways of taking failed items agree, unless an item aborts. A batch that fails fast completes just if one that
carries on counts no failure, and then there is nothing to tell them apart; otherwise it ends with the first item for
which the other lists null, tells of its failure, and runs no item behind it. -/
theorem policies_agree (p : Pipeline) (unit : LeafUnit) (batch : Batch) (context : Context) (bindings : Fields)
    (mode : Mode) {items : List Json} {warnings : List Warning}
    (hi : resolveItems p.stepId batch ⟨context, [], bindings, mode⟩ = .ok (items, warnings))
    (hno : ∀ item ∈ items, ∀ fault, p.alone unit batch context bindings mode item ≠ .aborted fault) :
    ∃ values results, ((p.under batch .carryOn).run unit context bindings mode).1 = .completed values defaultAction ∧
      Assoc.get? values "results" = some (.arr results) ∧
      ((∃ values' action, ((p.under batch .failFast).run unit context bindings mode).1 = .completed values' action) ↔
        Assoc.get? values "error_count" = some (.nat 0)) ∧
      (Assoc.get? values "error_count" = some (.nat 0) →
        (p.under batch .failFast).run unit context bindings mode =
          (p.under batch .carryOn).run unit context bindings mode) ∧
      (Assoc.get? values "error_count" ≠ some (.nat 0) →
        ∃ i, p.EndsAt unit batch context bindings mode items results i) := by
  obtain ⟨values, hdone, hresults, herrors⟩ := run_under_carryOn hi hno rfl
  refine ⟨values, _, hdone, hresults, ?_⟩
  rw [Ne, herrors]
  -- whether the batch that fails fast comes to all of its items
  rcases runItems_cases (runItem (p.attempt unit) batch.itemName ⟨context, [], bindings, mode⟩) .failFast items with
    ⟨_, hall⟩ | ⟨done, item, rest, rfl, hruns, hgoes, hstops⟩
  · have hnull : .null ∉ items.map fun item => (p.alone unit batch context bindings mode item).result := by
      intro hmem
      obtain ⟨item, hitem, hnull⟩ := List.mem_map.mp hmem
      exact StepOutcome.result_ne_null (hall item hitem) hnull
    have hsame := run_under_congr hi fun item hitem => StepOutcome.stops_of_failFast (hall item hitem)
    refine ⟨iff_of_true ⟨values, defaultAction, ?_⟩ hnull, fun _ => hsame, fun hnot => absurd hnull hnot⟩
    rw [hsame, hdone]
  · obtain ⟨failure, hfailed⟩ := StepOutcome.failed_of_stops (hno item (by simp)) hstops
    have hends := endsAt_of_failed hi hruns hgoes hfailed
    have hnull : .null ∈ (done ++ item :: rest).map fun item =>
        (p.alone unit batch context bindings mode item).result := List.mem_of_getElem? hends.null
    refine ⟨iff_of_false ?_ (not_not_intro hnull), fun hnot => absurd hnull hnot, fun _ => ⟨done.length, hends⟩⟩
    rintro ⟨values', action, hcompleted⟩
    obtain ⟨_, _, _, _, hlost⟩ := hends.failed
    rw [hlost] at hcompleted
    cases hcompleted

end Pipeline

/-- Of five times three are none, and it is the first of these that waiting ends with. -/
theorem policies_agree_waiting :
    ∃ unit batch context values results, waitingPipeline.batch = some batch ∧
      (waitingPipeline.run unit context [] .strict).1 = .completed values defaultAction ∧
      results = [.obj [("slept_ms", .int 1)], .null, .obj [("slept_ms", .int 2)], .null, .null] ∧
      Assoc.get? values "results" = some (.arr results) ∧ Assoc.get? values "error_count" = some (.nat 3) ∧
      waitingPipeline.EndsAt unit batch context [] .strict [.int 1, .str "soon", .int 2, .str "late", .null] results
        1 := by
  let unit : LeafUnit := .delay 100
  let batch : Batch := ⟨"$\x7btimes\x7d", "item", .carryOn⟩
  let items : List Json := [.int 1, .str "soon", .int 2, .str "late", .null]
  let context : Context := .start [("times", .arr items)] .empty
  have hi : resolveItems waitingPipeline.stepId batch ⟨context, [], [], .strict⟩ = .ok (items, []) := by decide +kernel
  have hno : ∀ item ∈ items, ∀ fault, waitingPipeline.alone unit batch context [] .strict item ≠ .aborted fault := by
    have hgoes : (items.all fun item => !(waitingPipeline.alone unit batch context [] .strict item).stops .carryOn) =
      true := by decide +kernel
    intro item hitem fault haborted
    have hitem := List.all_eq_true.mp hgoes item hitem
    rw [haborted] at hitem
    cases hitem
  obtain ⟨values, results, hdone, hresults, _, _, hends⟩ :=
    waitingPipeline.policies_agree unit batch context [] .strict hi hno
  have htold : (waitingPipeline.run unit context [] .strict).1.result.get? "results" =
        some (.arr [.obj [("slept_ms", .int 1)], .null, .obj [("slept_ms", .int 2)], .null, .null]) ∧
      (waitingPipeline.run unit context [] .strict).1.result.get? "error_count" = some (.nat 3) := by decide +kernel
  have hdone : (waitingPipeline.run unit context [] .strict).1 = .completed values defaultAction := hdone
  rw [hdone] at htold
  have herrors : Assoc.get? values "error_count" = some (.nat 3) := htold.2
  obtain rfl := Json.arr.inj (Option.some.inj (hresults.symm.trans htold.1))
  obtain ⟨i, hends⟩ := hends (by rw [herrors]; decide)
  -- Null is not listed first, and an index past the second would not be the least.
  obtain rfl : i = 1 := by
    rcases i with _ | _ | i
    · cases hends.null
    · rfl
    · exact absurd rfl (hends.least 1 (by omega))
  exact ⟨unit, batch, context, values, _, rfl, hdone, rfl, hresults, herrors, hends⟩

end Workflow
