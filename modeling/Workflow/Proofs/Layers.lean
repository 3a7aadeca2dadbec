import Workflow.Pipeline

/-! The layers of a step, seen from outside: which calls reach the leaf, what the step makes of what they come to, and
that no layer moves a context to another frame. An attempt is one call of the layers below the batch. -/

namespace Workflow

/-! ### Runs over items -/

/-- Items run up to the first that stops the batch, which is then the last. -/
theorem runItems_cases (run : Json → ItemRun) (policy : BatchPolicy) (items : List Json) :
    (runItems run policy items = items.map run ∧ ∀ x ∈ items, (run x).stops policy = false) ∨
      ∃ done item rest, items = done ++ item :: rest ∧ runItems run policy items = done.map run ++ [run item] ∧
        (∀ x ∈ done, (run x).stops policy = false) ∧ (run item).stops policy = true := by
  induction items with
  | nil => exact .inl ⟨rfl, by simp⟩
  | cons item rest ih =>
    rw [runItems]
    cases hs : (run item).stops policy with
    | true => exact .inr ⟨[], item, rest, rfl, by simp, by simp, hs⟩
    | false =>
      simp only [Bool.false_eq_true, if_false]
      rcases ih with ⟨heq, hall⟩ | ⟨done, last, after, hitems, heq, hdone, hlast⟩
      · left
        refine ⟨by rw [heq, List.map_cons], ?_⟩
        intro x hx
        rcases List.mem_cons.mp hx with rfl | hx
        · exact hs
        · exact hall x hx
      · right
        refine ⟨item :: done, last, after, by rw [hitems, List.cons_append], by rw [heq]; rfl, ?_, hlast⟩
        intro x hx
        rcases List.mem_cons.mp hx with rfl | hx
        · exact hs
        · exact hdone x hx

theorem runItems_of_goes {run : Json → ItemRun} {policy : BatchPolicy} {items : List Json}
    (h : ∀ x ∈ items, (run x).stops policy = false) : runItems run policy items = items.map run := by
  rcases runItems_cases run policy items with ⟨heq, _⟩ | ⟨done, item, rest, rfl, _, _, hstops⟩
  · exact heq
  · rw [h item (List.mem_append_right _ List.mem_cons_self)] at hstops
    cases hstops

theorem namespaceLayer_outcome (stepId : String) (inner : Layer) (call : Call) :
    (namespaceLayer stepId inner call).1 = (inner call).1 := by
  unfold namespaceLayer
  split <;> rename_i h <;> rw [h]

/-! ### What a batch comes to -/

section
variable {stepId : String} {batch : Batch} {maxErrors : Nat} {inner : Layer} {call : Call}

def batchRuns (batch : Batch) (inner : Layer) (call : Call) (items : List Json) : List ItemRun :=
  runItems (runItem inner batch.itemName call) batch.onError items

/-- What a batch comes to when the item at an index is the last and comes to an outcome. -/
def StepOutcome.ofItem (stepId : String) (index : Nat) (item : Json) : StepOutcome → StepOutcome
  | .failed failure => .failed (batchFailure stepId index item failure)
  | outcome => outcome

/-- Where no item stops the batch, the last one does not either. -/
theorem stopping_eq_none {policy : BatchPolicy} {runs : List ItemRun} (hall : ∀ r ∈ runs, r.stops policy = false) :
    runs.getLast?.filter (·.stops policy) = none := by
  rw [Option.filter_eq_none_iff]
  intro r hr
  rw [hall r (List.mem_of_getLast? hr)]
  exact Bool.false_ne_true

theorem batchLayer_completed {items : List Json} {warnings : List Warning}
    (h : resolveItems stepId batch call = .ok (items, warnings))
    (hall : ∀ r ∈ batchRuns batch inner call items, r.stops batch.onError = false) :
    (batchLayer stepId batch maxErrors inner call).1 =
      .completed (batchValues (batchRuns batch inner call items) maxErrors) defaultAction := by
  have hlast := stopping_eq_none hall
  unfold batchLayer
  unfold batchRuns at hlast ⊢
  simp only [h, hlast]

theorem batchLayer_stopped {items : List Json} {warnings : List Warning} {before : List ItemRun} {last : ItemRun}
    (h : resolveItems stepId batch call = .ok (items, warnings))
    (hruns : batchRuns batch inner call items = before ++ [last]) (hstops : last.stops batch.onError = true) :
    (batchLayer stepId batch maxErrors inner call).1 = last.outcome.ofItem stepId before.length last.item := by
  have hlast : (batchRuns batch inner call items).getLast?.filter (·.stops batch.onError) = some last := by
    rw [hruns, List.getLast?_concat]
    simp [Option.filter, hstops]
  have hlength : (batchRuns batch inner call items).length - 1 = before.length := by
    rw [hruns, List.length_append]
    rfl
  obtain ⟨item, outcome, left⟩ := last
  unfold batchLayer
  unfold batchRuns at hlast hlength
  simp only [h, hlast, hlength]
  cases outcome with
  | completed values action => cases hstops
  | failed failure => rfl
  | aborted fault => rfl

end

/-- Two ways of running items that agree wherever both come to an item run the same items. -/
theorem runItems_congr {run run' : Json → ItemRun} {policy : BatchPolicy} (hitem : ∀ x, (run x).item = x)
    (hitem' : ∀ x, (run' x).item = x) {items : List Json}
    (h : ∀ x, x ∈ (runItems run policy items).map ItemRun.item → x ∈ (runItems run' policy items).map ItemRun.item →
      run x = run' x) : runItems run policy items = runItems run' policy items := by
  induction items with
  | nil => rfl
  | cons item rest ih =>
    have hhead : run item = run' item := by
      refine h item ?_ ?_
      · rw [runItems]
        split <;> simp [hitem]
      · rw [runItems]
        split <;> simp [hitem']
    rw [runItems, runItems, hhead]
    cases hs : (run' item).stops policy with
    | true => rfl
    | false =>
      simp only [Bool.false_eq_true, if_false]
      congr 1
      refine ih fun x hx hx' => h x ?_ ?_
      · rw [runItems, hhead]
        simp only [hs, Bool.false_eq_true, if_false, List.map_cons]
        exact List.mem_cons_of_mem _ hx
      · rw [runItems]
        simp only [hs, Bool.false_eq_true, if_false, List.map_cons]
        exact List.mem_cons_of_mem _ hx'

/-- Two batches over the same items that agree on every item that both come to are the same batch. -/
theorem batchLayer_congr {stepId : String} {batch : Batch} {inner inner' : Layer} {call call' : Call}
    (hcontext : call'.context = call.context) {items : List Json} {warnings : List Warning}
    (hi : resolveItems stepId batch call = .ok (items, warnings))
    (hi' : resolveItems stepId batch call' = .ok (items, warnings))
    (h : ∀ r ∈ batchRuns batch inner call items, ∀ r' ∈ batchRuns batch inner' call' items, r'.item = r.item →
      inner (itemCall batch.itemName call r.item) = inner' (itemCall batch.itemName call' r.item)) :
    batchRuns batch inner call items = batchRuns batch inner' call' items ∧
      ∀ maxErrors, batchLayer stepId batch maxErrors inner call = batchLayer stepId batch maxErrors inner' call' := by
  have hruns : batchRuns batch inner call items = batchRuns batch inner' call' items := by
    refine runItems_congr (fun _ => rfl) (fun _ => rfl) ?_
    intro x hx hx'
    obtain ⟨r, hr, rfl⟩ := List.mem_map.mp hx
    obtain ⟨r', hr', heq⟩ := List.mem_map.mp hx'
    simp only [runItem, h r hr r' hr' heq]
  refine ⟨hruns, fun maxErrors => ?_⟩
  unfold batchRuns at hruns
  unfold batchLayer
  simp only [hi, hi', hruns, hcontext]

/-! ### Attempts -/

namespace Pipeline

variable {p : Pipeline} (unit : LeafUnit) {call : Call}

def leafCall (p : Pipeline) (call : Call) : Except Fault Call :=
  if p.templated.isEmpty then .ok call
  else resolveParams p.stepId p.templated p.declared p.site.limits.maxTemplateDepth call

theorem core_of_leafCall_error {fault : Fault} (h : p.leafCall call = .error fault) :
    p.core unit call = (.aborted fault, call.context) := by
  unfold leafCall at h
  unfold core
  split at h
  · cases h
  · rename_i hempty
    simp only [hempty, Bool.false_eq_true, if_false, templateLayer, h]

theorem core_of_leafCall_ok {call' : Call} (h : p.leafCall call = .ok call') :
    p.core unit call = leafLayer p.stepId unit p.literals call' := by
  unfold leafCall at h
  unfold core
  split at h
  · rename_i hempty
    cases h
    simp only [hempty, if_true]
  · rename_i hempty
    simp only [hempty, Bool.false_eq_true, if_false, templateLayer, h]

def attempt (p : Pipeline) (unit : LeafUnit) : Layer := namespaceLayer p.stepId (p.core unit)

/-- The attempts of a step, in order: one, or one for each item that its batch comes to. -/
def attempts (p : Pipeline) (unit : LeafUnit) (call : Call) : List Call :=
  match p.batch with
  | none => [call]
  | some batch =>
    match resolveItems p.stepId batch call with
    | .error _ => []
    | .ok (items, _) =>
      (batchRuns batch (p.attempt unit) call items).map fun r => itemCall batch.itemName call r.item

theorem body_single (h : p.batch = none) : p.body unit call = p.attempt unit call := by
  unfold body
  rw [h]
  rfl

theorem body_batch {batch : Batch} (h : p.batch = some batch) :
    p.body unit call = batchLayer p.stepId batch p.site.limits.maxBatchErrors (p.attempt unit) call := by
  unfold body
  rw [h]
  rfl

theorem attempt_outcome (a : Call) : (p.attempt unit a).1 = (p.core unit a).1 := namespaceLayer_outcome _ _ _

theorem attempts_batch {batch : Batch} {items : List Json} {warnings : List Warning} (h : p.batch = some batch)
    (hi : resolveItems p.stepId batch call = .ok (items, warnings)) :
    p.attempts unit call =
      (batchRuns batch (p.attempt unit) call items).map fun r => itemCall batch.itemName call r.item := by
  unfold attempts
  simp only [h, hi]

/-- A batch attempts all its items, or those up to the first that stops it. -/
theorem attempts_cases {batch : Batch} {items : List Json} {warnings : List Warning} (hb : p.batch = some batch)
    (hi : resolveItems p.stepId batch call = .ok (items, warnings)) :
    (p.attempts unit call = items.map (itemCall batch.itemName call) ∧
      (∀ a ∈ p.attempts unit call, (p.core unit a).1.stops batch.onError = false) ∧
      ∃ values, (p.body unit call).1 = .completed values defaultAction) ∨
    ∃ done item rest, items = done ++ item :: rest ∧
      p.attempts unit call = (done ++ [item]).map (itemCall batch.itemName call) ∧
      (∀ x ∈ done, (p.core unit (itemCall batch.itemName call x)).1.stops batch.onError = false) ∧
      (p.core unit (itemCall batch.itemName call item)).1.stops batch.onError = true ∧
      (p.body unit call).1 = (p.core unit (itemCall batch.itemName call item)).1.ofItem p.stepId done.length item := by
  let run := runItem (p.attempt unit) batch.itemName call
  have hstops (x : Json) : (run x).stops batch.onError =
      (p.core unit (itemCall batch.itemName call x)).1.stops batch.onError := by
    rw [← attempt_outcome unit]
    rfl
  have hcalls (xs : List Json) : (xs.map run).map (fun r => itemCall batch.itemName call r.item) =
      xs.map (itemCall batch.itemName call) := by
    rw [List.map_map]
    rfl
  rw [attempts_batch unit hb hi, body_batch unit hb]
  rcases runItems_cases run batch.onError items with ⟨heq, hall⟩ | ⟨done, item, rest, hitems, heq, hdone, hlast⟩
  · left
    have hruns : batchRuns batch (p.attempt unit) call items = items.map run := heq
    rw [hruns, hcalls]
    refine ⟨rfl, ?_, ?_⟩
    · intro a ha
      obtain ⟨x, hx, rfl⟩ := List.mem_map.mp ha
      rw [← hstops]
      exact hall x hx
    · refine ⟨_, batchLayer_completed hi ?_⟩
      intro r hr
      rw [hruns] at hr
      obtain ⟨x, hx, rfl⟩ := List.mem_map.mp hr
      exact hall x hx
  · right
    have hruns : batchRuns batch (p.attempt unit) call items = done.map run ++ [run item] := heq
    refine ⟨done, item, rest, hitems, ?_, fun x hx => hstops x ▸ hdone x hx, hstops item ▸ hlast, ?_⟩
    · rw [hruns, ← hcalls]
      simp only [List.map_append, List.map_cons, List.map_nil]
    · rw [batchLayer_stopped hi hruns hlast, List.length_map, ← attempt_outcome]
      rfl

theorem attempts_single (hb : p.batch = none) : p.attempts unit call = [call] := by
  unfold attempts
  rw [hb]

theorem attempts_unresolved {batch : Batch} {fault : Fault} (hb : p.batch = some batch)
    (hi : resolveItems p.stepId batch call = .error fault) :
    p.attempts unit call = [] ∧ (p.body unit call).1 = .aborted fault := by
  refine ⟨?_, ?_⟩
  · unfold attempts
    simp only [hb, hi]
  · rw [body_batch unit hb]
    unfold batchLayer
    rw [hi]

/-- An attempt that stops the batch is the last, and the step comes to what it comes to. -/
theorem attempts_stopped {batch : Batch} {items : List Json} {warnings : List Warning} (hb : p.batch = some batch)
    (hi : resolveItems p.stepId batch call = .ok (items, warnings)) {a : Call} (ha : a ∈ p.attempts unit call)
    (hstops : (p.core unit a).1.stops batch.onError = true) :
    ∃ before item, p.attempts unit call = before ++ [a] ∧ a = itemCall batch.itemName call item ∧
      (∀ b ∈ before, (p.core unit b).1.stops batch.onError = false) ∧
      (p.body unit call).1 = (p.core unit a).1.ofItem p.stepId before.length item := by
  rcases attempts_cases unit hb hi with ⟨_, hall, _⟩ | ⟨done, item, rest, _, hattempts, hdone, _, hbody⟩
  · rw [hall a ha] at hstops
    cases hstops
  · rw [List.map_append, List.map_cons, List.map_nil] at hattempts
    have hlast : a = itemCall batch.itemName call item := by
      rw [hattempts] at ha
      rcases List.mem_append.mp ha with ha | ha
      · obtain ⟨x, hx, rfl⟩ := List.mem_map.mp ha
        rw [hdone x hx] at hstops
        cases hstops
      · exact List.mem_singleton.mp ha
    refine ⟨done.map (itemCall batch.itemName call), item, hlast ▸ hattempts, hlast, ?_, ?_⟩
    · intro b hmem
      obtain ⟨x, hx, rfl⟩ := List.mem_map.mp hmem
      exact hdone x hx
    · rw [hbody, List.length_map, hlast]

/-- An attempt that aborts is the last and the only one, and the step aborts with it. -/
theorem body_of_attempt_aborted {a : Call} {fault : Fault} (ha : a ∈ p.attempts unit call)
    (h : (p.core unit a).1 = .aborted fault) :
    (∃ before, p.attempts unit call = before ++ [a] ∧ ∀ b ∈ before, ∀ cause, (p.core unit b).1 ≠ .aborted cause) ∧
      (p.body unit call).1 = .aborted fault := by
  cases hb : p.batch with
  | none =>
    rw [attempts_single unit hb] at ha ⊢
    rw [List.mem_singleton.mp ha] at h ⊢
    rw [body_single unit hb, attempt_outcome]
    exact ⟨⟨[], rfl, by simp⟩, h⟩
  | some batch =>
    cases hi : resolveItems p.stepId batch call with
    | error cause =>
      rw [(attempts_unresolved unit hb hi).1] at ha
      exact absurd ha List.not_mem_nil
    | ok resolved =>
      have hstops : (p.core unit a).1.stops batch.onError = true := by rw [h]; rfl
      obtain ⟨before, item, hattempts, _, hbefore, hbody⟩ := attempts_stopped unit hb hi ha hstops
      refine ⟨⟨before, hattempts, ?_⟩, by rw [hbody, h]; rfl⟩
      intro b hmem cause hcause
      have hgoes := hbefore b hmem
      rw [hcause] at hgoes
      cases hgoes

/-- A batch that fails fast fails with the first item that does, as its last. -/
theorem body_of_failFast {batch : Batch} {items : List Json} {warnings : List Warning} (hb : p.batch = some batch)
    (hpolicy : batch.onError = .failFast) (hi : resolveItems p.stepId batch call = .ok (items, warnings)) {a : Call}
    {failure : StepFailure} (ha : a ∈ p.attempts unit call) (h : (p.core unit a).1 = .failed failure) :
    ∃ before item, p.attempts unit call = before ++ [a] ∧ a = itemCall batch.itemName call item ∧
      (p.body unit call).1 = .failed (batchFailure p.stepId before.length item failure) := by
  have hstops : (p.core unit a).1.stops batch.onError = true := by
    rw [h, hpolicy]
    rfl
  obtain ⟨before, item, hattempts, hcall, _, hbody⟩ := attempts_stopped unit hb hi ha hstops
  exact ⟨before, item, hattempts, hcall, by rw [hbody, h]; rfl⟩

/-- A batch that carries on attempts every item and completes, unless an item aborts. -/
theorem body_of_carryOn {batch : Batch} {items : List Json} {warnings : List Warning} (hb : p.batch = some batch)
    (hpolicy : batch.onError = .carryOn) (hi : resolveItems p.stepId batch call = .ok (items, warnings))
    (h : ∀ a ∈ p.attempts unit call, ∀ fault, (p.core unit a).1 ≠ .aborted fault) :
    p.attempts unit call = items.map (itemCall batch.itemName call) ∧
      ∃ values, (p.body unit call).1 = .completed values defaultAction := by
  rcases attempts_cases unit hb hi with ⟨hall, _, hbody⟩ | ⟨done, item, rest, _, hattempts, _, hstops, _⟩
  · exact ⟨hall, hbody⟩
  · have hmem : itemCall batch.itemName call item ∈ p.attempts unit call := by
      rw [hattempts, List.map_append]
      exact List.mem_append_right _ (List.mem_singleton_self _)
    cases ho : (p.core unit (itemCall batch.itemName call item)).1 with
    | completed values action =>
      rw [ho] at hstops
      cases hstops
    | failed failure =>
      rw [ho, hpolicy] at hstops
      cases hstops
    | aborted fault => exact absurd ho (h _ hmem fault)

/-- A step aborts only when its items cannot be resolved or an attempt aborts. -/
theorem aborted_of_body {fault : Fault} (h : (p.body unit call).1 = .aborted fault) :
    (∃ batch, p.batch = some batch ∧ resolveItems p.stepId batch call = .error fault) ∨
      ∃ a ∈ p.attempts unit call, (p.core unit a).1 = .aborted fault := by
  cases hb : p.batch with
  | none =>
    rw [body_single unit hb, attempt_outcome] at h
    exact .inr ⟨call, by rw [attempts_single unit hb]; exact List.mem_singleton_self _, h⟩
  | some batch =>
    cases hi : resolveItems p.stepId batch call with
    | error cause =>
      rw [(attempts_unresolved unit hb hi).2] at h
      cases h
      exact .inl ⟨batch, rfl, hi⟩
    | ok resolved =>
      right
      rcases attempts_cases unit hb hi with
        ⟨_, _, values, hbody⟩ | ⟨done, item, rest, _, hattempts, _, hstops, hbody⟩
      · rw [hbody] at h
        cases h
      · refine ⟨itemCall batch.itemName call item, ?_, ?_⟩
        · rw [hattempts, List.map_append]
          exact List.mem_append_right _ (List.mem_singleton_self _)
        · rw [hbody] at h
          cases ho : (p.core unit (itemCall batch.itemName call item)).1 with
          | completed values action =>
            rw [ho] at hstops
            cases hstops
          | failed failure =>
            rw [ho] at h
            cases h
          | aborted cause =>
            rw [ho] at h
            exact h

/-- Two units that agree on the attempts they both come to make the same of a step. -/
theorem attempts_congr {unit unit' : LeafUnit}
    (h : ∀ a ∈ p.attempts unit call, a ∈ p.attempts unit' call → p.core unit a = p.core unit' a) :
    p.attempts unit call = p.attempts unit' call ∧ p.body unit call = p.body unit' call := by
  cases hb : p.batch with
  | none =>
    rw [attempts_single unit hb, attempts_single unit' hb] at h
    rw [attempts_single unit hb, attempts_single unit' hb, body_single unit hb, body_single unit' hb]
    have hcall := List.mem_singleton_self call
    simp only [attempt, namespaceLayer, h call hcall hcall, and_self]
  | some batch =>
    cases hi : resolveItems p.stepId batch call with
    | error fault =>
      rw [(attempts_unresolved unit hb hi).1, (attempts_unresolved unit' hb hi).1]
      rw [body_batch unit hb, body_batch unit' hb]
      unfold batchLayer
      simp only [hi, and_self]
    | ok resolved =>
      obtain ⟨items, warnings⟩ := resolved
      rw [attempts_batch unit hb hi, attempts_batch unit' hb hi] at h
      have hagree : ∀ r ∈ batchRuns batch (p.attempt unit) call items,
          ∀ r' ∈ batchRuns batch (p.attempt unit') call items, r'.item = r.item →
            p.attempt unit (itemCall batch.itemName call r.item) =
              p.attempt unit' (itemCall batch.itemName call r.item) := by
        intro r hr r' hr' heq
        have hcore := h (itemCall batch.itemName call r.item) (List.mem_map.mpr ⟨r, hr, rfl⟩)
          (List.mem_map.mpr ⟨r', hr', by rw [heq]⟩)
        simp only [attempt, namespaceLayer, hcore]
      obtain ⟨hruns, hlayer⟩ := batchLayer_congr rfl hi hi hagree
      rw [attempts_batch unit hb hi, attempts_batch unit' hb hi, body_batch unit hb, body_batch unit' hb]
      exact ⟨by rw [hruns], hlayer _⟩

end Pipeline

/-! ### Frames -/

def Layer.KeepsFrame (layer : Layer) : Prop := ∀ call, (layer call).2.frame = call.context.frame

/-- Only the last phase of a unit gets to change the context. -/
def LeafUnit.KeepsFrame (unit : LeafUnit) : Prop :=
  ∀ context prepared executed, (unit.finalize context prepared executed).1.frame = context.frame

theorem leafLayer_keepsFrame {unit : LeafUnit} (h : unit.KeepsFrame) (stepId : String) (literals : Fields) :
    (leafLayer stepId unit literals).KeepsFrame := by
  intro call
  unfold leafLayer
  simp only
  cases unit.prepare (Assoc.putAll literals call.params) call.context with
  | error fault => rfl
  | ok prepared =>
    simp only
    cases unit.attempt prepared with
    | error fault => rfl
    | ok executed =>
      have hframe := h call.context prepared executed
      simp only
      split
      all_goals
        rename_i hfinal
        rw [hfinal] at hframe
        exact hframe

theorem resolveParams_frame {stepId : String} {templated : Fields} {declared : Assoc SemanticType} {depth : Nat}
    {call call' : Call} (h : resolveParams stepId templated declared depth call = .ok call') :
    call'.context.frame = call.context.frame := by
  unfold resolveParams at h
  rw [Except.map.eq_def] at h
  split at h
  · cases h
  · cases h
    exact Context.setWarnings_frame _ _

theorem namespaceLayer_keepsFrame {inner : Layer} (h : inner.KeepsFrame) (stepId : String) :
    (namespaceLayer stepId inner).KeepsFrame := by
  intro call
  have hframe := h call
  unfold namespaceLayer
  split
  all_goals
    rename_i hinner
    rw [hinner] at hframe
    simpa using hframe

/-- Items run on scratch copies, so nothing that they do to their frames reaches the caller. -/
theorem batchLayer_keepsFrame (stepId : String) (batch : Batch) (maxErrors : Nat) (inner : Layer) :
    (batchLayer stepId batch maxErrors inner).KeepsFrame := by
  intro call
  unfold batchLayer
  split
  · rfl
  · simp only
    split
    · simp
    · simp
    · split <;> simp

namespace Pipeline

variable {p : Pipeline} {unit : LeafUnit} {call : Call}

theorem leafCall_frame {call' : Call} (h : p.leafCall call = .ok call') :
    call'.context.frame = call.context.frame := by
  unfold leafCall at h
  split at h
  · cases h
    rfl
  · exact resolveParams_frame h

theorem core_keepsFrame (h : unit.KeepsFrame) : (p.core unit).KeepsFrame := by
  intro call
  cases hc : p.leafCall call with
  | error fault => rw [core_of_leafCall_error unit hc]
  | ok call' =>
    rw [core_of_leafCall_ok unit hc, leafLayer_keepsFrame h, leafCall_frame hc]

theorem attempt_keepsFrame (h : unit.KeepsFrame) : (p.attempt unit).KeepsFrame :=
  namespaceLayer_keepsFrame (core_keepsFrame h) p.stepId

/-- An attempt is the call itself or the call for an item. -/
theorem mem_attempts {a : Call} (ha : a ∈ p.attempts unit call) :
    p.batch = none ∧ a = call ∨ ∃ batch item, p.batch = some batch ∧ a = itemCall batch.itemName call item := by
  unfold attempts at ha
  split at ha
  · rename_i hb
    exact .inl ⟨hb, List.mem_singleton.mp ha⟩
  · rename_i batch hb
    split at ha
    · exact absurd ha List.not_mem_nil
    · obtain ⟨r, _, rfl⟩ := List.mem_map.mp ha
      exact .inr ⟨batch, r.item, hb, rfl⟩

theorem attempts_frame {a : Call} (ha : a ∈ p.attempts unit call) : a.context.frame = call.context.frame := by
  rcases mem_attempts ha with ⟨_, rfl⟩ | ⟨_, _, _, rfl⟩ <;> rfl

theorem attempts_mode {a : Call} (ha : a ∈ p.attempts unit call) : a.mode = call.mode := by
  rcases mem_attempts ha with ⟨_, rfl⟩ | ⟨_, _, _, rfl⟩ <;> rfl

theorem attempts_data {a : Call} (ha : a ∈ p.attempts unit call) : a.context.data = call.context.data := by
  rcases mem_attempts ha with ⟨_, rfl⟩ | ⟨_, _, _, rfl⟩ <;> rfl

/-- An attempt for an item binds it besides what the call binds. -/
theorem attempts_bindings {a : Call} (ha : a ∈ p.attempts unit call) {key : String}
    (hkey : key ∈ Assoc.keys call.bindings ∨ (p.batch.map Batch.itemName) = some key) :
    key ∈ Assoc.keys a.bindings := by
  rcases mem_attempts ha with ⟨hb, rfl⟩ | ⟨batch, item, hb, rfl⟩
  · rw [hb] at hkey
    exact hkey.resolve_right (by simp)
  · rw [hb, Option.map_some, Option.some.injEq] at hkey
    exact (Assoc.mem_keys_put _ _ _ _).mpr (hkey.symm.imp_left Eq.symm)

theorem attempts_params {a : Call} (ha : a ∈ p.attempts unit call) (h : call.params = []) : a.params = [] := by
  rcases mem_attempts ha with ⟨_, rfl⟩ | ⟨_, _, _, rfl⟩
  · exact h
  · rfl

theorem run_frame (h : unit.KeepsFrame) (context : Context) (bindings : Fields) (mode : Mode) :
    (p.run unit context bindings mode).2.frame = context.frame := by
  have hbody : (p.body unit).KeepsFrame := by
    unfold body
    split
    · exact attempt_keepsFrame h
    · exact batchLayer_keepsFrame _ _ _ _
  exact hbody ⟨context, [], bindings, mode⟩

end Pipeline

end Workflow
