import Workflow.Proofs.Arrangement
import Workflow.Proofs.Writing

/-! Text that stands for a list or a dict. Wherever a path or a batch comes upon the compact text of a value, with
blanks around it, it goes on as if it had come upon the value: the text is trimmed down to what was written, which is
read back as it was. -/

namespace Workflow

/-! ### Trimming -/

/-- Space around a text that itself neither begins nor ends with space is trimmed away. -/
theorem Text.trimChars_padded {before after middle : List Char} {first last : Char}
    (hbefore : ∀ c ∈ before, isSpace c = true) (hafter : ∀ c ∈ after, isSpace c = true)
    (hfirst : isSpace first = false) (hlast : isSpace last = false) :
    trimChars (before ++ (first :: middle ++ [last]) ++ after) = first :: middle ++ [last] := by
  have hstart : (before ++ (first :: middle ++ [last]) ++ after).dropWhile isSpace =
      first :: middle ++ [last] ++ after := by
    rw [List.append_assoc, List.dropWhile_append_of_pos hbefore, List.cons_append, List.cons_append,
      List.dropWhile_cons_of_neg (by simp [hfirst])]
  have hend : (first :: middle ++ [last] ++ after).reverse.dropWhile isSpace = (first :: middle ++ [last]).reverse := by
    rw [List.reverse_append, List.dropWhile_append_of_pos fun c hc => hafter c (List.mem_reverse.mp hc),
      List.reverse_append, List.reverse_singleton, List.singleton_append, List.dropWhile_cons_of_neg (by simp [hlast])]
  rw [trimChars, hstart, hend, List.reverse_reverse]

namespace Json

theorem isSpace_of_isBlank {c : Char} (h : isBlank c = true) : Text.isSpace c = true := by
  simp only [isBlank, Bool.or_eq_true, decide_eq_true_eq] at h
  rcases h with ((rfl | rfl) | rfl) | rfl
  all_goals decide

def Opens (cs : List Char) : Prop := ∃ rest, cs = '[' :: rest ∨ cs = '\x7b' :: rest

theorem opens_chars {v : Json} (hv : ¬ v.IsScalar) : Opens v.chars := by
  cases v with
  | arr items => exact ⟨_, .inl rfl⟩
  | obj fields => exact ⟨_, .inr rfl⟩
  | _ => exact absurd ⟨rfl, rfl⟩ hv

/-- Blanks around the text of a list or dict are trimmed away. -/
theorem trimChars_chars {v : Json} (hv : ¬ v.IsScalar) {before after : List Char}
    (hbefore : ∀ c ∈ before, isBlank c = true) (hafter : ∀ c ∈ after, isBlank c = true) :
    Text.trimChars (before ++ v.chars ++ after) = v.chars := by
  have hspaces {cs : List Char} (hcs : ∀ c ∈ cs, isBlank c = true) : ∀ c ∈ cs, Text.isSpace c = true :=
    fun c hc => isSpace_of_isBlank (hcs c hc)
  cases v with
  | arr items =>
    rw [chars]
    exact Text.trimChars_padded (hspaces hbefore) (hspaces hafter) (by decide) (by decide)
  | obj fields =>
    rw [chars]
    exact Text.trimChars_padded (hspaces hbefore) (hspaces hafter) (by decide) (by decide)
  | _ => exact absurd ⟨rfl, rfl⟩ hv

theorem ofContainerText?_eq {text : String} {cs : List Char} (htrim : Text.trimChars text.toList = cs)
    (hcs : Opens cs) : ofContainerText? text = readChars cs := by
  obtain ⟨rest, rfl | rfl⟩ := hcs <;> simp only [ofContainerText?, htrim]

theorem step?_of_container {v : Json} (hv : ¬ v.IsScalar) (segment : Segment) :
    v.step? segment = v.child? segment := by
  cases v with
  | str text => exact absurd ⟨rfl, rfl⟩ hv
  | _ => rfl

/-- A path is followed alike from two values that have the same children. -/
theorem traverse_eq_ok_congr {v v' : Json} (h : ∀ segment, v'.step? segment = v.step? segment) {path : Path}
    (hpath : path ≠ []) (w : Json) : v'.traverse path = .ok w ↔ v.traverse path = .ok w := by
  obtain ⟨segment, rest, rfl⟩ := List.exists_cons_of_ne_nil hpath
  rw [traverse, traverse, h]
  cases v.step? segment with
  | none => exact ⟨nofun, nofun⟩
  | some u => rfl

end Json

/-! ### Batches -/

/-- A text of the step resolves to the value, with nothing missing. -/
def Call.Resolves (call : Call) (source : String) (v : Json) : Prop :=
  (call.scope.resolveText source).isComplete = true ∧ (call.scope.resolveText source).value = v

theorem resolveItems_of_resolves (stepId : String) (batch : Batch) {call : Call} {source : String} {v : Json}
    {items : List Json} (h : call.Resolves source v) (hitems : listOfItems v = .ok items) :
    resolveItems stepId { batch with items := source } call = .ok (items, call.context.journal.warnings) := by
  simp only [resolveItems, h.1, h.2, hitems, if_true]

namespace Pipeline

def batchOver (p : Pipeline) (batch : Batch) (source : String) : Pipeline :=
  { p with batch := some { batch with items := source } }

variable (p : Pipeline) (unit : LeafUnit) (batch : Batch) {call : Call} {source source' : String}

theorem body_batchOver {items : List Json} {warnings : List Warning}
    (h : resolveItems p.stepId { batch with items := source } call = .ok (items, warnings)) :
    (p.batchOver batch source).body unit call =
      batchEnd p.stepId batch p.site.limits.maxBatchErrors (batchRuns batch (p.attempt unit) call items)
        ((call.context.setWarnings warnings).warn
          ((batchRuns batch (p.attempt unit) call items).flatMap ItemRun.warnings)) := by
  have hbatch : (p.batchOver batch source).batch = some { batch with items := source } := rfl
  rw [body_batch unit hbatch]
  exact batchLayer_eq_end h _ _

/-- Of what a batch is over, only the list it resolves to has a part in the run. -/
theorem batchOver_congr {items : List Json} {warnings : List Warning}
    (h : resolveItems p.stepId { batch with items := source } call = .ok (items, warnings))
    (h' : resolveItems p.stepId { batch with items := source' } call = .ok (items, warnings)) :
    (p.batchOver batch source).attempts unit call = (p.batchOver batch source').attempts unit call ∧
      (p.batchOver batch source).layer unit call = (p.batchOver batch source').layer unit call := by
  refine ⟨?_, ?_⟩
  · exact (attempts_batch (p := p.batchOver batch source) unit rfl h).trans
      (attempts_batch (p := p.batchOver batch source') unit rfl h').symm
  · unfold layer instrumentedLayer
    rw [body_batchOver p unit batch h, body_batchOver p unit batch h']
    rfl

end Pipeline

/-! ### Transparency -/

/-- The text stands for the value, a list or a dict, wherever it is met. -/
structure Json.StandsFor (text : String) (v : Json) : Prop where
  read : read? text = some v
  /-- A path that goes into the text finds what it finds in the value. -/
  entered : ∀ path : Path, path ≠ [] → ∀ w, (Json.str text).traverse path = .ok w ↔ v.traverse path = .ok w
  /-- A batch whose items resolve to the text runs over the items of the list. -/
  listed : ∀ items, v = .arr items → ∀ stepId batch call, Call.Resolves call batch.items (.str text) →
    resolveItems stepId batch call = .ok (items, call.context.journal.warnings)
  /-- So it does what the batch does whose items resolve to the list. -/
  swept : ∀ items, v = .arr items → ∀ (p : Pipeline) unit batch (call : Call) source source',
    call.Resolves source (.str text) → call.Resolves source' v →
      (p.batchOver batch source).attempts unit call = (p.batchOver batch source').attempts unit call ∧
        (p.batchOver batch source).layer unit call = (p.batchOver batch source').layer unit call

namespace Json

/-- The compact text of a list or dict without floats stands for it, whatever blanks stand around it. -/
theorem text_is_transparent {v : Json} (h : v.Plain maxDepth) (hv : ¬ v.IsScalar) {before after : String}
    (hbefore : ∀ c ∈ before.toList, isBlank c = true) (hafter : ∀ c ∈ after.toList, isBlank c = true) :
    StandsFor (before ++ v.text ++ after) v := by
  have htext : (before ++ v.text ++ after).toList = before.toList ++ v.chars ++ after.toList := by
    rw [String.toList_append, String.toList_append, text, String.toList_ofList]
  have htrim := trimChars_chars hv hbefore hafter
  rw [← htext] at htrim
  have hread : readChars v.chars = some v := by
    have hread : readChars ([] ++ v.chars ++ []) = some v := readChars_padded h nofun nofun
    rwa [List.nil_append, List.append_nil] at hread
  have hlist {items : List Json} (heq : v = .arr items) :
      listOfItems (.str (before ++ v.text ++ after)) = .ok items := by
    rw [listOfItems, htrim, hread, heq]
  refine ⟨?_, fun path hpath w => traverse_eq_ok_congr (fun segment => ?_) hpath w, ?_, ?_⟩
  · rw [read?, htext]
    exact readChars_padded h hbefore hafter
  · rw [step?_of_container hv, step?, ofContainerText?_eq htrim (opens_chars hv), hread, Option.bind_some]
  · intro items heq stepId batch call hresolves
    exact resolveItems_of_resolves stepId batch hresolves (hlist heq)
  · intro items heq p unit batch call source source' hsource hsource'
    subst heq
    exact p.batchOver_congr unit batch (resolveItems_of_resolves p.stepId batch hsource (hlist rfl))
      (resolveItems_of_resolves p.stepId batch hsource' rfl)

/-- A list as a step may print it: a text with a list of its own, a text with every kind of escape, the integers at both
limits, and members without members. -/
def printedItems : List Json :=
  [.obj [("inner", .str "[\"é\",\n 7]"), ("escapes", .str "\"\\\n\r\t\x08\x0c\x01/")], .int 18446744073709551615,
    .int (-9223372036854775808), .arr [], .obj [], .null, .bool false]

theorem plain_printedItems : (Json.arr printedItems).Plain maxDepth := by
  refine .arr fun v hv => ?_
  simp only [printedItems, List.mem_cons, List.not_mem_nil, or_false] at hv
  rcases hv with rfl | rfl | rfl | rfl | rfl | rfl | rfl
  · refine .obj (by decide) fun e he => ?_
    simp only [List.mem_cons, List.not_mem_nil, or_false] at he
    rcases he with rfl | rfl
    · exact .str _
    · exact .str _
  · exact .int (by decide) (by decide)
  · exact .int (by decide) (by decide)
  · exact .arr nofun
  · exact .obj (by decide) nofun
  · exact .null
  · exact .bool false

/-- A path goes through the printed list and on into the text inside, and a batch runs over the printed items. -/
theorem text_is_transparent_printed :
    ∃ text, text = " \n" ++ (Json.arr printedItems).text ++ "\t\r\n" ∧ StandsFor text (.arr printedItems) ∧
      (Json.str text).traverse [.index 0, .field "inner", .index 1] = .ok (.int 7) ∧
      ∃ call batch, Call.Resolves call batch.items (.str text) ∧
        resolveItems "sweep" batch call = .ok (printedItems, []) := by
  let text := " \n" ++ (Json.arr printedItems).text ++ "\t\r\n"
  let call : Call := ⟨.start [("out", .str text)] .empty, [], [], .strict⟩
  let batch : Batch := ⟨"$\x7bout\x7d", "item", .carryOn⟩
  have hstands : StandsFor text (.arr printedItems) :=
    text_is_transparent plain_printedItems (fun h => nomatch h.1) (List.all_eq_true.mp (by decide))
      (List.all_eq_true.mp (by decide))
  have hinner : (Json.str text).traverse [.index 0, .field "inner", .index 1] = .ok (.int 7) :=
    (hstands.entered _ (by decide) _).mpr (by decide +kernel)
  have hresolves : call.Resolves batch.items (.str text) := ⟨by decide +kernel, by decide +kernel⟩
  exact ⟨text, rfl, hstands, hinner, call, batch, hresolves, hstands.listed _ rfl _ _ _ hresolves⟩

end Json

end Workflow
