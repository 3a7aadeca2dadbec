import Workflow.Proofs.Accounting
import Workflow.Proofs.Counting
import Workflow.Proofs.Scoping

/-! What is found about the references of a document. A name that is not known is undefined; a step that is known but
not placed before the step that refers to it is a forward reference. Where a step is placed follows the edges, so that
one which leads to the reader is never found fault with, and one to which the reader leads always is. -/

namespace Workflow

open Relation (TransGen ReflTransGen)

/-! ### References as they are written -/

namespace Template

theorem ofExpr_of_mem_textRefs {text : String} {r : Reference} (h : r ∈ textRefs text) : r = .ofExpr r.expr := by
  obtain ⟨token, htoken, hr⟩ := List.mem_filterMap.mp h
  cases token with
  | literal => cases hr
  | reference _ =>
    cases hr
    exact ((tokenize_tidy text).inGrammar r htoken).read

/-- A reference inside a value is what its expression reads as. -/
theorem ofExpr_of_mem_extractRefs {v : Json} {r : Reference} (h : r ∈ extractRefs v) : r = .ofExpr r.expr := by
  obtain ⟨_, text, _, hr⟩ := mem_allRefs_iff.mp (mem_extractRefs.mp h)
  exact ofExpr_of_mem_textRefs hr

end Template

/-- References that stand in texts are told apart by how they are written. -/
theorem Reference.eq_of_placeholder_eq {r r' : Reference} (hr : r = .ofExpr r.expr) (hr' : r' = .ofExpr r'.expr)
    (h : r.placeholder = r'.placeholder) : r = r' := by
  have hexpr : r.expr = r'.expr := (String.append_right_inj _).mp ((String.append_left_inj _).mp h)
  rw [hr, hr', hexpr]

namespace Step

def paramRefs (step : Step) : List Reference := Template.extractRefs (.obj step.params)

def itemRefs (step : Step) : List Reference :=
  match step.batch with
  | none => []
  | some batch => Template.extractRefs (.str batch.items)

def itemName? (step : Step) : Option String := step.batch.map Batch.itemName

theorem ofExpr_of_mem_paramRefs {step : Step} {r : Reference} (h : r ∈ step.paramRefs) : r = .ofExpr r.expr :=
  Template.ofExpr_of_mem_extractRefs h

theorem ofExpr_of_mem_itemRefs {step : Step} {r : Reference} (h : r ∈ step.itemRefs) : r = .ofExpr r.expr := by
  unfold itemRefs at h
  split at h
  · exact absurd h List.not_mem_nil
  · exact Template.ofExpr_of_mem_extractRefs h

end Step

/-! ### Single references -/

namespace DataFlow.Names

variable {names : Names} {stepId : String} {itemName : Option String} {r : Reference}

def Unknown (names : Names) (base : String) : Prop :=
  names.isGiven base = false ∧ base ∉ names.steps

theorem checkReference_eq_undefined_iff {place placeholder base : String} {suggestions : List String} :
    names.checkReference stepId itemName r = some (.undefinedReference place placeholder base suggestions) ↔
      (itemName ≠ some r.base ∧ names.Unknown r.base) ∧
        names.undefined stepId r = .undefinedReference place placeholder base suggestions := by
  unfold checkReference Unknown
  by_cases hitem : itemName = some r.base
  · simp [hitem]
  by_cases hgiven : names.isGiven r.base
  · simp [hgiven]
  by_cases hstep : r.base ∈ names.steps
  · cases names.order with
    | none => simp [hitem, hgiven, hstep]
    | some order => by_cases hbefore : runsBefore order r.base stepId <;> simp [hitem, hgiven, hstep, hbefore]
  · simp [hitem, hgiven, hstep]

theorem checkReference_eq_forward_iff {place placeholder target : String} :
    names.checkReference stepId itemName r = some (.forwardReference place placeholder target) ↔
      (itemName ≠ some r.base ∧ names.isGiven r.base = false ∧ r.base ∈ names.steps) ∧
        (∃ order, names.order = some order ∧ runsBefore order r.base stepId = false) ∧
        stepId = place ∧ r.placeholder = placeholder ∧ r.base = target := by
  unfold checkReference
  by_cases hitem : itemName = some r.base
  · simp [hitem]
  by_cases hgiven : names.isGiven r.base
  · simp [hgiven]
  by_cases hstep : r.base ∈ names.steps
  · cases names.order with
    | none => simp [hitem, hgiven, hstep]
    | some order =>
      by_cases hbefore : runsBefore order r.base stepId
      · simp [hitem, hgiven, hstep, hbefore]
      · simp [hitem, hgiven, hstep, hbefore]
  · simp [hitem, hgiven, hstep, undefined]

theorem runsBefore_eq_decide {order : List String} {target current : String} (ht : target ∈ order)
    (hc : current ∈ order) : runsBefore order target current = decide (order.idxOf target < order.idxOf current) := by
  obtain ⟨t, ht⟩ := Option.isSome_iff_exists.mp (List.isSome_idxOf?.mpr ht)
  obtain ⟨c, hc⟩ := Option.isSome_iff_exists.mp (List.isSome_idxOf?.mpr hc)
  simp only [runsBefore, List.idxOf_eq_getD_idxOf?, ht, hc, Option.getD_some]

/-! ### Steps and outputs -/

theorem mem_checkStep {step : Step} {x : Diagnostic} :
    x ∈ names.checkStep step ↔
      (∃ r ∈ step.paramRefs, names.checkReference step.id step.itemName? r = some x) ∨
        ∃ r ∈ step.itemRefs, names.checkReference step.id none r = some x := by
  unfold checkStep Step.itemRefs
  rw [List.mem_append, List.mem_filterMap]
  cases hb : step.batch with
  | none => simp [Step.paramRefs, Step.itemName?, hb]
  | some batch => simp [Step.paramRefs, Step.itemName?, hb]

theorem undefined_eq (names : Names) (place : String) (r : Reference) :
    ∃ suggestions, names.undefined place r = .undefinedReference place r.placeholder r.base suggestions := ⟨_, rfl⟩

/-- A reference of a step is undefined where its name is unknown; as the name of the item it is known in parameters. -/
theorem undefined_mem_checkStep {step : Step} {r : Reference} (hr : r ∈ step.paramRefs ∨ r ∈ step.itemRefs) :
    (∃ suggestions, .undefinedReference step.id r.placeholder r.base suggestions ∈ names.checkStep step) ↔
      names.Unknown r.base ∧ ((r ∈ step.paramRefs ∧ step.itemName? ≠ some r.base) ∨ r ∈ step.itemRefs) := by
  have hwritten : r = .ofExpr r.expr := hr.elim Step.ofExpr_of_mem_paramRefs Step.ofExpr_of_mem_itemRefs
  have hsame {r' : Reference} {suggestions : List String} (hr' : r' = .ofExpr r'.expr)
      (h : names.undefined step.id r' = .undefinedReference step.id r.placeholder r.base suggestions) : r' = r := by
    simp only [undefined, Diagnostic.undefinedReference.injEq] at h
    exact Reference.eq_of_placeholder_eq hr' hwritten h.2.1
  constructor
  · rintro ⟨suggestions, hmem⟩
    rcases mem_checkStep.mp hmem with ⟨r', hr', hcheck⟩ | ⟨r', hr', hcheck⟩
    · obtain ⟨⟨hitem, hunknown⟩, hshown⟩ := checkReference_eq_undefined_iff.mp hcheck
      cases hsame (Step.ofExpr_of_mem_paramRefs hr') hshown
      exact ⟨hunknown, .inl ⟨hr', hitem⟩⟩
    · obtain ⟨⟨_, hunknown⟩, hshown⟩ := checkReference_eq_undefined_iff.mp hcheck
      cases hsame (Step.ofExpr_of_mem_itemRefs hr') hshown
      exact ⟨hunknown, .inr hr'⟩
  · rintro ⟨hunknown, hplace⟩
    obtain ⟨suggestions, hshown⟩ := names.undefined_eq step.id r
    refine ⟨suggestions, mem_checkStep.mpr ?_⟩
    rcases hplace with ⟨hparam, hitem⟩ | hmem
    · exact .inl ⟨r, hparam, checkReference_eq_undefined_iff.mpr ⟨⟨hitem, hunknown⟩, hshown⟩⟩
    · exact .inr ⟨r, hmem, checkReference_eq_undefined_iff.mpr ⟨⟨nofun, hunknown⟩, hshown⟩⟩

/-- A forward reference is to a step that is not placed before the step that refers to it. -/
theorem forward_mem_checkStep {step : Step} {place placeholder target : String}
    (h : .forwardReference place placeholder target ∈ names.checkStep step) :
    place = step.id ∧ ∃ order, names.order = some order ∧ runsBefore order target step.id = false := by
  rcases mem_checkStep.mp h with ⟨r, _, hcheck⟩ | ⟨r, _, hcheck⟩
  · obtain ⟨_, ⟨order, horder, hbefore⟩, rfl, _, rfl⟩ := checkReference_eq_forward_iff.mp hcheck
    exact ⟨rfl, order, horder, hbefore⟩
  · obtain ⟨_, ⟨order, horder, hbefore⟩, rfl, _, rfl⟩ := checkReference_eq_forward_iff.mp hcheck
    exact ⟨rfl, order, horder, hbefore⟩

theorem forward_mem_checkStep_of_order {step : Step} {r : Reference} (hr : r ∈ step.paramRefs ∨ r ∈ step.itemRefs)
    (hitem : step.itemName? ≠ some r.base) (hgiven : names.isGiven r.base = false) (hstep : r.base ∈ names.steps)
    {order : List String} (horder : names.order = some order) (hbefore : runsBefore order r.base step.id = false) :
    .forwardReference step.id r.placeholder r.base ∈ names.checkStep step := by
  rw [mem_checkStep]
  rcases hr with hr | hr
  · exact .inl ⟨r, hr, checkReference_eq_forward_iff.mpr
      ⟨⟨hitem, hgiven, hstep⟩, ⟨order, horder, hbefore⟩, rfl, rfl, rfl⟩⟩
  · exact .inr ⟨r, hr, checkReference_eq_forward_iff.mpr
      ⟨⟨nofun, hgiven, hstep⟩, ⟨order, horder, hbefore⟩, rfl, rfl, rfl⟩⟩

/-- A reference of an output is checked against the same names, but not against the order of steps. -/
theorem mem_checkOutput {name : String} {spec : OutputSpec} {x : Diagnostic} :
    x ∈ names.checkOutput name spec ↔
      ∃ source, spec.source = some source ∧ ∃ r ∈ Template.extractRefs (.str source),
        names.Unknown r.base ∧ names.undefined ("outputs." ++ name) r = x := by
  unfold checkOutput Unknown
  cases spec.source with
  | none => simp
  | some source => simp [List.mem_filterMap]

end DataFlow.Names

/-! ### Documents -/

namespace Document

variable {d : Document} {external : List String}

def names (d : Document) (external : List String) : DataFlow.Names := .ofDocument d d.graph.order.toOption external

theorem names_unknown_iff {base : String} : (d.names external).Unknown base ↔ ¬ d.Knows external none base := by
  rw [DataFlow.Names.Unknown, ← Bool.not_eq_true, DataFlow.Names.isGiven_iff]
  simp [names, DataFlow.Names.ofDocument, Knows, not_or, and_assoc]

theorem knows_item_iff {itemName : Option String} {base : String} :
    d.Knows external itemName base ↔ itemName = some base ∨ d.Knows external none base := by
  simp [Knows]

theorem isAboutReference_of_checkReferences {order : Option (List String)} {x : Diagnostic}
    (h : x ∈ DataFlow.checkReferences d order external) : x.isAboutReference = true := by
  rcases List.mem_append.mp h with h | h
  · obtain ⟨step, _, hx⟩ := List.mem_flatMap.mp h
    exact DataFlow.Names.isAboutReference_of_checkStep hx
  · obtain ⟨⟨name, spec⟩, _, hx⟩ := List.mem_flatMap.mp h
    obtain ⟨_, _, r, _, _, rfl⟩ := DataFlow.Names.mem_checkOutput.mp hx
    rfl

/-- Of what is found the check of references finds all that is about references. -/
theorem filter_validate (d : Document) (external : List String) :
    (DataFlow.validate d external).filter Diagnostic.isAboutReference =
      DataFlow.checkReferences d d.graph.order.toOption external := by
  have hstdin : (DataFlow.checkStdin d).filter Diagnostic.isAboutReference = [] := by
    simp only [DataFlow.checkStdin]
    split <;> rfl
  have hreach : (DataFlow.checkReachability d).filter Diagnostic.isAboutReference = [] := by
    unfold DataFlow.checkReachability
    split
    · rfl
    · simp [List.filter_map, Function.comp_def, Diagnostic.isAboutReference]
  have hrefs := List.filter_eq_self.mpr fun x (hx : x ∈ DataFlow.checkReferences d d.graph.order.toOption external) =>
    isAboutReference_of_checkReferences hx
  simp only [DataFlow.validate, List.filter_append, hstdin, hreach, hrefs, List.nil_append, List.append_nil]
  cases d.graph.order with
  | ok order => rfl
  | error cycles => simp [List.filter_map, Function.comp_def, Diagnostic.isAboutReference]

theorem mem_validate_iff {x : Diagnostic} (hx : x.isAboutReference = true) :
    x ∈ DataFlow.validate d external ↔ x ∈ DataFlow.checkReferences d d.graph.order.toOption external := by
  rw [← filter_validate, List.mem_filter, and_iff_left hx]

theorem forward_mem_validate {place placeholder target : String}
    (h : .forwardReference place placeholder target ∈ DataFlow.validate d external) :
    ∃ order, d.graph.order = .ok order ∧ DataFlow.Names.runsBefore order target place = false := by
  rw [mem_validate_iff rfl] at h
  rcases List.mem_append.mp h with h | h
  · obtain ⟨step, _, hx⟩ := List.mem_flatMap.mp h
    obtain ⟨rfl, order, horder, hbefore⟩ := DataFlow.Names.forward_mem_checkStep hx
    cases hgraph : d.graph.order with
    | error cycles =>
      simp only [DataFlow.Names.ofDocument, hgraph] at horder
      cases horder
    | ok placed =>
      simp only [DataFlow.Names.ofDocument, hgraph] at horder
      cases horder
      exact ⟨_, rfl, hbefore⟩
  · obtain ⟨⟨name, spec⟩, _, hx⟩ := List.mem_flatMap.mp h
    obtain ⟨_, _, r, _, _, hshown⟩ := DataFlow.Names.mem_checkOutput.mp hx
    cases hshown

/-- All that is said about references: which names are unknown, in which scope, and which steps come too late. -/
structure ReferencesJudged (d : Document) (external : List String) : Prop where
  /-- Findings about references are those of the steps, each step in its place, and then those of the outputs. -/
  found : (DataFlow.validate d external).filter Diagnostic.isAboutReference =
    d.steps.flatMap (d.names external).checkStep ++
      d.outputs.flatMap fun (name, spec) => (d.names external).checkOutput name spec
  undefined : ∀ step ∈ d.steps, ∀ r, r ∈ step.paramRefs ∨ r ∈ step.itemRefs →
    ((∃ suggestions, .undefinedReference step.id r.placeholder r.base suggestions ∈
        (d.names external).checkStep step) ↔
      (r ∈ step.paramRefs ∧ ¬ d.Knows external step.itemName? r.base) ∨
        (r ∈ step.itemRefs ∧ ¬ d.Knows external none r.base))
  forward : d.Acyclic → ∀ step ∈ d.steps, ∀ r, r ∈ step.paramRefs ∨ r ∈ step.itemRefs →
    r.base ∈ d.stepIds → r.base ∉ Assoc.keys d.inputs → r.base ∉ external →
      (ReflTransGen d.Leads step.id r.base →
        .forwardReference step.id r.placeholder r.base ∈ DataFlow.validate d external) ∧
      (TransGen d.Leads r.base step.id →
        .forwardReference step.id r.placeholder r.base ∉ DataFlow.validate d external)
  unordered : ¬ d.Acyclic → ∀ stepId placeholder target,
    .forwardReference stepId placeholder target ∉ DataFlow.validate d external
  outputs : ∀ name spec source, (name, spec) ∈ d.outputs → spec.source = some source →
    ∀ r ∈ Template.extractRefs (.str source),
      ((∃ suggestions, .undefinedReference ("outputs." ++ name) r.placeholder r.base suggestions ∈
          (d.names external).checkOutput name spec) ↔ ¬ d.Knows external none r.base)

/-- Every finding about a reference is right, and none is missing. -/
theorem references_judged (h : d.checkIdentity = .ok ()) (external : List String) : d.ReferencesJudged external := by
  have hnodup := stepIds_nodup h
  obtain ⟨hexists, hfirst, _, _⟩ := order_is_first d hnodup
  refine ⟨filter_validate d external, ?_, ?_, ?_, ?_⟩
  · intro step _ r hr
    have hitem : d.Knows external step.itemName? r.base ↔ _ := knows_item_iff
    rw [DataFlow.Names.undefined_mem_checkStep hr, names_unknown_iff, hitem, not_or]
    tauto
  · intro hacyclic step hstep r hr hbase hinput hexternal
    obtain ⟨order, horder⟩ := hexists.mpr hacyclic
    have harranges := (hfirst order horder).toArranges
    have hmem : ∀ {id}, id ∈ d.stepIds → id ∈ order := fun hid => harranges.perm.mem_iff.mpr hid
    have hid : step.id ∈ d.stepIds := List.mem_map_of_mem hstep
    have hbefore := DataFlow.Names.runsBefore_eq_decide (hmem hbase) (hmem hid)
    constructor
    · intro hreach
      rw [mem_validate_iff rfl]
      refine List.mem_append_left _ (List.mem_flatMap.mpr ⟨step, hstep, ?_⟩)
      have hitem : step.itemName? ≠ some r.base := by
        intro hitem
        obtain ⟨batch, hbatch, hname⟩ := Option.map_eq_some_iff.mp hitem
        exact itemName_ne h hstep hbatch hbase hname
      have hgiven : (d.names external).isGiven r.base = false := by
        rw [← Bool.not_eq_true, DataFlow.Names.isGiven_iff]
        exact fun hgiven => hgiven.elim hinput hexternal
      have horder' : (d.names external).order = some order := by
        simp [names, DataFlow.Names.ofDocument, horder, Except.toOption]
      refine DataFlow.Names.forward_mem_checkStep_of_order hr hitem hgiven hbase horder' ?_
      rw [hbefore, decide_eq_false_iff_not, Nat.not_lt]
      exact harranges.idxOf_le hreach
    · intro hreach hforward
      obtain ⟨order', horder', hlate⟩ := forward_mem_validate hforward
      rw [horder] at horder'
      cases horder'
      rw [hbefore, decide_eq_false_iff_not] at hlate
      exact hlate (harranges.idxOf_lt hreach)
  · intro hcyclic stepId placeholder target hmem
    obtain ⟨order, horder, _⟩ := forward_mem_validate hmem
    exact hcyclic (hexists.mp ⟨order, horder⟩)
  · intro name spec source _ hsource r hr
    rw [← names_unknown_iff]
    constructor
    · rintro ⟨suggestions, hmem⟩
      obtain ⟨source', hsource', r', hr', hunknown, hshown⟩ := DataFlow.Names.mem_checkOutput.mp hmem
      simp only [DataFlow.Names.undefined, Diagnostic.undefinedReference.injEq] at hshown
      exact hshown.2.2.1 ▸ hunknown
    · intro hunknown
      obtain ⟨suggestions, hshown⟩ := (d.names external).undefined_eq ("outputs." ++ name) r
      exact ⟨suggestions, DataFlow.Names.mem_checkOutput.mpr ⟨source, hsource, r, hr, hunknown, hshown⟩⟩

end Document

/-- A draft that refers to its topic, to an item and, too early, to the check that follows it. -/
def proofreadDocument : Document where
  version := "1"
  name := none
  start := none
  steps :=
    [⟨"draft", "echo", none, [("text", .str "$\x7btopic\x7d: $\x7bitem\x7d, $\x7bcheck.note\x7d")],
      some ⟨"$\x7bitem\x7d", "item", .failFast⟩⟩,
      ⟨"check", "echo", none, [("text", .str "$\x7bdraft\x7d against $\x7bcheck\x7d")], none⟩]
  edges := [⟨"draft", "check", none⟩]
  inputs := [("topic", ⟨.any, "", true, none, false⟩)]
  outputs := [("result", ⟨.any, "", some "$\x7bfinal\x7d of $\x7bdraft\x7d"⟩)]
  mode := .strict

theorem references_judged_proofread :
    proofreadDocument.checkIdentity = .ok () ∧ proofreadDocument.ReferencesJudged [] ∧
      (DataFlow.validate proofreadDocument []).map Diagnostic.stepId? =
        [some "draft", some "draft", some "check", some "outputs.result"] := by
  have hidentity : proofreadDocument.checkIdentity = .ok () := by decide +kernel
  exact ⟨hidentity, Document.references_judged hidentity [], by decide +kernel⟩

end Workflow
