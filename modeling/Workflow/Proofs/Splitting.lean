import Workflow.Proofs.Parameters

/-! A plan sorts the parameters of a step before anything runs: literals are kept for the leaf, and the others are
resolved anew for every call. The leaf cannot tell that from parameters that are all resolved at the call. -/

namespace Workflow

/-! ### Values without references -/

namespace Template

/-- A text without a reference is one literal token, unless it is empty and has no token at all. -/
theorem tokenizeChars_of_plain {cs : List Char} (h : occursInChars cs = false) :
    tokenizeChars cs = if cs.isEmpty then [] else [.literal cs] := by
  fun_induction tokenizeChars cs with
  | case1 => rfl
  | case2 rest expr after hscan _ _ =>
    -- a reference has been read, so the text is not plain
    simp [occursInChars, hscan] at h
  | case3 rest hscan ih =>
    simp only [occursInChars, hscan] at h
    rw [ih (by simpa using h)]
    rfl
  | case4 c rest hne ih =>
    rw [occursInChars] at h
    · rw [ih h]
      cases rest <;> rfl
    · exact hne

end Template

namespace Scope

variable (scope : Scope)

theorem resolveText_of_plain {text : String} (h : Template.hasTemplate text = false) :
    scope.resolveText text = ⟨.str text, []⟩ := by
  have htokens : Template.tokenize text = if text.toList.isEmpty then [] else [.literal text.toList] :=
    Template.tokenizeChars_of_plain h
  by_cases hempty : text = ""
  · subst hempty
    simp [resolveText, missingIn, Template.textRefs, Template.tokenize, Template.tokenizeChars]
  · have hliteral : Template.tokenize text = [.literal text.toList] := by
      rw [htokens, if_neg (by simpa using hempty)]
    simp [resolveText, missingIn, Template.textRefs, hliteral, Template.Token.reference?, tokenText]

/-- A value without references is resolved to itself, at every depth. -/
theorem resolve_of_plain (depth : Nat) {v : Json} (h : Template.valueHasTemplate v = false) :
    scope.resolve depth v = ⟨v, []⟩ := by
  induction depth generalizing v with
  | zero =>
    cases v with
    | str text => exact scope.resolveText_of_plain h
    | _ => rfl
  | succ depth ih =>
    cases v with
    | str text => exact scope.resolveText_of_plain h
    | arr items =>
      have hitems : scope.resolveItems depth items = (items, []) := by
        rw [Template.valueHasTemplate] at h
        induction items with
        | nil => rfl
        | cons w rest ihrest =>
          rw [Template.itemsHaveTemplate, Bool.or_eq_false_iff] at h
          rw [resolveItems, ih h.1, ihrest h.2]
          rfl
      rw [resolve, hitems]
    | obj fields =>
      have hfields : scope.resolveFields depth fields = (fields, []) := by
        rw [Template.valueHasTemplate] at h
        induction fields with
        | nil => rfl
        | cons e rest ihrest =>
          obtain ⟨k, w⟩ := e
          rw [Template.fieldsHaveTemplate, Bool.or_eq_false_iff] at h
          rw [resolveFields, ih h.1, ihrest h.2]
          rfl
      rw [resolve, hfields]
    | _ => rfl

end Scope

/-! ### What the unit is prepared with -/

/-- What the unit of a step is to be prepared with: exactly the parameters that the step declares, each once, verbatim
ones as they are written and all others resolved. -/
structure Step.Receives (step : Step) (interface : Interface) (depth : Nat) (scope : Scope) (params : Fields) :
    Prop where
  keys : (Assoc.keys params).Perm (Assoc.keys step.params)
  verbatim : ∀ key v, (key, v) ∈ step.params → interface.isVerbatim key = true → Assoc.get? params key = some v
  resolved : ∀ key v, (key, v) ∈ step.params → interface.isVerbatim key = false →
    Assoc.get? params key = some (scope.resolve depth v).value

namespace Plan

variable {options : PlanOptions} {step : Step} {entry : RegistryEntry}

/-- The templated parameters of a step as they are resolved for a call. -/
def resolvedTemplates (options : PlanOptions) (step : Step) (entry : RegistryEntry) (scope : Scope) : Fields :=
  (pipelineOf options step entry).templated.map fun e =>
    (e.1, (scope.resolve options.limits.maxTemplateDepth e.2).value)

/-- Sorting the parameters loses none of them and makes none up. -/
theorem split_keys_perm (scope : Scope) :
    (Assoc.keys ((pipelineOf options step entry).literals ++ resolvedTemplates options step entry scope)).Perm
      (Assoc.keys step.params) := by
  simp only [resolvedTemplates, pipelineOf, List.partition_eq_filter_filter, Assoc.keys, List.map_append, List.map_map,
    Function.comp_def]
  rw [← List.map_append]
  exact (List.perm_append_comm.trans (List.filter_append_perm _ _)).map _

/-- The parameters that reach the leaf are the literals and, after them, the resolved templates. -/
theorem handed_split {call : Call} (hempty : call.params = []) (hn : (Assoc.keys step.params).Nodup) {params : Fields}
    {context : Context} (h : (pipelineOf options step entry).handed call = .ok (params, context)) :
    params = (pipelineOf options step entry).literals ++ resolvedTemplates options step entry call.scope := by
  have hall : (Assoc.keys ((pipelineOf options step entry).literals ++
      resolvedTemplates options step entry call.scope)).Nodup := (split_keys_perm call.scope).nodup_iff.mpr hn
  -- so neither step of putting the two parts together overwrites anything
  have htemplates : (Assoc.keys (resolvedTemplates options step entry call.scope)).Nodup :=
    hall.sublist ((List.sublist_append_right _ _).map Prod.fst)
  obtain ⟨inner, hinner, rfl, _⟩ := Pipeline.handed_eq_ok h
  have hinner : inner.params = Assoc.putAll [] (resolvedTemplates options step entry call.scope) := by
    rw [Pipeline.leafCall_eq_settled hinner, Pipeline.settled, hempty]
    rfl
  have hresolved : Assoc.putAll [] (resolvedTemplates options step entry call.scope) =
      resolvedTemplates options step entry call.scope := Assoc.putAll_eq_append htemplates
  rw [hinner, hresolved, Assoc.putAll_eq_append hall]

theorem receives_of_handed {call : Call} (hempty : call.params = []) (hn : (Assoc.keys step.params).Nodup)
    {params : Fields} {context : Context} (h : (pipelineOf options step entry).handed call = .ok (params, context)) :
    step.Receives entry.interface options.limits.maxTemplateDepth call.scope params := by
  have hkeys : (Assoc.keys params).Perm (Assoc.keys step.params) := by
    rw [handed_split hempty hn h]
    exact split_keys_perm call.scope
  have hparams : (Assoc.keys params).Nodup := hkeys.nodup_iff.mpr hn
  refine ⟨hkeys, ?_, ?_⟩
  · intro key v hv hverbatim
    refine Assoc.get?_of_mem hparams ?_
    rw [handed_split hempty hn h]
    refine List.mem_append_left _ ?_
    simp [pipelineOf, List.partition_eq_filter_filter, hv, hverbatim]
  · intro key v hv hplain
    refine Assoc.get?_of_mem hparams ?_
    rw [handed_split hempty hn h]
    cases htemplate : Template.valueHasTemplate v with
    | true =>
      refine List.mem_append_right _ (List.mem_map.mpr ⟨(key, v), ?_, rfl⟩)
      exact mem_templated.mpr ⟨hv, htemplate, hplain⟩
    | false =>
      rw [Scope.resolve_of_plain _ _ htemplate]
      refine List.mem_append_left _ ?_
      simp [pipelineOf, List.partition_eq_filter_filter, hv, htemplate]

/-- A parameter that is one reference reaches the leaf as the value referred to. -/
theorem get?_handed {call : Call} (hempty : call.params = []) (hn : (Assoc.keys step.params).Nodup) {params : Fields}
    {context : Context} (h : (pipelineOf options step entry).handed call = .ok (params, context)) {key text : String}
    (hv : (key, .str text) ∈ step.params) (hplain : entry.interface.isVerbatim key = false) {r : Reference}
    (hsimple : Template.simpleReference text = some r) {w : Json} (hw : call.scope.lookup? r = some w) :
    Assoc.get? params key = some w := by
  rw [(receives_of_handed hempty hn h).resolved key _ hv hplain, Scope.resolve_simpleReference _ _ hsimple, hw]
  rfl

end Plan

end Workflow
