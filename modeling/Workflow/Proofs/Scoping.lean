import Workflow.Proofs.History

/-! Which references may find nothing. A plan is built only if every reference begins with a name that is known: an
input, a parameter, a step, or the item of the own batch. Since no key ever disappears from the data of a run, a name
that was there once is there whenever a step refers to it. -/

namespace Workflow

/-! ### Keys -/

namespace Context

def KeepsKeys (c c' : Context) : Prop :=
  ∀ key, isReserved key = false → key ∈ Assoc.keys c.data → key ∈ Assoc.keys c'.data

theorem mem_keys_insert (c : Context) {key : String} (hkey : isReserved key = false) (v : Json) :
    key ∈ Assoc.keys (c.insert key v).data := by
  rw [← Assoc.get?_isSome_iff, get?_insert _ _ _ hkey, if_pos rfl]
  rfl

theorem mem_keys_commit (c : Context) {stepId : String} (hid : isReserved stepId = false) (values : Fields) :
    stepId ∈ Assoc.keys (c.commit stepId values).data := by
  rw [← Assoc.get?_isSome_iff, get?_commit _ _ _ hid, if_pos rfl]
  rfl

theorem mem_keys_withoutReserved {data : Fields} {key : String} (hkey : isReserved key = false)
    (hmem : key ∈ Assoc.keys data) : key ∈ Assoc.keys (withoutReserved data) := by
  rw [← Assoc.get?_isSome_iff] at hmem ⊢
  rw [get?_withoutReserved hkey]
  exact hmem

theorem keepsKeys_kept : Kept KeepsKeys where
  refl _ _ _ hmem := hmem
  trans h h' key hkey hmem := h' key hkey (h key hkey hmem)
  warn _ _ _ _ hmem := hmem
  insert c k v key hkey hmem := by
    rw [← Assoc.get?_isSome_iff] at hmem ⊢
    rw [get?_insert _ _ _ hkey]
    split
    · rfl
    · exact hmem
  noted _ _ _ _ _ hmem := hmem

end Context

open Context (KeepsKeys keepsKeys_kept)

/-! ### Steps -/

theorem batchLayer_leaves_id {stepId : String} {batch : Batch} {maxErrors : Nat} {inner : Layer} {call : Call}
    (hid : isReserved stepId = false) (h : ∀ fault, (batchLayer stepId batch maxErrors inner call).1 ≠ .aborted fault) :
    stepId ∈ Assoc.keys (batchLayer stepId batch maxErrors inner call).2.data := by
  unfold batchLayer at h ⊢
  cases hi : resolveItems stepId batch call with
  | error fault =>
    simp only [hi] at h
    exact absurd rfl (h fault)
  | ok resolved =>
    simp only [hi] at h ⊢
    split
    · exact Context.mem_keys_insert _ hid _
    · rename_i heq
      simp only [heq] at h
      exact absurd rfl (h _)
    · exact Context.mem_keys_commit _ hid _

/-- A step that does not abort leaves something under its id. -/
theorem Pipeline.layer_leaves_id {p : Pipeline} {unit : LeafUnit} {call : Call} (hid : isReserved p.stepId = false)
    (h : ∀ fault, (p.layer unit call).1 ≠ .aborted fault) : p.stepId ∈ Assoc.keys (p.layer unit call).2.data := by
  obtain ⟨journal, _, heq⟩ := layer_eq p unit call
  rw [heq] at h ⊢
  cases hb : p.batch with
  | none =>
    rw [body_single unit hb, attempt] at h ⊢
    unfold namespaceLayer at h ⊢
    split
    · exact Context.mem_keys_commit _ hid _
    · exact Context.mem_keys_insert _ hid _
    · rename_i hcore
      simp only [hcore] at h
      exact absurd rfl (h _)
  | some batch =>
    rw [body_batch unit hb] at h ⊢
    exact batchLayer_leaves_id hid h

/-! ### Workflow steps -/

namespace Host

variable {host : Host} {limits : Limits} {level : Level} {run : Level → Report}

/-- A workflow step that executed has run a child, and was handed what its report holds. -/
theorem child_of_executed {p : Pipeline} {a : Call} (hw : p.implementation = .subworkflow) {params : Fields}
    {context : Context} (hhanded : p.handed a = .ok (params, context)) {prepared executed : Json}
    (hprepared : (host.unitOf run p).prepare params context = .ok prepared)
    (hexecuted : (host.unitOf run p).attempt prepared = .ok executed) :
    ∃ i child, Subworkflow.invocation host.files p.site params context = .ok i ∧ prepared = i.toJson ∧
      host.child? p a = some (.ok child) ∧ child.context.data = Context.withoutReserved i.data ∧
      executed = Subworkflow.childResult (run child) := by
  obtain ⟨inner, hinner, rfl, rfl⟩ := Pipeline.handed_eq_ok hhanded
  rw [unitOf, hw, unitsOver] at hprepared hexecuted
  rw [Subworkflow.unit_attempt] at hexecuted
  simp only [Subworkflow.unit] at hprepared hexecuted
  cases hi : Subworkflow.invocation host.files p.site (Assoc.putAll p.literals inner.params) inner.context with
  | error fault =>
    rw [hi] at hprepared
    cases hprepared
  | ok i =>
    rw [hi] at hprepared
    cases hprepared
    simp only [Subworkflow.read_of_invocation hi, Subworkflow.runChild] at hexecuted
    cases ho : Subworkflow.openLevel host.registry p.site i with
    | error fault =>
      rw [ho] at hexecuted
      cases hexecuted
    | ok child =>
      simp only [ho] at hexecuted
      have hopened : host.opened p inner = .ok child := by
        rw [opened_eq]
        exact bind_eq_ok.mpr ⟨i, hi, ho⟩
      refine ⟨i, child, rfl, rfl, ?_, Subworkflow.openLevel_data ho, (Subworkflow.judge_eq_ok hexecuted).2⟩
      simp only [child?, hw, hinner, hopened]

/-- What a child in shared mode hands back still has the keys that its caller had. -/
theorem subworkflow_keepsKeys {p : Pipeline} {a : Call} (hw : p.implementation = .subworkflow)
    (hchild : ∀ child, host.child? p a = some (.ok child) → KeepsKeys child.context (run child).context) :
    KeepsKeys a.context (p.core (host.unitOf run p) a).2 := by
  refine Pipeline.core_keeps_of_phases keepsKeys_kept.toCarried ?_
  intro params context prepared executed hhanded hprepared hexecuted key hkey hmem
  obtain ⟨i, child, hi, rfl, hopened, hstart, rfl⟩ := child_of_executed hw hhanded hprepared hexecuted
  have hfinish := (Subworkflow.finish_data p.site.stepId context i.toJson (Subworkflow.childResult (run child))).1
  have hunit : (host.unitOf run p).finalize context i.toJson (Subworkflow.childResult (run child)) =
      ((Subworkflow.finish p.site.stepId context i.toJson (Subworkflow.childResult (run child))).1,
        .ok (Subworkflow.finish p.site.stepId context i.toJson (Subworkflow.childResult (run child))).2) := by
    rw [unitOf, hw]
    rfl
  rw [hunit, hfinish]
  split
  · rename_i hshared
    obtain ⟨mapping, _, hdata, _⟩ := (Subworkflow.prepares_of_invocation hi).mapping
    rw [Subworkflow.shared_of_written hshared] at hdata
    have hcaller : key ∈ Assoc.keys child.context.data := by
      rw [hstart, hdata]
      exact Context.mem_keys_withoutReserved hkey hmem
    exact Context.mem_keys_withoutReserved hkey (hchild child hopened key hkey hcaller)
  · exact hmem

end Host

namespace Level

variable {host : Host} {limits : Limits} {level : Level} {run : Level → Report}

theorem visit_keepsKeys (hreg : host.registry.Keeps KeepsKeys) (hb : level.Built host limits)
    (hchildren : ∀ child, host.Opens run level child → KeepsKeys child.context (run child).context) {v : Visit}
    (hv : v ∈ (level.run (host.unitsOver run)).visits) : KeepsKeys v.before v.after := by
  obtain ⟨p, hp, _⟩ := visit_eq hv
  obtain ⟨step, entry, hd⟩ := hb.declares hp
  refine visit_keeps keepsKeys_kept hv hp fun a ha => ?_
  cases hw : p.implementation with
  | leaf make =>
    rw [← hw]
    exact Pipeline.core_keeps keepsKeys_kept.toCarried (Host.unitOf_keeps_of_leaf hreg hd hw) a
  | subworkflow =>
    rw [← hw]
    exact Host.subworkflow_keepsKeys hw fun child hchild => hchildren child ⟨v, hv, p, hp, a, ha, hchild⟩

/-- From the beginning of a level to its end no key disappears. -/
theorem run_keepsKeys {units : UnitMaker} (h : ∀ v ∈ (level.run units).visits, KeepsKeys v.before v.after) :
    KeepsKeys level.context (level.run units).context ∧
      ∀ v ∈ (level.run units).visits,
        KeepsKeys level.context v.before ∧ KeepsKeys v.after (level.run units).context :=
  run_keeps keepsKeys_kept (fun _ _ _ _ hmem => hmem) h

end Level

/-- However many levels are left, a level leaves its keys. -/
theorem Host.runWithin_keepsKeys {host : Host} {limits : Limits} (hreg : host.registry.Keeps KeepsKeys) (levels : Nat)
    {level : Level} (hb : level.Built host limits) : KeepsKeys level.context (host.runWithin levels level).context := by
  induction levels generalizing level with
  | zero => exact keepsKeys_kept.refl _
  | succ levels ih =>
    refine (Level.run_keepsKeys fun v hv => ?_).1
    exact Level.visit_keepsKeys hreg hb (fun child hopens => ih (hopens.built hb)) hv

/-! ### Names -/

/-- A reference may begin with the item name in scope, an input, an external name or a step. -/
def Document.Knows (d : Document) (external : List String) (itemName : Option String) (base : String) : Prop :=
  itemName = some base ∨ base ∈ Assoc.keys d.inputs ∨ base ∈ external ∨ base ∈ d.stepIds

def Diagnostic.isAboutReference : Diagnostic → Bool
  | .forwardReference .. | .undefinedReference .. => true
  | _ => false

/-- Everything that is found wrong with a reference is an error. -/
theorem Diagnostic.isError_of_isAboutReference {x : Diagnostic} (h : x.isAboutReference = true) : x.isError = true := by
  cases x with
  | forwardReference | undefinedReference => rfl
  | cycle | multipleStdin | unreachable => cases h

namespace DataFlow.Names

theorem isGiven_iff {names : Names} {base : String} :
    names.isGiven base = true ↔ base ∈ names.inputs ∨ base ∈ names.external := by
  simp [isGiven]

theorem checkReference_eq_none {names : Names} {stepId : String} {itemName : Option String} {r : Reference}
    (h : names.checkReference stepId itemName r = none) :
    itemName = some r.base ∨ r.base ∈ names.inputs ∨ r.base ∈ names.external ∨ r.base ∈ names.steps := by
  unfold checkReference at h
  split at h
  · rename_i hgiven
    simp only [isGiven_iff, Bool.or_eq_true, decide_eq_true_eq] at hgiven
    rcases hgiven with hitem | hinput | hexternal
    · exact .inl hitem
    · exact .inr (.inl hinput)
    · exact .inr (.inr (.inl hexternal))
  · split at h
    · rename_i hstep
      exact .inr (.inr (.inr (List.contains_iff_mem.mp hstep)))
    · cases h

theorem isAboutReference_of_checkReference {names : Names} {stepId : String} {itemName : Option String} {r : Reference}
    {x : Diagnostic} (h : names.checkReference stepId itemName r = some x) : x.isAboutReference = true := by
  unfold checkReference at h
  split at h
  · cases h
  · split at h
    · split at h
      · cases h
      · split at h
        · cases h
        · cases h
          rfl
    · cases h
      rfl

theorem isAboutReference_of_checkStep {names : Names} {step : Step} {x : Diagnostic} (h : x ∈ names.checkStep step) :
    x.isAboutReference = true := by
  unfold checkStep at h
  rcases List.mem_append.mp h with h | h
  · obtain ⟨r, _, hr⟩ := List.mem_filterMap.mp h
    exact isAboutReference_of_checkReference hr
  · split at h
    · exact absurd h List.not_mem_nil
    · obtain ⟨r, _, hr⟩ := List.mem_filterMap.mp h
      exact isAboutReference_of_checkReference hr

end DataFlow.Names

namespace Plan

variable {registry : Registry} {options : PlanOptions} {d : Document} {plan : Plan}

theorem checkStep_of_validate {seen : Document} {external : List String} {soft : List Warning}
    (h : validate seen external = .ok soft) {step : Step} (hstep : step ∈ seen.steps) :
    (DataFlow.Names.ofDocument seen seen.graph.order.toOption external).checkStep step = [] := by
  rw [List.eq_nil_iff_forall_not_mem]
  intro x hx
  have hfound : x ∈ DataFlow.validate seen external := by
    simp only [DataFlow.validate, DataFlow.checkReferences, List.mem_append, List.mem_flatMap]
    exact .inl (.inr (.inl ⟨step, hstep, hx⟩))
  have hclean := (validate_eq_ok_iff.mp h).1 x hfound
  rw [Diagnostic.isError_of_isAboutReference (DataFlow.Names.isAboutReference_of_checkStep hx)] at hclean
  cases hclean

/-- A plan is built only if its references begin with names that are known. Items are named in parameters alone. -/
theorem references_known (hb : build registry options d = .ok plan) {step : Step} (hstep : step ∈ d.steps)
    {entry : RegistryEntry} (hkind : Assoc.get? registry step.kind = some entry) :
    (∀ key value, (key, value) ∈ step.params → entry.interface.isVerbatim key = false →
      ∀ r ∈ Template.allRefs value, d.Knows options.external (step.batch.map Batch.itemName) r.base) ∧
    ∀ batch, step.batch = some batch → ∀ r ∈ Template.textRefs batch.items, d.Knows options.external none r.base := by
  obtain ⟨s, hs, _⟩ := build_eq_ok_iff.mp hb
  have hknown (itemName : Option String) (r : Reference)
      (h : (DataFlow.Names.ofDocument (view registry d) (view registry d).graph.order.toOption
        options.external).checkReference step.id itemName r = none) : d.Knows options.external itemName r.base := by
    have hcases := DataFlow.Names.checkReference_eq_none h
    rw [DataFlow.Names.ofDocument, view_stepIds] at hcases
    exact hcases
  have hclean := checkStep_of_validate hs.valid (List.mem_map_of_mem hstep)
  unfold DataFlow.Names.checkStep at hclean
  obtain ⟨hparams, hitems⟩ := List.append_eq_nil_iff.mp hclean
  refine ⟨?_, ?_⟩
  · intro key value hmem hplain r hr
    refine hknown _ r (List.filterMap_eq_nil_iff.mp hparams r (List.mem_eraseDups.mpr ?_))
    refine Template.mem_fieldRefs (List.mem_filter.mpr ⟨hmem, ?_⟩) hr
    simp [Registry.interface?, hkind, hplain]
  · intro batch hbatch r hr
    simp only [hbatch] at hitems
    exact hknown none r (List.filterMap_eq_nil_iff.mp hitems r (List.mem_eraseDups.mpr hr))

end Plan

/-! ### Bindings -/

theorem mem_keys_addDefaults (inputs : Assoc InputSpec) {params : Fields} {key : String}
    (h : key ∈ Assoc.keys params) : key ∈ Assoc.keys (addDefaults inputs params) := by
  obtain ⟨added, hadded, _⟩ := addDefaults_eq_append inputs params
  rw [hadded, Assoc.keys, List.map_append]
  exact List.mem_append_left _ h

theorem default_bound {inputs : Assoc InputSpec} {key : String} {spec : InputSpec} (h : (key, spec) ∈ inputs) {v : Json}
    (hv : spec.default = some v) (params : Fields) : key ∈ Assoc.keys (addDefaults inputs params) := by
  induction inputs generalizing params with
  | nil => exact absurd h List.not_mem_nil
  | cons e rest ih =>
    unfold addDefaults
    rw [List.foldl_cons]
    rcases List.mem_cons.mp h with rfl | h
    · refine mem_keys_addDefaults rest ?_
      simp only [hv]
      split
      · rename_i hgiven
        exact (Assoc.get?_isSome_iff _ _).mp hgiven
      · exact (Assoc.mem_keys_put _ _ _ _).mpr (.inl rfl)
    · exact ih h _

theorem mem_keys_bindings {inputs : Assoc InputSpec} {params bindings : Fields}
    (h : bindInputs inputs params = .ok bindings) {key : String} (hkey : key ∈ Assoc.keys params) :
    key ∈ Assoc.keys bindings := by
  rw [(bindInputs_eq_ok h).2]
  exact mem_keys_addDefaults inputs hkey

/-- What has no value once inputs are bound was not given, has no default and is not required. -/
theorem optional_of_unbound {inputs : Assoc InputSpec} {params bindings : Fields}
    (h : bindInputs inputs params = .ok bindings) {key : String} {spec : InputSpec} (hmem : (key, spec) ∈ inputs)
    (habsent : key ∉ Assoc.keys bindings) :
    spec.required = false ∧ spec.default = none ∧ key ∉ Assoc.keys params := by
  obtain ⟨hmissing, rfl⟩ := bindInputs_eq_ok h
  have hgiven : key ∉ Assoc.keys params := fun hkey => habsent (mem_keys_addDefaults inputs hkey)
  have hdefault : spec.default = none := by
    cases hv : spec.default with
    | none => rfl
    | some v => exact absurd (default_bound hmem hv params) habsent
  refine ⟨?_, hdefault, hgiven⟩
  rw [missingInputs, List.map_eq_nil_iff, List.filter_eq_nil_iff] at hmissing
  have hrequired := hmissing _ hmem
  have hnotgiven : Assoc.contains params key = false := by
    rw [Assoc.contains, ← Bool.not_eq_true, Assoc.get?_isSome_iff]
    exact hgiven
  simpa [hnotgiven, hdefault] using hrequired

/-! ### Scopes -/

/-- What may be missing when a step is taken after others: an optional input that has no default and was not given, and
a step that was not taken. -/
def Document.MayLack (d : Document) (params : Fields) (taken : List Visit) (base : String) : Prop :=
  (∃ spec, (base, spec) ∈ d.inputs ∧ spec.required = false ∧ spec.default = none ∧ base ∉ Assoc.keys params) ∨
    base ∈ d.stepIds ∧ base ∉ taken.map Visit.stepId

/-- A reference finds what it begins with, unless that may be missing. -/
def Scope.Serves (scope : Scope) (mayLack : String → Prop) (r : Reference) : Prop :=
  isReserved r.base = false → scope.root? r.base = none → mayLack r.base

/-- The references of a step are served: those of its parameters, verbatim ones apart, by the scope of every attempt,
and those of its batch by the scope that the batch is taken up with. -/
structure Step.Served (step : Step) (interface : Interface) (mayLack : String → Prop) (call : Call)
    (attempts : List Call) : Prop where
  params : ∀ a ∈ attempts, ∀ key value, (key, value) ∈ step.params → interface.isVerbatim key = false →
    ∀ r ∈ Template.allRefs value, a.scope.Serves mayLack r
  items : ∀ batch, step.batch = some batch → ∀ r ∈ Template.textRefs batch.items, call.scope.Serves mayLack r

namespace Scope

theorem root?_eq_none_iff {scope : Scope} {base : String} :
    scope.root? base = none ↔ base ∉ Assoc.keys scope.bindings ∧ base ∉ Assoc.keys scope.data := by
  rw [root?, Option.or_eq_none_iff, ← Assoc.get?_isSome_iff, ← Assoc.get?_isSome_iff, Option.not_isSome_iff_eq_none,
    Option.not_isSome_iff_eq_none]

/-- A scope serves every known name, once it has the given parameters and the steps that were taken. -/
theorem serves_of_knows {scope : Scope} {d : Document} {params bindings : Fields} {external : List String}
    {itemName : Option String} {taken : List Visit} (hbind : bindInputs d.inputs params = .ok bindings)
    (hbindings : ∀ key ∈ Assoc.keys bindings, key ∈ Assoc.keys scope.bindings)
    (hitem : ∀ name, itemName = some name → name ∈ Assoc.keys scope.bindings)
    (hexternal : ∀ name ∈ external, isReserved name = false →
      name ∈ Assoc.keys params ∨ name ∈ Assoc.keys scope.data)
    (htaken : ∀ u ∈ taken, isReserved u.stepId = false → u.stepId ∈ Assoc.keys scope.data) {r : Reference}
    (h : d.Knows external itemName r.base) : scope.Serves (d.MayLack params taken) r := by
  intro hfree hnone
  obtain ⟨hunbound, habsent⟩ := root?_eq_none_iff.mp hnone
  rcases h with h | h | h | h
  · exact absurd (hitem r.base h) hunbound
  · obtain ⟨⟨key, spec⟩, hmem, rfl⟩ := List.mem_map.mp h
    exact .inl ⟨spec, hmem, optional_of_unbound hbind hmem fun hkey => hunbound (hbindings _ hkey)⟩
  · rcases hexternal r.base h hfree with h | h
    · exact absurd (hbindings _ (mem_keys_bindings hbind h)) hunbound
    · exact absurd h habsent
  · refine .inr ⟨h, fun hmem => ?_⟩
    obtain ⟨u, hu, hid⟩ := List.mem_map.mp hmem
    exact habsent (hid ▸ htaken u hu (hid ▸ hfree))

end Scope

namespace Level

variable {host : Host} {options : PlanOptions} {d : Document} {level : Level} {units : UnitMaker}

/-- A step that was taken has left something under its id wherever a later step is taken. -/
theorem mem_keys_of_taken (hb : Plan.build host.registry options d = .ok level.plan)
    (hkeeps : ∀ v ∈ (level.run units).visits, KeepsKeys v.before v.after) {taken rest : List Visit} {v : Visit}
    (hv : (level.run units).visits = taken ++ v :: rest) {u : Visit} (hu : u ∈ taken)
    (hid : isReserved u.stepId = false) : u.stepId ∈ Assoc.keys v.before.data := by
  have hlater := visits_pairwise keepsKeys_kept.toCarried hkeeps
  rw [hv, List.pairwise_append] at hlater
  obtain ⟨hgoes, hkept⟩ := hlater.2.2 u hu v List.mem_cons_self
  have hvisited : u ∈ (level.run units).visits := by
    rw [hv]
    exact List.mem_append_left _ hu
  obtain ⟨p, hp, _⟩ := visit_eq hvisited
  obtain ⟨step, _, entry, hstepId, _, rfl⟩ := Plan.pipeline?_eq_some hb hp
  have hlayer := visit_layer hvisited hp
  have hsame : (Plan.pipelineOf options step entry).stepId = u.stepId := hstepId
  have hleaves := @Pipeline.layer_leaves_id (Plan.pipelineOf options step entry)
    (units (Plan.pipelineOf options step entry).implementation (Plan.pipelineOf options step entry).site) (level.call u)
  rw [hlayer, hsame] at hleaves
  exact hkept _ hid (hleaves hid hgoes)

/-- The references of every step that a level takes are served, if the names they may begin with besides those of the
document are there from the beginning. -/
theorem visit_served (hb : Plan.build host.registry options d = .ok level.plan)
    (hkeeps : ∀ v ∈ (level.run units).visits, KeepsKeys v.before v.after)
    (hexternal : ∀ name ∈ options.external, isReserved name = false →
      name ∈ Assoc.keys level.params ∨ name ∈ Assoc.keys level.context.data)
    {taken rest : List Visit} {v : Visit} (hv : (level.run units).visits = taken ++ v :: rest) :
    ∃ step ∈ d.steps, step.id = v.stepId ∧ ∃ entry p, Assoc.get? host.registry step.kind = some entry ∧
      level.plan.pipeline? v.stepId = some p ∧
      step.Served entry.interface (d.MayLack level.params taken) (level.call v)
        (p.attempts (units p.implementation p.site) (level.call v)) := by
  have hvisited : v ∈ (level.run units).visits := by
    rw [hv]
    exact List.mem_append_right _ List.mem_cons_self
  obtain ⟨p, hp, _⟩ := visit_eq hvisited
  obtain ⟨step, hstep, entry, hid, hkind, rfl⟩ := Plan.pipeline?_eq_some hb hp
  have hbind : bindInputs d.inputs level.params = .ok level.bindings := by
    rw [← Plan.inputs_eq hb]
    exact bound_of_visit hvisited
  have houtside : ∀ name ∈ options.external, isReserved name = false →
      name ∈ Assoc.keys level.params ∨ name ∈ Assoc.keys v.before.data := by
    intro name hname hfree
    exact (hexternal name hname hfree).imp_right (((run_keepsKeys hkeeps).2 v hvisited).1 name hfree)
  have htaken : ∀ u ∈ taken, isReserved u.stepId = false → u.stepId ∈ Assoc.keys v.before.data :=
    fun u hu hfree => mem_keys_of_taken hb hkeeps hv hu hfree
  obtain ⟨hparams, hitems⟩ := Plan.references_known hb hstep hkind
  refine ⟨step, hstep, hid, entry, _, hkind, hp, ?_, ?_⟩
  · intro a ha key value hmem hplain r hr
    have hdata : a.context.data = v.before.data := Pipeline.attempts_data ha
    have hscope : a.scope = ⟨a.bindings, v.before.data⟩ := by rw [Call.scope, hdata]
    rw [hscope]
    exact Scope.serves_of_knows hbind (fun _ hname => Pipeline.attempts_bindings ha (.inl hname))
      (fun _ hname => Pipeline.attempts_bindings ha (.inr hname)) houtside htaken (hparams key value hmem hplain r hr)
  · intro batch hbatch r hr
    exact Scope.serves_of_knows hbind (fun _ hkey => hkey) (by simp) houtside htaken (hitems batch hbatch r hr)

end Level

/-- In a run of a document, with no other names let in than those of its parameters, a reference of a step that is taken
finds what it begins with, or begins with what may be missing. Shared mode makes no difference, since no key
disappears. -/
theorem Host.references_are_served (host : Host) (hreg : host.registry.Keeps KeepsKeys) {d : Document} {params : Fields}
    {options : PlanOptions} (hexternal : ∀ name ∈ options.external, name ∈ Assoc.keys params) {plan : Plan}
    (hplan : host.plan d params options = .ok plan) {taken rest : List Visit} {v : Visit}
    (hv : (host.report (plan.top params)).visits = taken ++ v :: rest) :
    (∃ step ∈ d.steps, step.id = v.stepId ∧ ∃ entry p, Assoc.get? host.registry step.kind = some entry ∧
      plan.pipeline? v.stepId = some p ∧
      step.Served entry.interface (d.MayLack params taken) ((plan.top params).call v)
        (p.attempts (host.unitOf (host.runWithin plan.limits.maxDepth) p) ((plan.top params).call v))) ∧
    (∀ u ∈ taken, KeepsKeys u.after v.before) ∧ KeepsKeys v.before v.after ∧
      KeepsKeys v.after (host.report (plan.top params)).context := by
  have hbuilt := top_built hplan
  have hkeeps : ∀ v ∈ (host.report (plan.top params)).visits, KeepsKeys v.before v.after := by
    intro v hv
    rw [report_top] at hv
    exact Level.visit_keepsKeys hreg hbuilt (fun child hopens => runWithin_keepsKeys hreg _ (hopens.built hbuilt)) hv
  have hvisited : v ∈ (host.report (plan.top params)).visits := by
    rw [hv]
    exact List.mem_append_right _ List.mem_cons_self
  refine ⟨?_, ?_, hkeeps v hvisited, ?_⟩
  · refine Level.visit_served (show Plan.build _ _ d = .ok (plan.top params).plan from hplan) hkeeps ?_ hv
    intro name hname _
    rcases List.mem_append.mp hname with hname | hname
    · exact .inl (hexternal name hname)
    · exact .inl hname
  · have hlater : (host.report (plan.top params)).visits.Pairwise _ :=
      Level.visits_pairwise keepsKeys_kept.toCarried hkeeps
    rw [hv, List.pairwise_append] at hlater
    exact fun u hu => (hlater.2.2 u hu v List.mem_cons_self).2
  · exact ((Level.run_keepsKeys hkeeps).2 v hvisited).2

def searchDocument : Document where
  version := "1"
  name := none
  start := none
  steps := [⟨"found", "echo", none, [("names", .str "$\x7blist\x7d")], none⟩]
  edges := []
  inputs := []
  outputs := []
  mode := .strict

/-- Runs a workflow in shared mode and then a batch, past a step that another action would lead to. -/
def searchAllDocument : Document where
  version := "1"
  name := none
  start := none
  steps :=
    [⟨"search", "workflow", none, [("workflow_ir", searchDocument.toJson), ("storage_mode", .str "shared")], none⟩,
      ⟨"detour", "echo", none, [("reason", .str "nothing found")], none⟩,
      ⟨"tell", "echo", none,
        [("text", .arr [.str "$\x7bitem\x7d of $\x7blist\x7d: $\x7bsearch\x7d",
          .str "$\x7bnote\x7d $\x7bdetour.reason\x7d"])],
        some ⟨"$\x7blist\x7d", "item", .carryOn⟩⟩]
  edges := [⟨"search", "tell", none⟩, ⟨"search", "detour", some "nothing"⟩, ⟨"detour", "tell", none⟩]
  inputs := [("note", ⟨.parse "str", "", false, none, false⟩)]
  outputs := []
  mode := .permissive

theorem references_are_served_search :
    ∃ host : Host, ∃ plan, host.plan searchAllDocument [("list", .arr [.str "first"])] {} = .ok plan ∧
      ∃ u v, (host.report (plan.top [("list", .arr [.str "first"])])).visits = [u, v] ∧
        (∃ step ∈ searchAllDocument.steps, step.id = v.stepId ∧ ∃ entry p,
          Assoc.get? host.registry step.kind = some entry ∧ plan.pipeline? v.stepId = some p ∧
          step.Served entry.interface (searchAllDocument.MayLack [("list", .arr [.str "first"])] [u])
            ((plan.top [("list", .arr [.str "first"])]).call v)
            (p.attempts (host.unitOf (host.runWithin plan.limits.maxDepth) p)
              ((plan.top [("list", .arr [.str "first"])]).call v))) ∧
        KeepsKeys u.after v.before ∧
        (["list", "search", "found", "note", "detour"].map fun base =>
          (((plan.top [("list", .arr [.str "first"])]).call v).scope.root? base).isSome) =
            [true, true, true, false, false] := by
  let host : Host := ⟨.builtin, .empty⟩
  let params : Fields := [("list", .arr [.str "first"])]
  have hreg : host.registry.Keeps KeepsKeys := Registry.builtin_keeps keepsKeys_kept.refl
  have htaken : ((host.plan searchAllDocument params {}).toOption.any fun plan =>
      (host.report (plan.top params)).visits.map Visit.stepId = ["search", "tell"] &&
        (host.report (plan.top params)).visits.getLast?.any fun v =>
          (["list", "search", "found", "note", "detour"].map fun base =>
            (((plan.top params).call v).scope.root? base).isSome) = [true, true, true, false, false]) = true := by
    decide +kernel
  cases hp : host.plan searchAllDocument params {} with
  | error fault =>
    rw [hp] at htaken
    cases htaken
  | ok plan =>
    rw [hp] at htaken
    simp only [Except.toOption, Option.any_some, Bool.and_eq_true, decide_eq_true_eq] at htaken
    obtain ⟨hids, hlast⟩ := htaken
    obtain ⟨u, later, hvisits, _, hlater⟩ := List.map_eq_cons_iff.mp hids
    obtain ⟨v, _, rfl, _, hnone⟩ := List.map_eq_cons_iff.mp hlater
    cases List.map_eq_nil_iff.mp hnone
    have hsplit : (host.report (plan.top params)).visits = [u] ++ v :: [] := hvisits
    have hserved := Host.references_are_served host hreg (fun name hname => absurd hname List.not_mem_nil) hp hsplit
    rw [hvisits] at hlast
    exact ⟨host, plan, hp, u, v, hvisits, hserved.1, hserved.2.1 u (List.mem_singleton_self u),
      of_decide_eq_true hlast⟩

end Workflow
