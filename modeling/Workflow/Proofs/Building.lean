import Workflow.Plan
import Workflow.Proofs.Circling

/-! What a plan that was built says about its document: the phases it passed, the order its steps have, and where the
edges of its exits come from. -/

namespace Workflow

theorem repeatedIds_eq_nil {seen ids : List String} (h : Document.repeatedIds seen ids = []) :
    ids.Nodup ∧ ∀ id ∈ ids, id ∉ seen := by
  induction ids generalizing seen with
  | nil => simp
  | cons id ids ih =>
    rw [Document.repeatedIds] at h
    split at h
    · cases h
    · rename_i hseen
      obtain ⟨hnodup, hfresh⟩ := ih h
      have hid : id ∉ ids := fun hm => hfresh id hm (List.mem_cons_self ..)
      refine ⟨List.nodup_cons.mpr ⟨hid, hnodup⟩, ?_⟩
      intro x hx
      rcases List.mem_cons.mp hx with rfl | hx
      · simpa using hseen
      · exact fun hxs => hfresh x hx (List.mem_cons_of_mem _ hxs)

theorem Document.stepIds_nodup {d : Document} (h : d.checkIdentity = .ok ()) : d.stepIds.Nodup := by
  unfold checkIdentity at h
  split at h
  · rename_i hempty
    simp only [identityBreaches, List.isEmpty_iff, List.append_eq_nil_iff, List.map_eq_nil_iff] at hempty
    exact (repeatedIds_eq_nil hempty.1).1
  · cases h

/-- An item of a batch never hides a step. -/
theorem Document.itemName_ne {d : Document} (h : d.checkIdentity = .ok ()) {step : Step} (hstep : step ∈ d.steps)
    {batch : Batch} (hbatch : step.batch = some batch) {stepId : String} (hid : stepId ∈ d.stepIds) :
    batch.itemName ≠ stepId := by
  rintro rfl
  unfold checkIdentity at h
  split at h
  · rename_i hempty
    have hbreaches : d.identityBreaches = [] := List.isEmpty_iff.mp hempty
    have hshown := List.filterMap_eq_nil_iff.mp (List.append_eq_nil_iff.mp hbreaches).2 step hstep
    simp [hbatch, hid] at hshown
  · cases h

namespace Plan

/-! ### Wiring -/

namespace Wiring

def target? (w : Wiring) (source action : String) : Option String :=
  (Assoc.get? w.exits source).bind fun exits => Assoc.get? exits action

end Wiring

def leaves (source action : String) (e : Edge) : Bool := e.source = source && e.action = action

theorem addEdge_eq_ok {ids : List String} {w w' : Wiring} {e : Edge} (h : addEdge ids w e = .ok w') :
    (e.source ∈ ids ∧ e.target ∈ ids) ∧
      ∀ source action, w'.target? source action =
        if leaves source action e then some e.target else w.target? source action := by
  unfold addEdge at h
  split at h
  · cases h
  · rename_i hnone
    cases h
    refine ⟨by simpa using hnone, ?_⟩
    intro source action
    simp only [Wiring.target?, Assoc.get?_put, leaves]
    by_cases hs : e.source = source
    · subst hs
      by_cases ha : e.action = action
      · simp [ha, Assoc.get?_put]
      · cases hx : Assoc.get? w.exits e.source with
        | none => simp [ha, Assoc.get?_put]
        | some exits => simp [ha, Assoc.get?_put]
    · simp [hs]

theorem foldlM_addEdge {ids : List String} {edges : List Edge} {w w' : Wiring}
    (h : edges.foldlM (addEdge ids) w = .ok w') :
    (∀ e ∈ edges, e.source ∈ ids ∧ e.target ∈ ids) ∧
      ∀ source action, w'.target? source action =
        ((edges.filter (leaves source action)).getLast?.map Edge.target).or (w.target? source action) := by
  induction edges generalizing w with
  | nil =>
    cases h
    simp
  | cons e edges ih =>
    rw [List.foldlM_cons] at h
    obtain ⟨w₁, hadd, h⟩ := bind_eq_ok.mp h
    obtain ⟨hmem, htarget⟩ := addEdge_eq_ok hadd
    obtain ⟨hrest, hlast⟩ := ih h
    refine ⟨?_, ?_⟩
    · intro x hx
      rcases List.mem_cons.mp hx with rfl | hx
      · exact hmem
      · exact hrest x hx
    · intro source action
      rw [hlast, htarget]
      by_cases hl : leaves source action e
      · rw [List.filter_cons_of_pos hl, if_pos hl]
        cases hf : edges.filter (leaves source action) with
        | nil => simp
        | cons x xs => simp [List.getLast?_cons]
      · rw [List.filter_cons_of_neg hl, if_neg hl]

/-- Both ends of every edge are declared, and a step is left under an action by the last edge that says so. -/
theorem wire_eq_ok {ids : List String} {edges : List Edge} {w : Wiring} (h : wire ids edges = .ok w) :
    (∀ e ∈ edges, e.source ∈ ids ∧ e.target ∈ ids) ∧
      ∀ source action, w.target? source action =
        (edges.filter (leaves source action)).getLast?.map Edge.target := by
  obtain ⟨hmem, hlast⟩ := foldlM_addEdge h
  refine ⟨hmem, fun source action => ?_⟩
  rw [hlast]
  cases (edges.filter (leaves source action)).getLast? <;> rfl

/-! ### Phases -/

/-- What the phases of building hand on. -/
structure Stages where
  unreachable : List Warning
  resolved : List (Step × RegistryEntry)
  warnings : List Warning
  wiring : Wiring
  start : String

namespace Stages

def interfaces (s : Stages) : Assoc Interface := s.resolved.map fun (step, entry) => (step.id, entry.interface)

def plan (s : Stages) (options : PlanOptions) (d : Document) : Plan where
  identity := options.identity.getD d.displayName
  stepIds := d.stepIds
  pipelines := s.resolved.map fun (step, entry) => (step.id, pipelineOf options step entry)
  exits := s.wiring.exits
  start := s.start
  inputs := d.inputs
  outputs := d.outputs
  mode := options.mode.getD d.mode
  limits := options.limits
  warnings := s.warnings
  diagnostics := s.unreachable ++ s.wiring.notes

structure Passed (s : Stages) (registry : Registry) (options : PlanOptions) (d : Document) : Prop where
  identity : d.checkIdentity = .ok ()
  valid : validate (view registry d) options.external = .ok s.unreachable
  kinds : d.steps.mapM (resolveKind registry) = .ok s.resolved
  accesses : checkInterfaces (options.mode.getD d.mode) s.interfaces (view registry d).steps = .ok s.warnings
  wired : wire d.stepIds d.edges = .ok s.wiring
  started : detectStart d = .ok s.start

end Stages

variable {registry : Registry} {options : PlanOptions} {d : Document} {plan : Plan}

/-- A plan is built exactly when every phase passes. -/
theorem build_eq_ok_iff :
    build registry options d = .ok plan ↔ ∃ s : Stages, s.Passed registry options d ∧ plan = s.plan options d := by
  constructor
  · intro h
    unfold build at h
    obtain ⟨_, hidentity, h⟩ := bind_eq_ok.mp h
    obtain ⟨unreachable, hvalid, h⟩ := bind_eq_ok.mp h
    obtain ⟨resolved, hkinds, h⟩ := bind_eq_ok.mp h
    obtain ⟨warnings, haccesses, h⟩ := bind_eq_ok.mp h
    obtain ⟨wiring, hwired, h⟩ := bind_eq_ok.mp h
    obtain ⟨start, hstarted, h⟩ := bind_eq_ok.mp h
    cases h
    exact ⟨⟨unreachable, resolved, warnings, wiring, start⟩,
      ⟨hidentity, hvalid, hkinds, haccesses, hwired, hstarted⟩, rfl⟩
  · rintro ⟨s, hs, rfl⟩
    unfold build
    refine bind_eq_ok.mpr ⟨(), hs.identity, ?_⟩
    refine bind_eq_ok.mpr ⟨_, hs.valid, ?_⟩
    refine bind_eq_ok.mpr ⟨_, hs.kinds, ?_⟩
    refine bind_eq_ok.mpr ⟨_, hs.accesses, ?_⟩
    refine bind_eq_ok.mpr ⟨_, hs.wired, ?_⟩
    refine bind_eq_ok.mpr ⟨_, hs.started, ?_⟩
    rfl

/-! ### Facts about a built plan -/

theorem view_stepIds (registry : Registry) (d : Document) : (view registry d).stepIds = d.stepIds := by
  simp [view, Document.stepIds, Function.comp_def]

theorem view_graph (registry : Registry) (d : Document) : (view registry d).graph = d.graph := by
  unfold Document.graph
  rw [view_stepIds]
  rfl

/-- Validation passes a document in which nothing is found but what can be let pass, and all of that is kept. -/
theorem validate_eq_ok_iff {seen : Document} {external : List String} {soft : List Warning} :
    validate seen external = .ok soft ↔
      (∀ x ∈ DataFlow.validate seen external, x.isError = false) ∧
        soft = (DataFlow.validate seen external).map graphWarning := by
  have hclean : ((DataFlow.validate seen external).filter Diagnostic.isError).isEmpty = true ↔
      ∀ x ∈ DataFlow.validate seen external, x.isError = false := by
    simp [List.isEmpty_iff, List.filter_eq_nil_iff]
  simp only [validate, List.partition_eq_filter_filter]
  split
  · rename_i hempty
    have hall := hclean.mp hempty
    have hkept :
        (DataFlow.validate seen external).filter (not ∘ Diagnostic.isError) = DataFlow.validate seen external :=
      List.filter_eq_self.mpr fun x hx => by simp [hall x hx]
    rw [hkept, Except.ok.injEq, eq_comm]
    exact (and_iff_right hall).symm
  · rename_i hfound
    simp only [reduceCtorEq, false_iff]
    exact fun h => hfound (hclean.mpr h.1)

/-- Validation lets no graph pass that has no order. -/
theorem order_of_validate {seen : Document} {external : List String} {soft : List Warning}
    (h : validate seen external = .ok soft) (hn : seen.stepIds.Nodup) : ∃ order, seen.graph.order = .ok order := by
  have hclean := (validate_eq_ok_iff.mp h).1
  cases horder : seen.graph.order with
  | ok order => exact ⟨order, rfl⟩
  | error cycles =>
    exfalso
    have hproper : seen.graph.Proper := Graph.ofEdges_proper _ _
    obtain ⟨hcyclic, rfl⟩ := Graph.cyclic_of_order_error hproper hn horder
    obtain ⟨cycle, hmem⟩ := List.exists_mem_of_ne_nil _ (Graph.cycles_ne_nil hproper hcyclic)
    have hreported : Diagnostic.cycle cycle ∈ DataFlow.validate seen external := by
      simp only [DataFlow.validate, horder, List.mem_append, List.mem_map]
      exact .inl (.inl (.inr ⟨cycle, hmem, rfl⟩))
    exact Bool.true_eq_false.mp (hclean _ hreported)

/-- Where every step of a fold adds to what there is, the whole fold does. -/
theorem foldlM_appends {α β ε : Type} {f : List β → α → Except ε (List β)} {added : α → List β}
    (hf : ∀ before x after, f before x = .ok after → after = before ++ added x) {xs : List α} {before after : List β}
    (h : xs.foldlM f before = .ok after) : after = before ++ xs.flatMap added := by
  induction xs generalizing before with
  | nil =>
    cases h
    simp
  | cons x rest ih =>
    rw [List.foldlM_cons] at h
    obtain ⟨next, hx, h⟩ := bind_eq_ok.mp h
    rw [ih h, hf before x next hx, List.flatMap_cons, List.append_assoc]

/-- The warnings that a reference leaves where it is let pass. -/
def accessWarnings (interfaces : Assoc Interface) (stepId : String) (r : Reference) : List Warning :=
  match Assoc.get? interfaces r.base with
  | none => []
  | some source =>
    if source.outputs.isEmpty then []
    else
      match checkAccess stepId r source with
      | .clean => []
      | .ambiguous warning => [warning]
      | .issue fault => [.ofFault fault]

theorem settleAccess_eq_ok {mode : Mode} {interfaces : Assoc Interface} {stepId : String}
    {warnings after : List Warning} {r : Reference} (h : settleAccess mode interfaces stepId warnings r = .ok after) :
    after = warnings ++ accessWarnings interfaces stepId r := by
  unfold settleAccess at h
  unfold accessWarnings
  cases hsource : Assoc.get? interfaces r.base with
  | none =>
    rw [hsource] at h
    cases h
    exact (List.append_nil _).symm
  | some source =>
    simp only [hsource] at h ⊢
    split at h
    · rename_i hempty
      cases h
      rw [if_pos hempty, List.append_nil]
    · rename_i hempty
      rw [if_neg hempty]
      cases haccess : checkAccess stepId r source with
      | clean =>
        rw [haccess] at h
        cases h
        exact (List.append_nil _).symm
      | ambiguous warning =>
        rw [haccess] at h
        cases h
        rfl
      | issue fault =>
        rw [haccess] at h
        cases mode with
        | strict => cases h
        | permissive =>
          cases h
          rfl

/-- The check of a whole document leaves what its references leave, step by step. -/
theorem checkInterfaces_eq_ok {mode : Mode} {interfaces : Assoc Interface} {steps : List Step}
    {warnings : List Warning} (h : checkInterfaces mode interfaces steps = .ok warnings) :
    warnings = steps.flatMap fun step => (stepRefs step).flatMap (accessWarnings interfaces step.id) := by
  have haccess (stepId : String) (before : List Warning) (r : Reference) (after : List Warning)
      (hok : settleAccess mode interfaces stepId before r = .ok after) :
      after = before ++ accessWarnings interfaces stepId r := settleAccess_eq_ok hok
  have hstep (before : List Warning) (step : Step) (after : List Warning)
      (hok : (stepRefs step).foldlM (settleAccess mode interfaces step.id) before = .ok after) :
      after = before ++ (stepRefs step).flatMap (accessWarnings interfaces step.id) :=
    foldlM_appends (haccess step.id) hok
  exact foldlM_appends hstep h

theorem resolveKind_eq_ok {step : Step} {e : Step × RegistryEntry} (h : resolveKind registry step = .ok e) :
    e.1 = step ∧ Assoc.get? registry step.kind = some e.2 := by
  unfold resolveKind at h
  split at h
  · cases h
  · rename_i entry hentry
    cases h
    exact ⟨rfl, hentry⟩

theorem mapM_resolveKind {steps : List Step} {resolved : List (Step × RegistryEntry)}
    (h : steps.mapM (resolveKind registry) = .ok resolved) :
    resolved.map Prod.fst = steps ∧ ∀ e ∈ resolved, Assoc.get? registry e.1.kind = some e.2 := by
  induction steps generalizing resolved with
  | nil =>
    cases h
    simp
  | cons step steps ih =>
    rw [List.mapM_cons] at h
    obtain ⟨pair, hk, h⟩ := bind_eq_ok.mp h
    obtain ⟨rest, hr, h⟩ := bind_eq_ok.mp h
    cases h
    obtain ⟨hfst, hget⟩ := ih hr
    obtain ⟨hfirst, hentry⟩ := resolveKind_eq_ok hk
    refine ⟨by rw [List.map_cons, hfirst, hfst], ?_⟩
    intro e he
    rcases List.mem_cons.mp he with rfl | he
    · rw [hfirst]
      exact hentry
    · exact hget e he

/-- The pipelines of a plan are those of its steps. -/
theorem pipeline?_eq_some (h : build registry options d = .ok plan) {id : String} {p : Pipeline}
    (hp : plan.pipeline? id = some p) :
    ∃ step ∈ d.steps, ∃ entry, step.id = id ∧ Assoc.get? registry step.kind = some entry ∧
      p = pipelineOf options step entry := by
  obtain ⟨s, hs, rfl⟩ := build_eq_ok_iff.mp h
  obtain ⟨hfst, hget⟩ := mapM_resolveKind hs.kinds
  obtain ⟨⟨step, entry⟩, hmem, heq⟩ := List.mem_map.mp (Assoc.mem_of_get? hp)
  cases heq
  refine ⟨step, ?_, entry, rfl, hget _ hmem, rfl⟩
  rw [← hfst]
  exact List.mem_map_of_mem hmem

theorem pipeline?_isSome (h : build registry options d = .ok plan) {id : String} (hid : id ∈ d.stepIds) :
    (plan.pipeline? id).isSome := by
  obtain ⟨s, hs, rfl⟩ := build_eq_ok_iff.mp h
  obtain ⟨hfst, _⟩ := mapM_resolveKind hs.kinds
  rw [Plan.pipeline?, Assoc.get?_isSome_iff]
  rw [Document.stepIds, ← hfst, List.map_map] at hid
  simpa [Stages.plan, Assoc.keys, Function.comp_def] using hid

/-- An exit of a step comes from the last edge that leaves it under the action. -/
theorem successor?_eq (h : build registry options d = .ok plan) (source action : String) :
    plan.successor? source action = (d.edges.filter (leaves source action)).getLast?.map Edge.target := by
  obtain ⟨s, hs, rfl⟩ := build_eq_ok_iff.mp h
  exact (wire_eq_ok hs.wired).2 source action

theorem successor?_eq_some (h : build registry options d = .ok plan) {source action target : String}
    (hs : plan.successor? source action = some target) :
    ∃ e ∈ d.edges, e.source = source ∧ e.action = action ∧ e.target = target := by
  rw [successor?_eq h, Option.map_eq_some_iff] at hs
  obtain ⟨e, he, rfl⟩ := hs
  obtain ⟨hmem, hl⟩ := List.mem_filter.mp (List.mem_of_getLast? he)
  simp only [leaves, Bool.and_eq_true, decide_eq_true_eq] at hl
  exact ⟨e, hmem, hl.1, hl.2, rfl⟩

theorem endpoints_mem (h : build registry options d = .ok plan) :
    ∀ e ∈ d.edges, e.source ∈ d.stepIds ∧ e.target ∈ d.stepIds := by
  obtain ⟨s, hs, rfl⟩ := build_eq_ok_iff.mp h
  exact (wire_eq_ok hs.wired).1

theorem start_mem (h : build registry options d = .ok plan) : plan.start ∈ d.stepIds := by
  obtain ⟨s, hs, rfl⟩ := build_eq_ok_iff.mp h
  have hstart := hs.started
  unfold detectStart at hstart
  split at hstart
  · split at hstart
    · rename_i hmem
      cases hstart
      simpa [Stages.plan] using hmem
    · cases hstart
  · cases hids : d.stepIds with
    | nil =>
      rw [hids] at hstart
      cases hstart
    | cons first rest =>
      rw [hids] at hstart
      cases hstart
      exact List.mem_cons_self ..

theorem inputs_eq (h : build registry options d = .ok plan) : plan.inputs = d.inputs := by
  obtain ⟨s, _, rfl⟩ := build_eq_ok_iff.mp h
  rfl

theorem outputs_eq (h : build registry options d = .ok plan) : plan.outputs = d.outputs := by
  obtain ⟨s, _, rfl⟩ := build_eq_ok_iff.mp h
  rfl

theorem stepIds_eq (h : build registry options d = .ok plan) : plan.stepIds = d.stepIds := by
  obtain ⟨s, _, rfl⟩ := build_eq_ok_iff.mp h
  rfl

theorem limits_eq (h : build registry options d = .ok plan) : plan.limits = options.limits := by
  obtain ⟨s, _, rfl⟩ := build_eq_ok_iff.mp h
  rfl

/-- The steps have an order, which holds each of them and in which every edge leads forward. -/
theorem exists_order (h : build registry options d = .ok plan) :
    ∃ order, d.graph.order = .ok order ∧ order.Perm d.stepIds ∧
      ∀ e ∈ d.edges, order.idxOf e.source < order.idxOf e.target := by
  obtain ⟨s, hs, rfl⟩ := build_eq_ok_iff.mp h
  have hnodup := Document.stepIds_nodup hs.identity
  have hgraph := view_graph registry d
  have hseen : (view registry d).stepIds.Nodup := by
    rw [view_stepIds]
    exact hnodup
  obtain ⟨order, horder⟩ := order_of_validate hs.valid hseen
  rw [hgraph] at horder
  obtain ⟨hplaced, hperm⟩ := Graph.order_eq_ok horder
  refine ⟨order, horder, hperm, ?_⟩
  intro e he
  obtain ⟨hsource, htarget⟩ := (wire_eq_ok hs.wired).1 e he
  have hedge : d.graph.Edge e.source e.target :=
    (Graph.edge_ofEdges _ _ _ _).mpr ⟨List.mem_map.mpr ⟨e, he, rfl⟩, hsource, htarget⟩
  exact hplaced.idxOf_lt hedge (hperm.mem_iff.mpr htarget)

end Plan

end Workflow
