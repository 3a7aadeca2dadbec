import Workflow.Proofs.Grammar
import Workflow.Proofs.Reaching

/-! The exits of a plan. They are wired edge by edge, and an edge takes the place of an earlier one that leaves the
same step under the same action. Each time it leads elsewhere a note is left, so there is one about an exit just if two
of its edges disagree, however many edges stand between them. -/

namespace Workflow

/-! ### Edges that take the place of others -/

namespace Plan

theorem leaves_iff {source action : String} {e : Edge} :
    leaves source action e = true ↔ e.source = source ∧ e.action = action := by
  simp [leaves]

/-- An edge, and the last one before it with the same exit, which led elsewhere. -/
structure Rewiring where
  edge : Edge
  previous : Edge

namespace Rewiring

def warning (r : Rewiring) : Warning := rewiredWarning r.edge r.previous.target

/-- Where both stand among the edges of a document: none with their exit between them, whatever stands around. -/
def OccursIn (r : Rewiring) (edges : List Edge) : Prop :=
  ∃ front between after, edges = front ++ r.previous :: (between ++ r.edge :: after) ∧
    leaves r.edge.source r.edge.action r.previous = true ∧
    (∀ g ∈ between, leaves r.edge.source r.edge.action g = false) ∧ r.previous.target ≠ r.edge.target

end Rewiring

/-- What wiring an edge after others changes. -/
def rewiring? (before : List Edge) (e : Edge) : Option Rewiring :=
  (before.filter (leaves e.source e.action)).getLast?.bind fun f => if f.target = e.target then none else some ⟨e, f⟩

/-- All that wiring edges after others changes, in their order. -/
def rewirings (before : List Edge) : List Edge → List Rewiring
  | [] => []
  | e :: rest => (rewiring? before e).toList ++ rewirings (before ++ [e]) rest

theorem getLast?_filter_eq_some {p : Edge → Bool} {edges : List Edge} {f : Edge} :
    (edges.filter p).getLast? = some f ↔
      p f = true ∧ ∃ front between, edges = front ++ f :: between ∧ ∀ g ∈ between, p g = false := by
  rw [List.getLast?_filter, List.find?_eq_some_iff_append]
  refine and_congr_right fun _ => ?_
  constructor
  · rintro ⟨after, before, heq, hafter⟩
    refine ⟨before.reverse, after.reverse, ?_, by simpa using hafter⟩
    simpa using congrArg List.reverse heq
  · rintro ⟨front, between, rfl, hbetween⟩
    exact ⟨between.reverse, front.reverse, by simp, by simpa using hbetween⟩

/-- Of the edges of an exit there is a last one. -/
theorem exists_last_leaving {source action : String} {edges : List Edge} {f : Edge} (hf : f ∈ edges)
    (hl : leaves source action f = true) :
    ∃ g ∈ edges, leaves source action g = true ∧ (edges.filter (leaves source action)).getLast? = some g := by
  have hne : edges.filter (leaves source action) ≠ [] := List.ne_nil_of_mem (List.mem_filter.mpr ⟨hf, hl⟩)
  obtain ⟨hmem, hlast⟩ := List.mem_filter.mp (List.getLast_mem hne)
  exact ⟨_, hmem, hlast, List.getLast?_eq_some_getLast hne⟩

theorem rewiring?_eq_some {before : List Edge} {e : Edge} {r : Rewiring} :
    rewiring? before e = some r ↔
      r.edge = e ∧ (before.filter (leaves e.source e.action)).getLast? = some r.previous ∧
        r.previous.target ≠ e.target := by
  rw [rewiring?, Option.bind_eq_some_iff]
  constructor
  · rintro ⟨f, hlast, heq⟩
    split at heq
    · cases heq
    · rename_i htarget
      cases heq
      exact ⟨rfl, hlast, htarget⟩
  · rintro ⟨rfl, hlast, htarget⟩
    exact ⟨r.previous, hlast, if_neg htarget⟩

theorem rewirings_concat (before edges : List Edge) (e : Edge) :
    rewirings before (edges ++ [e]) = rewirings before edges ++ (rewiring? (before ++ edges) e).toList := by
  induction edges generalizing before with
  | nil => simp [rewirings]
  | cons f rest ih => simp [rewirings, ih]

theorem mem_rewirings {before edges : List Edge} {r : Rewiring} :
    r ∈ rewirings before edges ↔
      ∃ front after, edges = front ++ r.edge :: after ∧ rewiring? (before ++ front) r.edge = some r := by
  induction edges generalizing before with
  | nil => simp [rewirings]
  | cons e rest ih =>
    rw [rewirings, List.mem_append, Option.mem_toList, ih]
    constructor
    · rintro (h | ⟨front, after, rfl, h⟩)
      · have hedge := (rewiring?_eq_some.mp h).1
        exact ⟨[], rest, by rw [hedge, List.nil_append], by rwa [hedge, List.append_nil]⟩
      · exact ⟨e :: front, after, rfl, by rwa [List.append_assoc] at h⟩
    · rintro ⟨front, after, heq, h⟩
      cases front with
      | nil =>
        cases heq
        rw [List.append_nil] at h
        exact .inl h
      | cons f front =>
        cases heq
        exact .inr ⟨front, after, rfl, by rwa [List.append_assoc]⟩

theorem edge_mem_of_mem_rewirings {before edges : List Edge} {r : Rewiring} (h : r ∈ rewirings before edges) :
    r.edge ∈ edges := by
  obtain ⟨front, after, rfl, _⟩ := mem_rewirings.mp h
  exact List.mem_append_right _ (List.mem_cons_self ..)

theorem mem_rewirings_iff_occursIn {edges : List Edge} {r : Rewiring} : r ∈ rewirings [] edges ↔ r.OccursIn edges := by
  simp only [mem_rewirings, List.nil_append, rewiring?_eq_some, getLast?_filter_eq_some, Rewiring.OccursIn]
  constructor
  · rintro ⟨before, after, heq, -, ⟨hleaves, front, between, rfl, hbetween⟩, htarget⟩
    exact ⟨front, between, after, by rw [heq, List.append_assoc, List.cons_append], hleaves, hbetween, htarget⟩
  · rintro ⟨front, between, after, heq, hleaves, hbetween, htarget⟩
    refine ⟨front ++ r.previous :: between, after, ?_, trivial, ⟨hleaves, front, between, rfl, hbetween⟩, htarget⟩
    rw [heq, List.append_assoc, List.cons_append]

def Disagree (source action : String) (edges : List Edge) : Prop :=
  ∃ e ∈ edges, ∃ f ∈ edges, leaves source action e = true ∧ leaves source action f = true ∧ e.target ≠ f.target

theorem disagree_concat {source action : String} {edges : List Edge} {e : Edge} :
    Disagree source action (edges ++ [e]) ↔
      Disagree source action edges ∨
        leaves source action e = true ∧ ∃ f ∈ edges, leaves source action f = true ∧ f.target ≠ e.target := by
  constructor
  · rintro ⟨x, hx, y, hy, hlx, hly, hne⟩
    rw [List.mem_append, List.mem_singleton] at hx hy
    rcases hx with hx | rfl <;> rcases hy with hy | rfl
    · exact .inl ⟨x, hx, y, hy, hlx, hly, hne⟩
    · exact .inr ⟨hly, x, hx, hlx, hne⟩
    · exact .inr ⟨hlx, y, hy, hly, hne.symm⟩
    · exact absurd rfl hne
  · rintro (⟨x, hx, y, hy, hxy⟩ | ⟨hle, f, hf, hlf, hne⟩)
    · exact ⟨x, List.mem_append_left _ hx, y, List.mem_append_left _ hy, hxy⟩
    · exact ⟨f, List.mem_append_left _ hf, e, List.mem_append_right _ (List.mem_singleton_self e), hlf, hle, hne⟩

/-- An edge is only compared with the last one before it that has its exit. That is enough, since the ones before that
agree with it unless a note was left already. -/
theorem exists_rewiring_iff (source action : String) (edges : List Edge) :
    (∃ r ∈ rewirings [] edges, leaves source action r.edge = true) ↔ Disagree source action edges := by
  induction edges using List.reverseRecOn with
  | nil => simp [rewirings, Disagree]
  | append_singleton edges e ih =>
    rw [rewirings_concat, disagree_concat, List.nil_append, ← ih]
    simp only [List.mem_append, Option.mem_toList]
    constructor
    · rintro ⟨r, hr | hr, hleaves⟩
      · exact .inl ⟨r, hr, hleaves⟩
      · obtain ⟨rfl, hlast, htarget⟩ := rewiring?_eq_some.mp hr
        obtain ⟨rfl, rfl⟩ := leaves_iff.mp hleaves
        obtain ⟨hmem, hprevious⟩ := List.mem_filter.mp (List.mem_of_getLast? hlast)
        exact .inr ⟨hleaves, r.previous, hmem, hprevious, htarget⟩
    · rintro (⟨r, hr, hleaves⟩ | ⟨hleaves, f, hf, hlf, htarget⟩)
      · exact ⟨r, .inl hr, hleaves⟩
      · obtain ⟨rfl, rfl⟩ := leaves_iff.mp hleaves
        by_cases hbefore : Disagree e.source e.action edges
        · obtain ⟨r, hr, hleft⟩ := ih.mpr hbefore
          exact ⟨r, .inl hr, hleft⟩
        · obtain ⟨g, hg, hlg, hlast⟩ := exists_last_leaving hf hlf
          have hagree : f.target = g.target := by_contra fun h => hbefore ⟨f, hf, g, hg, hlf, hlg, h⟩
          rw [hagree] at htarget
          exact ⟨⟨e, g⟩, .inr (rewiring?_eq_some.mpr ⟨rfl, hlast, htarget⟩), hleaves⟩

/-! ### Wiring -/

def Wiring.Follows (w : Wiring) (edges : List Edge) : Prop :=
  ∀ source action, w.target? source action = (edges.filter (leaves source action)).getLast?.map Edge.target

/-- One more edge: its exit leads to its target, and a note is left if it led elsewhere before. -/
theorem addEdge_follows {ids : List String} {w w' : Wiring} {before : List Edge} {e : Edge} (hw : w.Follows before)
    (h : addEdge ids w e = .ok w') :
    w'.Follows (before ++ [e]) ∧ w'.notes = w.notes ++ (rewiring? before e).toList.map Rewiring.warning := by
  constructor
  · intro source action
    rw [(addEdge_eq_ok h).2, hw, List.filter_append]
    by_cases hl : leaves source action e
    · rw [if_pos hl, List.filter_cons_of_pos hl]
      simp
    · rw [if_neg hl, List.filter_cons_of_neg hl]
      simp
  · have hprevious := hw e.source e.action
    unfold addEdge at h
    split at h
    · cases h
    · cases h
      have hexits : Assoc.get? ((Assoc.get? w.exits e.source).getD []) e.action = w.target? e.source e.action := by
        rw [Wiring.target?]
        cases Assoc.get? w.exits e.source <;> rfl
      simp only [hexits, hprevious, rewiring?]
      cases hlast : (before.filter (leaves e.source e.action)).getLast? with
      | none => rfl
      | some f =>
        by_cases ht : f.target = e.target
        · simp [ht]
        · simp [ht, Rewiring.warning]

theorem foldlM_addEdge_notes {ids : List String} {edges before : List Edge} {w w' : Wiring} (hw : w.Follows before)
    (h : edges.foldlM (addEdge ids) w = .ok w') :
    w'.notes = w.notes ++ (rewirings before edges).map Rewiring.warning := by
  induction edges generalizing before w with
  | nil =>
    cases h
    simp [rewirings]
  | cons e rest ih =>
    rw [List.foldlM_cons] at h
    obtain ⟨next, hadd, h⟩ := bind_eq_ok.mp h
    obtain ⟨hfollows, hnotes⟩ := addEdge_follows hw hadd
    rw [ih hfollows h, hnotes, rewirings, List.map_append, List.append_assoc]

theorem wire_notes {ids : List String} {edges : List Edge} {w : Wiring} (h : wire ids edges = .ok w) :
    w.notes = (rewirings [] edges).map Rewiring.warning := by
  have hbegin : Wiring.Follows ⟨[], []⟩ [] := fun _ _ => rfl
  rw [foldlM_addEdge_notes hbegin h, List.nil_append]

theorem hasSuccessors_iff (p : Plan) (id : String) :
    p.hasSuccessors id = true ↔ ∃ action target, p.successor? id action = some target := by
  unfold hasSuccessors successor?
  cases Assoc.get? p.exits id with
  | none => simp
  | some exits =>
    cases exits with
    | nil => simp
    | cons exit rest => exact ⟨fun _ => ⟨exit.1, exit.2, if_pos rfl⟩, fun _ => rfl⟩

end Plan

/-! ### Findings about a plan -/

/-- The only findings that let a document pass are those about steps that are cut off. -/
theorem DataFlow.filter_not_isError_validate (d : Document) (external : List String) :
    (validate d external).filter (fun x => !x.isError) = checkReachability d := by
  have hstdin : (checkStdin d).filter (fun x => !x.isError) = [] := by
    simp only [checkStdin]
    split <;> rfl
  have hreferences (order : Option (List String)) :
      (checkReferences d order external).filter (fun x => !x.isError) = [] := by
    refine List.filter_eq_nil_iff.mpr fun x hx => ?_
    rw [Diagnostic.isError_of_isAboutReference (Document.isAboutReference_of_checkReferences hx)]
    exact Bool.false_ne_true
  have hreach : (checkReachability d).filter (fun x => !x.isError) = checkReachability d := by
    unfold checkReachability
    split
    · rfl
    · simp [List.filter_map, Function.comp_def, Diagnostic.isError]
  unfold validate
  simp only [List.filter_append, hstdin, hreferences, hreach]
  split
  · rfl
  · simp [List.filter_map, Function.comp_def, Diagnostic.isError]

namespace Plan

variable {registry : Registry} {options : PlanOptions} {d : Document} {plan : Plan}

/-- A plan keeps the findings about its document: first the steps that are cut off, then the edges that took the place
of others. -/
theorem diagnostics_eq (h : build registry options d = .ok plan) :
    plan.diagnostics =
      (d.graph.unreachableFrom plan.start).map (fun id => graphWarning (.unreachable id plan.start)) ++
        (rewirings [] d.edges).map Rewiring.warning := by
  have hreach : DataFlow.checkReachability (view registry d) =
      (d.graph.unreachableFrom plan.start).map fun id => .unreachable id plan.start := by
    rw [DataFlow.checkReachability, assumedStart?_eq h, view_graph]
  obtain ⟨s, hs, rfl⟩ := build_eq_ok_iff.mp h
  obtain ⟨hclean, hkept⟩ := validate_eq_ok_iff.mp hs.valid
  have hfound : DataFlow.validate (view registry d) options.external =
      DataFlow.checkReachability (view registry d) := by
    rw [← DataFlow.filter_not_isError_validate _ options.external, List.filter_eq_self.mpr]
    intro x hx
    rw [hclean x hx]
    rfl
  show s.unreachable ++ s.wiring.notes = _
  rw [hkept, hfound, hreach, List.map_map, wire_notes hs.wired]
  rfl

/-! ### What notes say -/

/-- The text of a note up to its action. It is cut one letter behind where a finding about a step that is cut off begins
to differ. -/
theorem rewiredWarning_chars (e : Edge) (previous : String) :
    ∃ rest, (rewiredWarning e previous).message.toList =
      ("Node '" ++ e.source ++ "' a").toList ++ ("ction '".toList ++ (e.action.toList ++ '\'' :: rest)) := by
  have htext : (rewiredWarning e previous).message =
      "Node '" ++ e.source ++ "' action '" ++ e.action ++ "' is wired to both '" ++ previous ++ "' and '" ++ e.target ++
        "'; using '" ++ e.target ++ "'" := rfl
  refine ⟨(" is wired to both '" ++ previous ++ "' and '" ++ e.target ++ "'; using '" ++ e.target ++ "'").toList, ?_⟩
  rw [htext]
  simp [String.toList_append]

/-- A note says which exit it is about, as long as no quote stands in an action. -/
theorem exit_eq_of_rewiredWarning_eq {e f : Edge} {previous other : String} (he : '\'' ∉ e.action.toList)
    (hf : '\'' ∉ f.action.toList) (h : rewiredWarning e previous = rewiredWarning f other) :
    e.source = f.source ∧ e.action = f.action := by
  have hsource : e.source = f.source := Option.some.inj (congrArg Warning.stepId h)
  have hread {action : String} (hquote : '\'' ∉ action.toList) (rest : List Char) :
      (action.toList ++ '\'' :: rest).takeWhile (fun c => !decide (c = '\'')) = action.toList :=
    (Template.span_run (fun c hc => by simpa using ne_of_mem_of_not_mem hc hquote) rfl rest).1
  refine ⟨hsource, String.toList_inj.mp ?_⟩
  obtain ⟨rest, htext⟩ := rewiredWarning_chars e previous
  obtain ⟨rest', htext'⟩ := rewiredWarning_chars f other
  rw [h, htext', hsource, List.append_cancel_left_eq, List.append_cancel_left_eq] at htext
  rw [← hread he rest, ← htext, hread hf rest']

theorem graphWarning_unreachable_ne (id start : String) (e : Edge) (previous : String) :
    graphWarning (.unreachable id start) ≠ rewiredWarning e previous := by
  intro h
  have hid : id = e.source := Option.some.inj (congrArg Warning.stepId h)
  have hfound : (graphWarning (.unreachable id start)).message =
      "Node '" ++ id ++ "' is not reachable from start node '" ++ start ++ "' and will never run" := rfl
  obtain ⟨rest, htext⟩ := rewiredWarning_chars e previous
  rw [← h, hfound, hid] at htext
  simp [String.toList_append] at htext

/-! ### The wiring of a plan -/

theorem hasSuccessors_iff_edge (h : build registry options d = .ok plan) (id : String) :
    plan.hasSuccessors id = true ↔ ∃ e ∈ d.edges, e.source = id := by
  rw [hasSuccessors_iff]
  constructor
  · rintro ⟨action, target, hnext⟩
    obtain ⟨e, he, hsource, _, _⟩ := successor?_eq_some h hnext
    exact ⟨e, he, hsource⟩
  · rintro ⟨e, he, rfl⟩
    obtain ⟨g, _, _, hlast⟩ := exists_last_leaving he (leaves_iff.mpr ⟨rfl, rfl⟩)
    exact ⟨e.action, g.target, by rw [successor?_eq h, hlast, Option.map_some]⟩

/-- Where no quote stands within an action, the notes about an exit are told from their texts. -/
theorem disagree_of_told (h : build registry options d = .ok plan) {id action : String}
    (haction : '\'' ∉ action.toList) (hedges : ∀ e ∈ d.edges, '\'' ∉ e.action.toList) {e : Edge} {previous : String}
    (hleaves : leaves id action e = true) (htold : rewiredWarning e previous ∈ plan.diagnostics) :
    Disagree id action d.edges := by
  obtain ⟨rfl, rfl⟩ := leaves_iff.mp hleaves
  rw [diagnostics_eq h, List.mem_append, List.mem_map, List.mem_map] at htold
  rcases htold with ⟨cut, _, hcut⟩ | ⟨r, hr, hnote⟩
  · exact absurd hcut (graphWarning_unreachable_ne _ _ _ _)
  · have hexit := exit_eq_of_rewiredWarning_eq (hedges _ (edge_mem_of_mem_rewirings hr)) haction hnote
    exact (exists_rewiring_iff _ _ _).mp ⟨r, hr, leaves_iff.mpr hexit⟩

theorem told_of_disagree (h : build registry options d = .ok plan) {id action : String}
    (hdisagree : Disagree id action d.edges) :
    ∃ e ∈ d.edges, ∃ previous, leaves id action e = true ∧ rewiredWarning e previous ∈ plan.diagnostics := by
  obtain ⟨r, hr, hleaves⟩ := (exists_rewiring_iff _ _ _).mpr hdisagree
  refine ⟨r.edge, edge_mem_of_mem_rewirings hr, r.previous.target, hleaves, ?_⟩
  rw [diagnostics_eq h]
  exact List.mem_append_right _ (List.mem_map.mpr ⟨r, hr, rfl⟩)

/-- A plan has the exits that the edges of its document say, and the notes that these edges call for. -/
structure WiredBy (plan : Plan) (d : Document) : Prop where
  successor (id action : String) :
    plan.successor? id action = (d.edges.filter (leaves id action)).getLast?.map Edge.target
  hasSuccessors (id : String) : plan.hasSuccessors id = true ↔ ∃ e ∈ d.edges, e.source = id
  /-- The notes stand behind the findings about steps that are cut off, in the order of the edges. -/
  diagnostics :
    plan.diagnostics =
      (d.graph.unreachableFrom plan.start).map (fun id => graphWarning (.unreachable id plan.start)) ++
        (rewirings [] d.edges).map Rewiring.warning
  /-- An edge is compared with the last one before it that has its exit. -/
  rewired (r : Rewiring) : r ∈ rewirings [] d.edges ↔ r.OccursIn d.edges
  /-- There is a note about an exit just if two of its edges disagree. -/
  noted_iff (id action : String) :
    (∃ r ∈ rewirings [] d.edges, leaves id action r.edge = true) ↔ Disagree id action d.edges
  told (id action : String) : Disagree id action d.edges →
    ∃ e ∈ d.edges, ∃ previous, leaves id action e = true ∧ rewiredWarning e previous ∈ plan.diagnostics
  /-- The text of a note tells which exit it is about, unless a quote within an action makes it ambiguous. -/
  disagree_of_told (id action : String) : '\'' ∉ action.toList → (∀ e ∈ d.edges, '\'' ∉ e.action.toList) →
    ∀ e previous, leaves id action e = true → rewiredWarning e previous ∈ plan.diagnostics →
      Disagree id action d.edges

/-- The exits of a plan are those of its document, where the last edge of an exit counts, and its notes are about the
exits whose edges disagree. A document with an edge from or to a step it does not declare has no plan. -/
theorem edges_are_wired (registry : Registry) (options : PlanOptions) (d : Document) :
    (∀ plan, build registry options d = .ok plan → plan.WiredBy d) ∧
      ((∃ e ∈ d.edges, e.source ∉ d.stepIds ∨ e.target ∉ d.stepIds) →
        ∃ fault, build registry options d = .error fault) := by
  refine ⟨fun plan h => ?_, ?_⟩
  · exact {
      successor := successor?_eq h
      hasSuccessors := hasSuccessors_iff_edge h
      diagnostics := diagnostics_eq h
      rewired := fun _ => mem_rewirings_iff_occursIn
      noted_iff := fun id action => exists_rewiring_iff id action d.edges
      told := fun _ _ => told_of_disagree h
      disagree_of_told := fun _ _ haction hedges _ _ => Plan.disagree_of_told h haction hedges }
  · rintro ⟨e, he, hunknown⟩
    cases hb : build registry options d with
    | error fault => exact ⟨fault, rfl⟩
    | ok plan =>
      obtain ⟨hsource, htarget⟩ := endpoints_mem hb e he
      exact absurd hunknown (not_or.mpr ⟨not_not.mpr hsource, not_not.mpr htarget⟩)

end Plan

/-- One exit of the first step leads on by three edges, which disagree twice; the last one is that of the first. -/
def detouredDocument : Document where
  version := "1.0.0"
  name := none
  start := none
  steps := ["begin", "old", "new"].map fun id => ⟨id, "echo", none, [], none⟩
  edges :=
    [⟨"begin", "old", none⟩, ⟨"begin", "new", some "default"⟩, ⟨"new", "old", some "error"⟩, ⟨"begin", "old", none⟩]
  inputs := []
  outputs := []
  mode := .strict

theorem Plan.edges_are_wired_detoured :
    (∃ plan, Plan.build .builtin {} detouredDocument = .ok plan ∧ plan.WiredBy detouredDocument ∧
      plan.successor? "begin" "default" = some "old" ∧ plan.hasSuccessors "old" = false ∧
      (∃ e ∈ detouredDocument.edges, ∃ previous,
        leaves "begin" "default" e = true ∧ rewiredWarning e previous ∈ plan.diagnostics) ∧
      ∀ e previous, leaves "new" "error" e = true → rewiredWarning e previous ∉ plan.diagnostics) ∧
    ∃ fault, Plan.build .builtin {} { detouredDocument with edges := [⟨"begin", "nowhere", none⟩] } = .error fault := by
  constructor
  · have hbuilt : (Plan.build .builtin {} detouredDocument).toOption.any fun plan => !plan.hasSuccessors "old" := by
      decide +kernel
    obtain ⟨plan, hb, hend⟩ := any_toOption.mp hbuilt
    have hwired := (edges_are_wired .builtin {} detouredDocument).1 plan hb
    have hlast : plan.successor? "begin" "default" = some "old" := by
      rw [hwired.successor]
      decide
    have hdisagree : Disagree "begin" "default" detouredDocument.edges :=
      ⟨⟨"begin", "old", none⟩, by decide, ⟨"begin", "new", some "default"⟩, by decide, by decide, by decide, by decide⟩
    have hagree : ¬ Disagree "new" "error" detouredDocument.edges := by
      unfold Disagree
      decide
    refine ⟨plan, hb, hwired, hlast, Bool.not_eq_true' _ ▸ hend, hwired.told _ _ hdisagree, fun e previous hl ht => ?_⟩
    exact hagree (hwired.disagree_of_told "new" "error" (by decide) (by decide) e previous hl ht)
  · refine (edges_are_wired .builtin {} { detouredDocument with edges := [⟨"begin", "nowhere", none⟩] }).2 ?_
    exact ⟨⟨"begin", "nowhere", none⟩, List.mem_singleton_self _, by decide⟩

end Workflow
