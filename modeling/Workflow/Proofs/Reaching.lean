import Workflow.Proofs.Referencing

/-! Which steps are found to be cut off. Growing by rounds comes to rest with all that paths of edges lead to, and so does
a search along a queue. A run follows edges from the start, whatever its steps come to, so it never takes a step that is
cut off. -/

namespace Workflow

open Relation (ReflTransGen)

namespace Graph

variable {g : Graph} {start : String}

/-! ### Rounds -/

theorem mem_grow {seen : List String} {n : String} :
    n ∈ g.grow seen ↔ n ∈ seen ∨ n ∈ g.nodes ∧ n ∉ seen ∧ ∃ m ∈ seen, g.Edge m n := by
  simp only [grow, List.mem_append, List.mem_filter, Bool.and_eq_true, Bool.not_eq_true', List.contains_eq_mem,
    decide_eq_false_iff_not, List.any_eq_true, decide_eq_true_eq, mem_predecessors]
  constructor
  · rintro (h | ⟨hn, hnew, m, hedge, hm⟩)
    · exact .inl h
    · exact .inr ⟨hn, hnew, m, hm, hedge⟩
  · rintro (h | ⟨hn, hnew, m, hm, hedge⟩)
    · exact .inl h
    · exact .inr ⟨hn, hnew, m, hedge, hm⟩

/-- What is met from a start: declared nodes, none twice, each at the end of a path. -/
structure Reached (g : Graph) (start : String) (seen : List String) : Prop where
  start_mem : start ∈ seen
  mem : ∀ n ∈ seen, n ∈ g.nodes
  nodup : seen.Nodup
  path : ∀ n ∈ seen, ReflTransGen g.Edge start n

theorem reached_start (hs : start ∈ g.nodes) : g.Reached start [start] where
  start_mem := List.mem_singleton_self start
  mem _ hn := List.mem_singleton.mp hn ▸ hs
  nodup := List.nodup_singleton start
  path _ hn := List.mem_singleton.mp hn ▸ .refl

namespace Reached

variable {seen : List String}

theorem append (h : g.Reached start seen) {fresh : List String} (hnodup : fresh.Nodup)
    (hfresh : ∀ n ∈ fresh, n ∈ g.nodes ∧ n ∉ seen ∧ ∃ m ∈ seen, g.Edge m n) : g.Reached start (seen ++ fresh) where
  start_mem := List.mem_append_left _ h.start_mem
  mem n hn := (List.mem_append.mp hn).elim (h.mem n) fun hn => (hfresh n hn).1
  nodup := List.nodup_append.mpr ⟨h.nodup, hnodup, fun a ha b hb hab => (hfresh b hb).2.1 (hab ▸ ha)⟩
  path n hn := by
    rcases List.mem_append.mp hn with hn | hn
    · exact h.path n hn
    · obtain ⟨_, _, m, hm, hedge⟩ := hfresh n hn
      exact (h.path m hm).tail hedge

theorem length_le (h : g.Reached start seen) : seen.length ≤ g.nodes.length :=
  (h.nodup.subperm h.mem).length_le

/-- Where no edge leads out, all that paths lead to has been met. -/
theorem mem_iff (h : g.Reached start seen) (hclosed : ∀ m ∈ seen, ∀ n, g.Edge m n → n ∈ seen) {n : String} :
    n ∈ seen ↔ ReflTransGen g.Edge start n := by
  refine ⟨h.path n, fun hpath => ?_⟩
  induction hpath with
  | refl => exact h.start_mem
  | tail _ hedge ih => exact hclosed _ ih _ hedge

end Reached

theorem reach_reached (hn : g.nodes.Nodup) (hs : start ∈ g.nodes) (rounds : Nat) :
    g.Reached start (g.reach start rounds) := by
  induction rounds with
  | zero => exact reached_start hs
  | succ rounds ih =>
    refine ih.append (hn.filter _) fun n hnew => ?_
    have hgrown : n ∈ g.grow (g.reach start rounds) := List.mem_append_right _ hnew
    have hout : n ∉ g.reach start rounds := by
      have := (List.mem_filter.mp hnew).2
      simp only [Bool.and_eq_true, Bool.not_eq_true', List.contains_eq_mem, decide_eq_false_iff_not] at this
      exact this.1
    exact (mem_grow.mp hgrown).resolve_left hout

/-- A round that adds nothing is the last to add anything; until then every round adds at least one node. -/
theorem reach_rests_or_grows (g : Graph) (start : String) (rounds : Nat) :
    g.grow (g.reach start rounds) = g.reach start rounds ∨ rounds < (g.reach start rounds).length := by
  induction rounds with
  | zero => exact .inr Nat.zero_lt_one
  | succ rounds ih =>
    by_cases hrest : g.grow (g.reach start rounds) = g.reach start rounds
    · left
      simp only [reach, hrest]
    · right
      have hlt := ih.resolve_left hrest
      have hle : (g.reach start rounds).length ≤ (g.grow (g.reach start rounds)).length := by simp [grow]
      have hne : (g.grow (g.reach start rounds)).length ≠ (g.reach start rounds).length := by
        intro hlen
        simp only [grow, List.length_append, Nat.add_eq_left, List.length_eq_zero_iff] at hlen
        exact hrest (by rw [grow, hlen, List.append_nil])
      simp only [reach]
      omega

theorem mem_reach_iff (hg : g.Proper) (hn : g.nodes.Nodup) (hs : start ∈ g.nodes) {n : String} :
    n ∈ g.reach start g.nodes.length ↔ ReflTransGen g.Edge start n := by
  have hreached := reach_reached hn hs g.nodes.length
  have hrest : g.grow (g.reach start g.nodes.length) = g.reach start g.nodes.length := by
    refine (g.reach_rests_or_grows start g.nodes.length).resolve_right ?_
    have := hreached.length_le
    omega
  refine hreached.mem_iff fun m hm n hedge => ?_
  by_contra hout
  have hgrown := mem_grow.mpr (.inr ⟨hg.target_mem hedge, hout, m, hm, hedge⟩)
  rw [hrest] at hgrown
  exact hout hgrown

/-! ### The queue -/

/-- What a search along a queue knows: every node it has met still waits, or has handed on all that its edges lead to. -/
structure Spreads (g : Graph) (start : String) (queue seen : List String) : Prop extends g.Reached start seen where
  queued : ∀ n ∈ queue, n ∈ seen
  settled : ∀ n ∈ seen, n ∈ queue ∨ ∀ m, g.Edge n m → m ∈ seen

theorem Spreads.next (hg : g.Proper) {n : String} {queue seen : List String} (h : g.Spreads start (n :: queue) seen) :
    let fresh := (g.successors n).filter fun m => !seen.contains m
    g.Spreads start (queue ++ fresh) (seen ++ fresh) := by
  intro fresh
  have hfresh : ∀ m, m ∈ fresh ↔ g.Edge n m ∧ m ∉ seen := by
    intro m
    simp [fresh, mem_successors]
  have hn : n ∈ seen := h.queued n List.mem_cons_self
  refine ⟨h.append ((hg.successors_nodup n).filter _) ?_, ?_, ?_⟩
  · intro m hm
    obtain ⟨hedge, hnew⟩ := (hfresh m).mp hm
    exact ⟨hg.target_mem hedge, hnew, n, hn, hedge⟩
  · intro m hm
    rcases List.mem_append.mp hm with hm | hm
    · exact List.mem_append_left _ (h.queued m (List.mem_cons_of_mem _ hm))
    · exact List.mem_append_right _ hm
  · intro m hm
    rcases List.mem_append.mp hm with hm | hm
    · rcases h.settled m hm with hwaits | hdone
      · rcases List.mem_cons.mp hwaits with rfl | hwaits
        · -- the node that is taken hands on what it leads to
          right
          intro k hedge
          by_cases hk : k ∈ seen
          · exact List.mem_append_left _ hk
          · exact List.mem_append_right _ ((hfresh k).mpr ⟨hedge, hk⟩)
        · exact .inl (List.mem_append_left _ hwaits)
      · exact .inr fun k hedge => List.mem_append_left _ (hdone k hedge)
    · exact .inl (List.mem_append_right _ hm)

/-- The queue runs empty before the fuel does: every node is queued once. -/
theorem spread_spreads (hg : g.Proper) (fuel : Nat) {queue seen : List String} (h : g.Spreads start queue seen)
    (hfuel : queue.length + g.nodes.length ≤ fuel + seen.length) : g.Spreads start [] (g.spread fuel queue seen) := by
  induction fuel generalizing queue seen with
  | zero =>
    have hle := h.length_le
    have hempty : queue = [] := List.length_eq_zero_iff.mp (by omega)
    subst hempty
    exact h
  | succ fuel ih =>
    cases queue with
    | nil => exact h
    | cons n queue =>
      rw [spread]
      refine ih (h.next hg) ?_
      simp only [List.length_cons, List.length_append] at hfuel ⊢
      omega

theorem mem_spread_iff (hg : g.Proper) (hs : start ∈ g.nodes) {n : String} :
    n ∈ g.spread g.nodes.length [start] [start] ↔ ReflTransGen g.Edge start n := by
  have hbegin : g.Spreads start [start] [start] := ⟨reached_start hs, fun _ => id, fun _ => .inl⟩
  have hend := spread_spreads hg g.nodes.length hbegin (Nat.add_comm _ _).le
  exact hend.mem_iff fun m hm => (hend.settled m hm).resolve_left List.not_mem_nil

theorem mem_unreachableFrom (hg : g.Proper) (hn : g.nodes.Nodup) (hs : start ∈ g.nodes) {n : String} :
    n ∈ g.unreachableFrom start ↔ n ∈ g.nodes ∧ ¬ ReflTransGen g.Edge start n := by
  rw [unreachableFrom, if_pos (List.contains_iff_mem.mpr hs)]
  simp only [List.mem_filter, Bool.not_eq_true', List.contains_eq_mem, decide_eq_false_iff_not, mem_reach_iff hg hn hs]

theorem unreachableFrom_sublist (g : Graph) (start : String) : (g.unreachableFrom start).Sublist g.nodes := by
  unfold unreachableFrom
  split
  · exact List.filter_sublist
  · exact List.nil_sublist _

theorem unreachableByQueue_eq (hg : g.Proper) (hn : g.nodes.Nodup) (start : String) :
    g.unreachableByQueue start = g.unreachableFrom start := by
  unfold unreachableByQueue unreachableFrom
  split
  · rename_i hs
    refine List.filter_congr fun n _ => congrArg Bool.not (Bool.eq_iff_iff.mpr ?_)
    have hs : start ∈ g.nodes := List.contains_iff_mem.mp hs
    rw [List.contains_iff_mem, List.contains_iff_mem, mem_spread_iff hg hs, mem_reach_iff hg hn hs]
  · rfl

end Graph

/-! ### Steps that are cut off -/

namespace DataFlow

theorem mem_checkReachability {d : Document} {id start : String} :
    Diagnostic.unreachable id start ∈ checkReachability d ↔
      d.assumedStart? = some start ∧ id ∈ d.graph.unreachableFrom start := by
  unfold checkReachability
  cases d.assumedStart? with
  | none => simp
  | some first =>
    simp only [List.mem_map, Diagnostic.unreachable.injEq, Option.some.injEq]
    constructor
    · rintro ⟨_, hid, rfl, rfl⟩
      exact ⟨rfl, hid⟩
    · rintro ⟨rfl, hid⟩
      exact ⟨id, hid, rfl, rfl⟩

/-- Of the findings about a document those about steps that are cut off come from one check. -/
theorem unreachable_mem_validate {d : Document} {external : List String} {id start : String} :
    Diagnostic.unreachable id start ∈ validate d external ↔ .unreachable id start ∈ checkReachability d := by
  have hstdin : Diagnostic.unreachable id start ∉ checkStdin d := by
    simp only [checkStdin]
    split <;> simp
  have hreferences : Diagnostic.unreachable id start ∉ checkReferences d d.graph.order.toOption external := by
    intro hmem
    cases Document.isAboutReference_of_checkReferences hmem
  have hcycles : ∀ cycles : List (List String), Diagnostic.unreachable id start ∉ cycles.map Diagnostic.cycle := by
    simp
  unfold validate
  simp only [List.mem_append, hstdin, hreferences, or_false, false_or]
  split
  · simp
  · simp [hcycles]

end DataFlow

namespace Plan

variable {registry : Registry} {options : PlanOptions} {d : Document} {plan : Plan}

/-- Data flow and the plan begin at the same step, although each finds it by itself. -/
theorem assumedStart?_eq (h : build registry options d = .ok plan) :
    (view registry d).assumedStart? = some plan.start := by
  obtain ⟨s, hs, rfl⟩ := build_eq_ok_iff.mp h
  have hstarted := hs.started
  have hassumed : (view registry d).assumedStart? = d.start.or d.stepIds.head? := by
    rw [Document.assumedStart?, view_stepIds]
    rfl
  rw [hassumed]
  unfold detectStart at hstarted
  split at hstarted
  · rename_i start hstart
    rw [hstart]
    split at hstarted
    · cases hstarted
      rfl
    · cases hstarted
  · rename_i hstart
    rw [hstart]
    split at hstarted
    · cases hstarted
    · rename_i first rest hids
      cases hstarted
      rw [hids]
      rfl

theorem stepIds_nodup (h : build registry options d = .ok plan) : d.stepIds.Nodup := by
  obtain ⟨s, hs, _⟩ := build_eq_ok_iff.mp h
  exact Document.stepIds_nodup hs.identity

/-- The steps of a plan that are reported as cut off are those that no path of edges leads to from its start. -/
theorem unreachable_mem_validate (h : build registry options d = .ok plan) {id start : String} :
    Diagnostic.unreachable id start ∈ DataFlow.validate (view registry d) options.external ↔
      start = plan.start ∧ id ∈ d.stepIds ∧ ¬ ReflTransGen d.Leads plan.start id := by
  rw [DataFlow.unreachable_mem_validate, DataFlow.mem_checkReachability, assumedStart?_eq h, view_graph,
    Option.some.injEq]
  have hmem : id ∈ d.graph.unreachableFrom plan.start ↔ id ∈ d.stepIds ∧ ¬ ReflTransGen d.Leads plan.start id := by
    rw [← d.graph_edge]
    exact Graph.mem_unreachableFrom d.graph_proper (stepIds_nodup h) (start_mem h)
  constructor
  · rintro ⟨rfl, hid⟩
    exact ⟨rfl, hmem.mp hid⟩
  · rintro ⟨rfl, hid⟩
    exact ⟨rfl, hmem.mpr hid⟩

/-- What is found about a document and does not stop it is kept with its plan. -/
theorem graphWarning_mem_diagnostics (h : build registry options d = .ok plan) {finding : Diagnostic}
    (hmem : finding ∈ DataFlow.validate (view registry d) options.external) :
    graphWarning finding ∈ plan.diagnostics := by
  obtain ⟨s, hs, rfl⟩ := build_eq_ok_iff.mp h
  have hkept := (validate_eq_ok_iff.mp hs.valid).2
  exact List.mem_append_left _ (hkept ▸ List.mem_map_of_mem hmem)

/-- One step of a walk goes along an edge of the document. -/
theorem leads_of_follow (h : build registry options d = .ok plan) {v : Visit} {next : String} {context : Context}
    (hf : plan.follow v = .go next context) : d.Leads v.stepId next := by
  obtain ⟨action, _, hnext⟩ := follow_eq_go hf
  obtain ⟨e, he, hsource, _, htarget⟩ := successor?_eq_some h hnext
  rw [← hsource, ← htarget]
  exact ⟨endpoints_mem h e he, e, he, rfl, rfl⟩

/-- A run comes only to steps that a path of edges leads to. -/
theorem execute_reachable (h : build registry options d = .ok plan) (units : UnitMaker) (context : Context)
    (params : Fields) : ∀ v ∈ (plan.execute units context params).visits, ReflTransGen d.Leads plan.start v.stepId := by
  intro v hv
  rw [execute_visits] at hv
  cases hbound : bindInputs plan.inputs params with
  | error fault =>
    rw [hbound] at hv
    exact absurd hv List.not_mem_nil
  | ok bindings =>
    rw [hbound] at hv
    refine (walk_invariant (fun id _ => ReflTransGen d.Leads plan.start id) ?_ .refl hv).1
    intro id p before next left _ hpath hf
    exact hpath.tail (leads_of_follow h hf)

end Plan

/-- Steps that no path of edges leads to from a start: all of them, each once and in the order of their declaration. -/
structure Document.CutOff (d : Document) (start : String) (ids : List String) : Prop where
  declared : ids.Sublist d.stepIds
  nodup : ids.Nodup
  mem_iff : ∀ id, id ∈ ids ↔ id ∈ d.stepIds ∧ ¬ ReflTransGen d.Leads start id

/-- The search finds the steps that are cut off from a declared start, by rounds and along a queue alike. The steps that
are reported of a document with a plan are those cut off from the start of the plan, and no run of it takes any. -/
theorem Document.unreachable_steps_never_run (d : Document) :
    (d.stepIds.Nodup → ∀ start ∈ d.stepIds,
      d.CutOff start (d.graph.unreachableFrom start) ∧
        d.graph.unreachableByQueue start = d.graph.unreachableFrom start) ∧
    ∀ registry options plan, Plan.build registry options d = .ok plan → ∀ id start,
      (.unreachable id start ∈ DataFlow.validate (Plan.view registry d) options.external ↔
        start = plan.start ∧ id ∈ d.stepIds ∧ ¬ ReflTransGen d.Leads plan.start id) ∧
      (.unreachable id start ∈ DataFlow.validate (Plan.view registry d) options.external →
        Plan.graphWarning (.unreachable id start) ∈ plan.diagnostics ∧
          ∀ units context params, ∀ v ∈ (plan.execute units context params).visits, v.stepId ≠ id) := by
  refine ⟨fun hd start hs => ⟨⟨?_, ?_, fun id => ?_⟩, ?_⟩, fun registry options plan hb id start => ⟨?_, fun hmem => ?_⟩⟩
  · exact d.graph.unreachableFrom_sublist start
  · exact hd.sublist (d.graph.unreachableFrom_sublist start)
  · rw [← d.graph_edge]
    exact Graph.mem_unreachableFrom d.graph_proper hd hs
  · exact Graph.unreachableByQueue_eq d.graph_proper hd start
  · exact Plan.unreachable_mem_validate hb
  · refine ⟨Plan.graphWarning_mem_diagnostics hb hmem, fun units context params v hv heq => ?_⟩
    have hcut := ((Plan.unreachable_mem_validate hb).mp hmem).2.2
    exact hcut (heq ▸ Plan.execute_reachable hb units context params v hv)

/-- The edge to the old step is overwritten, but still counts; two steps lead to the new one and are led to by none. -/
def detourDocument : Document where
  version := "1"
  name := none
  start := some "begin"
  steps :=
    [⟨"island", "echo", none, [], none⟩, ⟨"old", "echo", none, [], none⟩, ⟨"begin", "echo", none, [], none⟩,
      ⟨"lost", "fail", none, [], none⟩, ⟨"new", "fail", none, [], none⟩]
  edges :=
    [⟨"begin", "old", none⟩, ⟨"begin", "new", some "default"⟩, ⟨"island", "lost", none⟩, ⟨"lost", "new", some "error"⟩]
  inputs := []
  outputs := []
  mode := .strict

theorem unreachable_steps_never_run_detour :
    detourDocument.CutOff "begin" ["island", "lost"] ∧
      ∃ plan, Plan.build .builtin {} detourDocument = .ok plan ∧
        .unreachable "lost" "begin" ∈ DataFlow.validate (Plan.view .builtin detourDocument) [] ∧
        Plan.graphWarning (.unreachable "lost" "begin") ∈ plan.diagnostics ∧
        ∀ units context params, ∀ v ∈ (plan.execute units context params).visits, v.stepId ≠ "lost" := by
  obtain ⟨hexact, hsound⟩ := Document.unreachable_steps_never_run detourDocument
  have hcut := (hexact (by decide) "begin" (by decide)).1
  have hids : detourDocument.graph.unreachableFrom "begin" = ["island", "lost"] := by decide +kernel
  rw [hids] at hcut
  refine ⟨hcut, ?_⟩
  have hok : (Plan.build .builtin {} detourDocument).toOption.isSome = true := by decide +kernel
  cases hb : Plan.build .builtin {} detourDocument with
  | error fault =>
    rw [hb] at hok
    cases hok
  | ok plan =>
    obtain ⟨hiff, hnever⟩ := hsound .builtin {} plan hb "lost" "begin"
    have hfound : .unreachable "lost" "begin" ∈ DataFlow.validate (Plan.view .builtin detourDocument) [] := by
      decide +kernel
    obtain ⟨hkept, hvisits⟩ := hnever hfound
    exact ⟨plan, rfl, hfound, hkept, hvisits⟩

end Workflow
