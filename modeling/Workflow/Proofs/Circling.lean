import Workflow.DataFlow
import Workflow.Proofs.Ordering
import Mathlib.Data.List.Chain

/-! What the search for cycles reports: closed paths along edges, none of them twice, that together pass through every
node on a cycle. The depth-first search closes a path wherever an edge leads back into it. Nodes on a cycle that it only
meets behind finished ones are left to the breadth-first search, so the cover does not rest on the first search. -/

namespace Workflow

namespace Graph

open Relation (TransGen)

variable {g : Graph}

/-! ### Rounds -/

/-- A cycle before it is closed: an edge leads from each node to the next, and from the last to the first. -/
structure Round (g : Graph) (cycle : List String) : Prop where
  ne_nil : cycle ≠ []
  nodup : cycle.Nodup
  chain : (closed cycle).IsChain g.Edge

theorem round_of_chain {cycle : List String} (hne : cycle ≠ []) (hnodup : cycle.Nodup) (hchain : cycle.IsChain g.Edge)
    (hback : ∀ last ∈ cycle.getLast?, ∀ first ∈ cycle.head?, g.Edge last first) : g.Round cycle where
  ne_nil := hne
  nodup := hnodup
  chain := by
    cases cycle with
    | nil => exact absurd rfl hne
    | cons first rest =>
      refine List.IsChain.append hchain (List.isChain_singleton first) ?_
      intro last hlast next hnext
      cases hnext
      exact hback last hlast first rfl

theorem eq_of_closed_eq {c c' : List String} (hne : c ≠ []) (hne' : c' ≠ []) (h : closed c = closed c') : c = c' := by
  have hopen : ∀ cycle : List String, cycle ≠ [] → (closed cycle).dropLast = cycle := by
    intro cycle hcycle
    cases cycle with
    | nil => exact absurd rfl hcycle
    | cons first rest => exact List.dropLast_concat
  rw [← hopen c hne, h, hopen c' hne']

theorem transGen_of_chain {first last : String} {between : List String}
    (h : (first :: between ++ [last]).IsChain g.Edge) : TransGen g.Edge first last := by
  induction between generalizing first with
  | nil => exact .single (List.isChain_pair.mp h)
  | cons next between ih =>
    obtain ⟨hedge, hrest⟩ := List.isChain_cons_cons.mp h
    exact .head hedge (ih hrest)

theorem Round.cyclic {cycle : List String} (h : g.Round cycle) : g.Cyclic := by
  cases cycle with
  | nil => exact absurd rfl h.ne_nil
  | cons first rest => exact ⟨first, transGen_of_chain h.chain⟩

/-! ### The depth-first search -/

/-- What a visit does at the end of one of its edges. -/
def explore (g : Graph) (fuel : Nat) (path : List String) (s : Search) (next : String) : Search :=
  if path.contains next then { s with cycles := s.cycles ++ [path.dropWhile (· ≠ next)] }
  else if s.finished.contains next then s
  else g.visit fuel path next s

theorem visit_succ (g : Graph) (fuel : Nat) (path : List String) (n : String) (s : Search) :
    g.visit (fuel + 1) path n s =
      let left := (g.successors n).foldl (g.explore fuel (path ++ [n])) s
      { left with finished := n :: left.finished } := rfl

/-- A path down which the search has come. -/
structure Descent (g : Graph) (path : List String) : Prop where
  nodup : path.Nodup
  chain : path.IsChain g.Edge

theorem Descent.snoc {path : List String} {n next : String} (h : g.Descent (path ++ [n])) (hedge : g.Edge n next)
    (hnew : next ∉ path ++ [n]) : g.Descent (path ++ [n] ++ [next]) where
  nodup := List.nodup_append.mpr ⟨h.nodup, List.nodup_singleton next, fun a ha b hb hab =>
    hnew (List.mem_singleton.mp hb ▸ hab ▸ ha)⟩
  chain := by
    refine List.IsChain.append h.chain (List.isChain_singleton next) ?_
    intro a ha b hb
    rw [List.getLast?_concat] at ha
    cases ha
    cases hb
    exact hedge

theorem dropWhile_of_mem {l : List String} {a : String} (h : a ∈ l) :
    ∃ before after, l = before ++ a :: after ∧ l.dropWhile (· ≠ a) = a :: after := by
  obtain ⟨before, after, rfl, hbefore⟩ := List.eq_append_cons_of_mem h
  refine ⟨before, after, rfl, ?_⟩
  rw [List.dropWhile_append_of_pos, List.dropWhile_cons_of_neg]
  · simp
  · intro b hb
    simpa using fun heq : b = a => hbefore (heq ▸ hb)

/-- An edge back into the path closes a round, which begins at the end of the edge and ends where it leaves. -/
theorem Descent.round {path : List String} {n next : String} (h : g.Descent (path ++ [n])) (hedge : g.Edge n next)
    (hback : next ∈ path ++ [n]) :
    g.Round ((path ++ [n]).dropWhile (· ≠ next)) ∧ ((path ++ [n]).dropWhile (· ≠ next)).head? = some next ∧
      ((path ++ [n]).dropWhile (· ≠ next)).getLast? = some n := by
  obtain ⟨before, after, hpath, hdrop⟩ := dropWhile_of_mem hback
  have hlast : (next :: after).getLast? = some n := by
    have := List.getLast?_append_cons before next after
    rw [← this, ← hpath, List.getLast?_concat]
  have hsuffix : next :: after <:+ path ++ [n] := ⟨before, hpath.symm⟩
  rw [hdrop]
  refine ⟨round_of_chain (List.cons_ne_nil next after) (h.nodup.sublist hsuffix.sublist) (h.chain.suffix hsuffix) ?_,
    rfl, hlast⟩
  intro last hl first hf
  rw [hlast] at hl
  cases hl
  cases hf
  exact hedge

namespace Search

/-- What a search has found are rounds, none twice, each closed by an edge that leaves a finished node or the path. -/
structure Sound (g : Graph) (path : List String) (s : Search) : Prop where
  rounds : ∀ c ∈ s.cycles, g.Round c
  nodup : s.cycles.Nodup
  leaves : ∀ c ∈ s.cycles, ∀ n ∈ c.getLast?, n ∈ s.finished ∨ n ∈ path

/-- How a search goes on below a path: what it finds there is not closed by edges that leave the path. -/
structure Deepens (g : Graph) (path : List String) (s s' : Search) : Prop where
  sound : s'.Sound g path
  fresh : ∀ c ∈ s'.cycles, c ∈ s.cycles ∨ ∀ n ∈ c.getLast?, n ∉ path

/-- How far a visit of a node has come: the edges so far have closed the rounds that end at the node. -/
structure Visits (g : Graph) (path : List String) (n : String) (s : Search) (tried : List String) (s' : Search) : Prop
    where
  sound : s'.Sound g (path ++ [n])
  fresh : ∀ c ∈ s'.cycles, c ∈ s.cycles ∨ ∀ m ∈ c.getLast?, m ∉ path
  own : ∀ c ∈ s'.cycles, c.getLast? = some n → ∃ next ∈ tried, c.head? = some next

end Search

theorem explore_visits {fuel : Nat} {path : List String} {n next : String} {s s' : Search} {tried : List String}
    (ih : ∀ {s : Search}, g.Descent (path ++ [n] ++ [next]) → next ∉ s.finished → s.Sound g (path ++ [n]) →
      s.Deepens g (path ++ [n]) (g.visit fuel (path ++ [n]) next s))
    (hpath : g.Descent (path ++ [n])) (hedge : g.Edge n next) (hnew : next ∉ tried)
    (h : s.Visits g path n tried s') :
    s.Visits g path n (tried ++ [next]) (g.explore fuel (path ++ [n]) s' next) := by
  have hkeep : ∀ c ∈ s'.cycles, c.getLast? = some n → ∃ m ∈ tried ++ [next], c.head? = some m := by
    intro c hc hlast
    obtain ⟨m, hm, hhead⟩ := h.own c hc hlast
    exact ⟨m, List.mem_append_left _ hm, hhead⟩
  unfold explore
  split
  · rename_i hback
    obtain ⟨hround, hhead, hlast⟩ := hpath.round hedge (by simpa using hback)
    have hn : n ∉ path :=
      fun hmem => List.disjoint_of_nodup_append hpath.nodup hmem (List.mem_singleton_self n)
    refine ⟨⟨?_, ?_, ?_⟩, ?_, ?_⟩
    · intro c hc
      rcases List.mem_append.mp hc with hc | hc
      · exact h.sound.rounds c hc
      · exact List.mem_singleton.mp hc ▸ hround
    · refine List.nodup_append.mpr ⟨h.sound.nodup, List.nodup_singleton _, ?_⟩
      intro c hc c' hc' heq
      rw [List.mem_singleton.mp hc'] at heq
      subst heq
      -- The edge has not been tried yet, so no round found so far begins and ends as this one does.
      obtain ⟨m, hm, hm'⟩ := h.own _ hc hlast
      rw [hhead] at hm'
      cases hm'
      exact hnew hm
    · intro c hc m hm
      rcases List.mem_append.mp hc with hc | hc
      · exact h.sound.leaves c hc m hm
      · rw [List.mem_singleton.mp hc, hlast] at hm
        cases hm
        exact .inr (List.mem_append_right _ (List.mem_singleton_self n))
    · intro c hc
      rcases List.mem_append.mp hc with hc | hc
      · exact h.fresh c hc
      · right
        intro m hm
        rw [List.mem_singleton.mp hc, hlast] at hm
        cases hm
        exact hn
    · intro c hc hl
      rcases List.mem_append.mp hc with hc | hc
      · exact hkeep c hc hl
      · exact ⟨next, List.mem_append_right _ (List.mem_singleton_self next), List.mem_singleton.mp hc ▸ hhead⟩
  · rename_i hback
    split
    · exact ⟨h.sound, h.fresh, hkeep⟩
    · rename_i hfinished
      have hdeep := ih (hpath.snoc hedge (by simpa using hback)) (by simpa using hfinished) h.sound
      refine ⟨hdeep.sound, ?_, ?_⟩
      · intro c hc
        rcases hdeep.fresh c hc with hc | hc
        · exact h.fresh c hc
        · exact .inr fun m hm hmem => hc m hm (List.mem_append_left _ hmem)
      · intro c hc hl
        rcases hdeep.fresh c hc with hc | hc
        · exact hkeep c hc hl
        · exact absurd (List.mem_append_right _ (List.mem_singleton_self n)) (hc n hl)

/-- Where each step of a fold adds its element to what is done, the whole fold gets all done. -/
theorem foldl_tried {α β : Type} {f : β → α → β} {P : List α → β → Prop} {l : List α} {b : β} (h : P [] b)
    (hstep : ∀ tried x rest b, l = tried ++ x :: rest → P tried b → P (tried ++ [x]) (f b x)) : P l (l.foldl f b) := by
  suffices hgo : ∀ rest tried b, l = tried ++ rest → P tried b → P l (rest.foldl f b) from hgo l [] b rfl h
  intro rest
  induction rest with
  | nil =>
    intro tried b heq hb
    rw [heq, List.append_nil]
    exact hb
  | cons x rest ih =>
    intro tried b heq hb
    exact ih (tried ++ [x]) (f b x) (by simpa using heq) (hstep tried x rest b heq hb)

/-- A visit keeps the search sound. A node is visited once, and each of its edges closes one round at most. -/
theorem visit_deepens (hg : g.Proper) (fuel : Nat) {path : List String} {n : String} {s : Search}
    (hpath : g.Descent (path ++ [n])) (hn : n ∉ s.finished) (hs : s.Sound g path) :
    s.Deepens g path (g.visit fuel path n s) := by
  induction fuel generalizing path n s with
  | zero => exact ⟨hs, fun c hc => .inl hc⟩
  | succ fuel ih =>
    have hnpath : n ∉ path :=
      fun hmem => List.disjoint_of_nodup_append hpath.nodup hmem (List.mem_singleton_self n)
    have hstart : s.Visits g path n [] s := by
      refine ⟨⟨hs.rounds, hs.nodup, ?_⟩, fun c hc => .inl hc, ?_⟩
      · exact fun c hc m hm => (hs.leaves c hc m hm).imp_right (List.mem_append_left _)
      · intro c hc hlast
        exact ((hs.leaves c hc n hlast).elim hn hnpath).elim
    have hend : s.Visits g path n (g.successors n) ((g.successors n).foldl (g.explore fuel (path ++ [n])) s) := by
      refine foldl_tried hstart fun tried next rest s' hsplit hs' => ?_
      have hedge : g.Edge n next := (g.mem_successors n next).mp (hsplit ▸ by simp)
      have hnew : next ∉ tried :=
        fun hmem => List.disjoint_of_nodup_append (hsplit ▸ hg.successors_nodup n) hmem List.mem_cons_self
      exact explore_visits ih hpath hedge hnew hs'
    rw [visit_succ]
    refine ⟨⟨hend.sound.rounds, hend.sound.nodup, ?_⟩, hend.fresh⟩
    intro c hc m hm
    rcases hend.sound.leaves c hc m hm with hm | hm
    · exact .inl (List.mem_cons_of_mem _ hm)
    · rcases List.mem_append.mp hm with hm | hm
      · exact .inr hm
      · exact .inl (List.mem_singleton.mp hm ▸ List.mem_cons_self)

theorem backCycles_sound (hg : g.Proper) : (∀ c ∈ g.backCycles, g.Round c) ∧ g.backCycles.Nodup := by
  let enter (s : Search) (n : String) : Search :=
    if s.finished.contains n then s else g.visit (g.nodes.length + 1) [] n s
  have hsound : (g.nodes.foldl enter ⟨[], []⟩).Sound g [] := by
    refine foldl_tried (P := fun _ (s : Search) => s.Sound g []) ⟨by simp, List.nodup_nil, by simp⟩ ?_
    intro _ n _ s _ hs
    by_cases hn : s.finished.contains n
    · simpa only [enter, if_pos hn] using hs
    · have hpath : g.Descent ([] ++ [n]) := ⟨List.nodup_singleton n, List.isChain_singleton n⟩
      simpa only [enter, if_neg hn] using (visit_deepens hg _ hpath (by simpa using hn) hs).sound
  exact ⟨hsound.rounds, hsound.nodup⟩

/-! ### The breadth-first search -/

structure Approach (g : Graph) (goal : String) (seen path : List String) : Prop where
  start : path.getLast? = some goal
  nodup : path.Nodup
  chain : path.reverse.IsChain g.Edge
  met : ∀ n ∈ path, n = goal ∨ n ∈ seen

namespace Approach

variable {goal : String} {seen path : List String}

theorem mono (h : g.Approach goal seen path) (fresh : List String) : g.Approach goal (seen ++ fresh) path where
  start := h.start
  nodup := h.nodup
  chain := h.chain
  met n hn := (h.met n hn).imp_right (List.mem_append_left _)

theorem head? (h : g.Approach goal seen path) : path.head? = some (path.headD goal) := by
  cases path with
  | nil => cases h.start
  | cons last rest => rfl

theorem cons (h : g.Approach goal seen path) {fresh : List String} {m : String} (hm : m ∈ fresh)
    (hedge : g.Edge (path.headD goal) m) (hgoal : m ≠ goal) (hseen : m ∉ seen) :
    g.Approach goal (seen ++ fresh) (m :: path) where
  start := by rw [List.getLast?_cons, h.start, Option.getD_some]
  nodup := List.nodup_cons.mpr ⟨fun hmem => (h.met m hmem).elim hgoal hseen, h.nodup⟩
  chain := by
    rw [List.reverse_cons]
    refine List.IsChain.append h.chain (List.isChain_singleton m) ?_
    intro a ha b hb
    rw [List.getLast?_reverse, h.head?] at ha
    cases ha
    cases hb
    exact hedge
  met n hn := by
    rcases List.mem_cons.mp hn with rfl | hn
    · exact .inr (List.mem_append_right _ hm)
    · exact (h.met n hn).imp_right (List.mem_append_left _)

theorem round (h : g.Approach goal seen path) (hedge : g.Edge (path.headD goal) goal) :
    g.Round path.reverse ∧ goal ∈ path.reverse := by
  have hgoal : path.reverse.head? = some goal := by rw [List.head?_reverse, h.start]
  have hmem := List.mem_of_mem_head? hgoal
  refine ⟨round_of_chain (List.ne_nil_of_mem hmem) (List.nodup_reverse.mpr h.nodup) h.chain ?_, hmem⟩
  intro last hlast first hfirst
  rw [List.getLast?_reverse, h.head?] at hlast
  rw [hgoal] at hfirst
  cases hlast
  cases hfirst
  exact hedge

end Approach

theorem searchBack_round {goal : String} (fuel : Nat) {queue : List (List String)} {seen cycle : List String}
    (hqueue : ∀ path ∈ queue, g.Approach goal seen path) (h : g.searchBack goal fuel queue seen = some cycle) :
    g.Round cycle ∧ goal ∈ cycle := by
  induction fuel generalizing queue seen with
  | zero => cases h
  | succ fuel ih =>
    cases queue with
    | nil => cases h
    | cons path queue =>
      have hpath := hqueue path List.mem_cons_self
      rw [searchBack] at h
      split at h
      · rename_i hback
        cases h
        exact hpath.round ((g.mem_successors _ _).mp (by simpa using hback))
      · rename_i hback
        refine ih ?_ h
        intro longer hlonger
        rcases List.mem_append.mp hlonger with hold | hnew
        · exact (hqueue longer (List.mem_cons_of_mem _ hold)).mono _
        · obtain ⟨m, hm, rfl⟩ := List.mem_map.mp hnew
          obtain ⟨hedge, hseen⟩ := List.mem_filter.mp hm
          refine hpath.cons hm ((g.mem_successors _ _).mp hedge) ?_ (by simpa using hseen)
          rintro rfl
          exact hback (by simpa using hedge)

theorem cycleThrough_round {n : String} {cycle : List String} (h : g.cycleThrough n = some cycle) :
    g.Round cycle ∧ n ∈ cycle := by
  have hstart : ∀ path ∈ [[n]], g.Approach n [] path := by
    intro path hpath
    rw [List.mem_singleton.mp hpath]
    exact ⟨rfl, List.nodup_singleton n, List.isChain_singleton n, fun m hm => .inl (List.mem_singleton.mp hm)⟩
  exact searchBack_round _ hstart h

/-! ### All cycles -/

theorem coverNode_sound {cycles : List (List String)} (h : (∀ c ∈ cycles, g.Round c) ∧ cycles.Nodup) (n : String) :
    (∀ c ∈ g.coverNode cycles n, g.Round c) ∧ (g.coverNode cycles n).Nodup := by
  unfold coverNode
  split
  · exact h
  · rename_i huncovered
    cases hc : g.cycleThrough n with
    | none => exact h
    | some cycle =>
      obtain ⟨hround, hmem⟩ := cycleThrough_round hc
      refine ⟨?_, List.nodup_append.mpr ⟨h.2, List.nodup_singleton cycle, ?_⟩⟩
      · intro c hc
        rcases List.mem_append.mp hc with hc | hc
        · exact h.1 c hc
        · exact List.mem_singleton.mp hc ▸ hround
      · intro c hold c' hnew heq
        rw [List.mem_singleton.mp hnew] at heq
        subst heq
        have hcovered : cycles.any (·.contains n) = true := by simpa using ⟨c, hold, hmem⟩
        exact huncovered hcovered

theorem foldl_coverNode_sound (nodes : List String) {cycles : List (List String)}
    (h : (∀ c ∈ cycles, g.Round c) ∧ cycles.Nodup) :
    (∀ c ∈ nodes.foldl g.coverNode cycles, g.Round c) ∧ (nodes.foldl g.coverNode cycles).Nodup :=
  foldl_tried (P := fun _ (cycles : List (List String)) => (∀ c ∈ cycles, g.Round c) ∧ cycles.Nodup) h
    fun _ n _ _ _ hcycles => coverNode_sound hcycles n

/-- What is reported are rounds, closed, and none of them twice. -/
theorem cycles_sound (hg : g.Proper) :
    (∀ path ∈ g.cycles, ∃ cycle, g.Round cycle ∧ path = closed cycle) ∧ g.cycles.Nodup := by
  obtain ⟨hrounds, hnodup⟩ := foldl_coverNode_sound g.nodes (backCycles_sound hg)
  constructor
  · intro path hpath
    obtain ⟨cycle, hcycle, rfl⟩ := List.mem_map.mp hpath
    exact ⟨cycle, hrounds cycle hcycle, rfl⟩
  · refine (List.nodup_map_iff_inj_on hnodup).mpr ?_
    intro c hc c' hc' heq
    exact eq_of_closed_eq (hrounds c hc).ne_nil (hrounds c' hc').ne_nil heq

theorem subset_coverNode (cycles : List (List String)) (n : String) : cycles ⊆ g.coverNode cycles n := by
  unfold coverNode
  split
  · exact List.Subset.refl _
  · split
    · exact List.Subset.refl _
    · exact List.subset_append_left _ _

theorem covered_of_coverNode (hg : g.Proper) (cycles : List (List String)) {n : String} (h : TransGen g.Edge n n) :
    ∃ cycle ∈ g.coverNode cycles n, n ∈ cycle := by
  unfold coverNode
  split
  · rename_i hcovered
    simpa using hcovered
  · obtain ⟨cycle, hc⟩ := Option.isSome_iff_exists.mp (cycleThrough_isSome hg h)
    rw [hc]
    exact ⟨cycle, List.mem_append_right _ (List.mem_singleton_self cycle), (cycleThrough_round hc).2⟩

theorem foldl_coverNode (hg : g.Proper) (nodes : List String) (cycles : List (List String)) :
    cycles ⊆ nodes.foldl g.coverNode cycles ∧
      ∀ n ∈ nodes, TransGen g.Edge n n → ∃ cycle ∈ nodes.foldl g.coverNode cycles, n ∈ cycle := by
  induction nodes generalizing cycles with
  | nil => exact ⟨List.Subset.refl _, fun n hn => absurd hn List.not_mem_nil⟩
  | cons m nodes ih =>
    obtain ⟨hkept, hcovered⟩ := ih (g.coverNode cycles m)
    refine ⟨List.Subset.trans (subset_coverNode cycles m) hkept, ?_⟩
    intro n hn hcycle
    rcases List.mem_cons.mp hn with rfl | hn
    · obtain ⟨cycle, hmem, hin⟩ := covered_of_coverNode hg cycles hcycle
      exact ⟨cycle, hkept hmem, hin⟩
    · exact hcovered n hn hcycle

/-- Every node on a cycle lies on one of the cycles that are found. -/
theorem cycles_cover (hg : g.Proper) {n : String} (h : TransGen g.Edge n n) : ∃ path ∈ g.cycles, n ∈ path := by
  have hmem : n ∈ g.nodes := by
    cases h with
    | single hab => exact hg.target_mem hab
    | tail _ hab => exact hg.target_mem hab
  obtain ⟨cycle, hcycle, hn⟩ := (foldl_coverNode hg g.nodes g.backCycles).2 n hmem h
  exact ⟨closed cycle, List.mem_map_of_mem hcycle, List.mem_append_left _ hn⟩

/-- The search for cycles finds one where there is one. -/
theorem cycles_ne_nil (hg : g.Proper) (h : g.Cyclic) : g.cycles ≠ [] := by
  obtain ⟨n, hn⟩ := h
  obtain ⟨path, hpath, _⟩ := cycles_cover hg hn
  exact List.ne_nil_of_mem hpath

end Graph

/-! ### Documents -/

namespace Document

open Relation (TransGen)

def Leads (d : Document) (a b : String) : Prop :=
  (a ∈ d.stepIds ∧ b ∈ d.stepIds) ∧ ∃ e ∈ d.edges, e.source = a ∧ e.target = b

def Acyclic (d : Document) : Prop := ∀ id, ¬ TransGen d.Leads id id

theorem graph_edge_iff {d : Document} {a b : String} : d.graph.Edge a b ↔ d.Leads a b := by
  rw [graph, Graph.edge_ofEdges, Leads, List.mem_map, and_comm]
  simp only [Prod.mk.injEq]

theorem graph_edge (d : Document) : d.graph.Edge = d.Leads := by
  funext a b
  exact propext graph_edge_iff

theorem graph_proper (d : Document) : d.graph.Proper := Graph.ofEdges_proper _ _

theorem acyclic_iff {d : Document} : d.Acyclic ↔ ¬ d.graph.Cyclic := by
  rw [Graph.Cyclic, graph_edge, not_exists]
  rfl

/-- A closed path along edges that comes back to where it began and to no other step. -/
def IsCircuit (d : Document) (path : List String) : Prop :=
  ∃ first rest, path = first :: rest ++ [first] ∧ (first :: rest).Nodup ∧ path.IsChain d.Leads

/-- Closed paths that tell all about the cycles of a document. -/
structure Circuits (d : Document) (paths : List (List String)) : Prop where
  circuit : ∀ path ∈ paths, d.IsCircuit path
  nodup : paths.Nodup
  cover : ∀ id, TransGen d.Leads id id → ∃ path ∈ paths, id ∈ path
  none_iff : paths = [] ↔ d.Acyclic

/-- The cycles found are circuits, none twice; every step on a cycle lies on one of them, and there are none exactly if
the edges form no cycle. -/
theorem cycles_are_circuits (d : Document) : d.Circuits d.graph.cycles := by
  obtain ⟨hsound, hnodup⟩ := Graph.cycles_sound d.graph_proper
  refine ⟨?_, hnodup, ?_, ?_⟩
  · intro path hpath
    obtain ⟨cycle, hround, rfl⟩ := hsound path hpath
    cases cycle with
    | nil => exact absurd rfl hround.ne_nil
    | cons first rest => exact ⟨first, rest, rfl, hround.nodup, d.graph_edge ▸ hround.chain⟩
  · intro id hid
    rw [← d.graph_edge] at hid
    exact Graph.cycles_cover d.graph_proper hid
  · rw [acyclic_iff]
    constructor
    · exact fun hnone hcyclic => Graph.cycles_ne_nil d.graph_proper hcyclic hnone
    · intro hacyclic
      by_contra hne
      obtain ⟨path, hpath⟩ := List.exists_mem_of_ne_nil _ hne
      obtain ⟨cycle, hround, _⟩ := hsound path hpath
      exact hacyclic hround.cyclic

end Document

end Workflow
