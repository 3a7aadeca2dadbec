import Workflow.Proofs.Circling
import Mathlib.Data.List.Find

/-! Which order a graph has. There is one exactly if the edges form no cycle, and it is the first of all in which every
edge leads forward, where orders are compared by the places of their nodes in the declaration. Counting edges down finds
the same order, and never has to count an edge that is not there. -/

namespace Workflow

namespace Graph

open Relation (TransGen)

variable {g : Graph}

/-! ### The first of all orders -/

/-- An order of all nodes in which every edge leads forward. -/
structure Arranges (g : Graph) (order : List String) : Prop where
  perm : order.Perm g.nodes
  forward : ∀ {a b}, g.Edge a b → order.idxOf a < order.idxOf b

theorem arranges_of_order (hg : g.Proper) {order : List String} (h : g.order = .ok order) : g.Arranges order := by
  obtain ⟨hplaced, hperm⟩ := order_eq_ok h
  exact ⟨hperm, fun hedge => hplaced.idxOf_lt hedge (hperm.mem_iff.mpr (hg.target_mem hedge))⟩

theorem Arranges.idxOf_lt_of_transGen {order : List String} (h : g.Arranges order) {a b : String}
    (hab : TransGen g.Edge a b) : order.idxOf a < order.idxOf b := by
  induction hab with
  | single hedge => exact h.forward hedge
  | tail _ hedge ih => exact ih.trans (h.forward hedge)

theorem Arranges.not_cyclic {order : List String} (h : g.Arranges order) : ¬ g.Cyclic := by
  rintro ⟨n, hn⟩
  exact Nat.lt_irrefl _ (h.idxOf_lt_of_transGen hn)

/-- What an order has next is held back by nothing but what it has already. -/
theorem Arranges.next (hn : g.nodes.Nodup) {placed rest : List String} {m : String}
    (h : g.Arranges (placed ++ m :: rest)) :
    m ∈ g.nodes ∧ m ∉ placed ∧ ∀ p, g.Edge p m → p ∈ placed := by
  have hnew : m ∉ placed :=
    fun hmem => List.disjoint_of_nodup_append (h.perm.nodup_iff.mpr hn) hmem List.mem_cons_self
  refine ⟨h.perm.subset (by simp), hnew, fun p hp => ?_⟩
  have hlt := h.forward hp
  rw [List.idxOf_append_of_notMem hnew, List.idxOf_cons_self] at hlt
  by_contra hpp
  rw [List.idxOf_append_of_notMem hpp] at hlt
  omega

theorem isReady_iff {placed : List String} {n : String} :
    (!placed.contains n && (g.predecessors n).all placed.contains) = true ↔
      n ∉ placed ∧ ∀ p, g.Edge p n → p ∈ placed := by
  simp [List.all_eq_true, mem_predecessors]

/-- Of the nodes that could come next the one declared first does. -/
theorem nextReady?_first {placed : List String} {m : String} (hm : m ∈ g.nodes) (hnew : m ∉ placed)
    (hpred : ∀ p, g.Edge p m → p ∈ placed) :
    ∃ n, g.nextReady? placed = some n ∧ (n = m ∨ g.nodes.idxOf n < g.nodes.idxOf m) := by
  have hready := isReady_iff.mpr ⟨hnew, hpred⟩
  cases hnext : g.nextReady? placed with
  | none => exact absurd hready (List.find?_eq_none.mp hnext m hm)
  | some n =>
    obtain ⟨hn, before, after, hnodes, hbefore⟩ := List.find?_eq_some_iff_append.mp hnext
    have hnot : ∀ x, (!placed.contains x && (g.predecessors x).all placed.contains) = true → x ∉ before := by
      intro x hx hmem
      have := hbefore x hmem
      rw [hx] at this
      cases this
    refine ⟨n, rfl, ?_⟩
    by_cases heq : n = m
    · exact .inl heq
    · right
      rw [hnodes, List.idxOf_append_of_notMem (hnot n hn), List.idxOf_append_of_notMem (hnot m hready),
        List.idxOf_cons_self, List.idxOf_cons_ne _ heq]
      omega

/-- One order comes before another, where nodes are compared by their places in the declaration. -/
def Earlier (g : Graph) (order other : List String) : Prop :=
  List.Lex (· < ·) (order.map g.nodes.idxOf) (other.map g.nodes.idxOf)

theorem earlier_nil (g : Graph) (order : List String) : [] = order ∨ g.Earlier [] order := by
  cases order with
  | nil => exact .inl rfl
  | cons n rest => exact .inr .nil

theorem Earlier.asymm {order other : List String} (h : g.Earlier order other) : ¬ g.Earlier other order :=
  List.lex_asymm (fun hlt => Nat.lt_asymm hlt) h

theorem place_of_none {placed : List String} (h : g.nextReady? placed = none) (fuel : Nat) :
    g.place fuel placed = placed := by
  cases fuel with
  | zero => rfl
  | succ fuel => rw [place, h]

theorem place_of_some {placed : List String} {n : String} (h : g.nextReady? placed = some n) (fuel : Nat) :
    g.place (fuel + 1) placed = g.place fuel (placed ++ [n]) := by
  rw [place, h]

theorem place_extends (fuel : Nat) (placed : List String) : ∃ tail, g.place fuel placed = placed ++ tail := by
  induction fuel generalizing placed with
  | zero => exact ⟨[], (List.append_nil _).symm⟩
  | succ fuel ih =>
    cases hnext : g.nextReady? placed with
    | none => exact ⟨[], by rw [place_of_none hnext, List.append_nil]⟩
    | some n =>
      obtain ⟨tail, htail⟩ := ih (placed ++ [n])
      exact ⟨n :: tail, by rw [place_of_some hnext, htail, List.append_assoc, List.singleton_append]⟩

/-- However an order goes on after what is placed, placing goes on the same way or earlier. -/
theorem place_least (hn : g.nodes.Nodup) (fuel : Nat) {placed rest : List String} (h : g.Arranges (placed ++ rest)) :
    ∃ tail, g.place fuel placed = placed ++ tail ∧ (tail = rest ∨ g.Earlier tail rest) := by
  induction fuel generalizing placed rest with
  | zero => exact ⟨[], (List.append_nil _).symm, g.earlier_nil rest⟩
  | succ fuel ih =>
    cases hnext : g.nextReady? placed with
    | none => exact ⟨[], by rw [place_of_none hnext, List.append_nil], g.earlier_nil rest⟩
    | some n =>
      rw [place_of_some hnext]
      cases rest with
      | nil =>
        obtain ⟨hmem, hnew, _⟩ := nextReady?_eq_some hnext
        exact absurd (h.perm.mem_iff.mpr hmem) (by simpa using hnew)
      | cons m rest =>
        obtain ⟨hm, hnew, hpred⟩ := h.next hn
        obtain ⟨n', hfirst, hn'⟩ := nextReady?_first hm hnew hpred
        rw [hnext] at hfirst
        cases hfirst
        rcases hn' with rfl | hlt
        · have hother : g.Arranges (placed ++ [n] ++ rest) := by simpa using h
          obtain ⟨tail, htail, hleast⟩ := ih hother
          refine ⟨n :: tail, by rw [htail, List.append_assoc, List.singleton_append], ?_⟩
          rcases hleast with rfl | hearlier
          · exact .inl rfl
          · exact .inr (.cons hearlier)
        · obtain ⟨tail, htail⟩ := place_extends (g := g) fuel (placed ++ [n])
          exact ⟨n :: tail, by rw [htail, List.append_assoc, List.singleton_append], .inr (.rel hlt)⟩

theorem order_least (hn : g.nodes.Nodup) {order other : List String} (h : g.order = .ok order)
    (hother : g.Arranges other) : order = other ∨ g.Earlier order other := by
  simp only [Graph.order] at h
  split at h
  · cases h
    have hempty : g.Arranges ([] ++ other) := hother
    obtain ⟨tail, htail, hleast⟩ := place_least hn g.nodes.length hempty
    rw [htail]
    exact hleast
  · cases h

/-- Graphs on the same nodes with the same edges, in whatever order and however often listed, have the same order. -/
theorem order_eq_of_edges {g' : Graph} (hg : g.Proper) (hg' : g'.Proper) (hn : g.nodes.Nodup)
    (hnodes : g'.nodes = g.nodes) (hedges : ∀ a b, g'.Edge a b ↔ g.Edge a b) {order order' : List String}
    (h : g.order = .ok order) (h' : g'.order = .ok order') : order' = order := by
  have harr := arranges_of_order hg h
  have harr' := arranges_of_order hg' h'
  have hforth := order_least hn h ⟨hnodes ▸ harr'.perm, fun hedge => harr'.forward ((hedges _ _).mpr hedge)⟩
  have hback := order_least (g := g') (hnodes.symm ▸ hn) h'
    ⟨hnodes.symm ▸ harr.perm, fun hedge => harr.forward ((hedges _ _).mp hedge)⟩
  rcases hforth with heq | hforth
  · exact heq.symm
  · rcases hback with heq | hback
    · exact heq
    · unfold Earlier at hback
      rw [hnodes] at hback
      exact absurd hback hforth.asymm

/-- Without a cycle there is an order, and with one there is none. -/
theorem exists_order_iff (hg : g.Proper) (hn : g.nodes.Nodup) : (∃ order, g.order = .ok order) ↔ ¬ g.Cyclic := by
  constructor
  · rintro ⟨order, h⟩
    exact (arranges_of_order hg h).not_cyclic
  · intro hacyclic
    cases h : g.order with
    | ok order => exact ⟨order, rfl⟩
    | error cycles => exact absurd (cyclic_of_order_error hg hn h).1 hacyclic

/-! ### Counting -/

namespace Countdown

variable {c : Countdown} {left : List (String × String)}

/-- What a countdown stands for, given the edges that are left to count. -/
structure Counts (g : Graph) (left : List (String × String)) (c : Countdown) : Prop where
  left_nodup : left.Nodup
  waits : ∀ n ∈ g.nodes, Assoc.get? c.waits n = some (left.countP (·.2 = n))
  ready : ∀ n, n ∈ c.ready ↔ n ∈ g.nodes ∧ n ∉ c.placed ∧ ∀ p, (p, n) ∉ left
  ready_nodup : c.ready.Nodup

theorem release_eq_some {n : String} {k : Nat} (h : Assoc.get? c.waits n = some (k + 1)) :
    c.release n =
      some { c with waits := Assoc.put n k c.waits, ready := if k = 0 then n :: c.ready else c.ready } := by
  rw [release, h]

/-- An edge that is left can be counted down. Its end becomes ready with the last edge that leads there. -/
theorem Counts.release (h : c.Counts g left) {p n : String} (hedge : (p, n) ∈ left) (hn : n ∈ g.nodes)
    (hnew : n ∉ c.placed) :
    ∃ c', c.release n = some c' ∧ c'.placed = c.placed ∧ c'.Counts g (left.erase (p, n)) := by
  have hpos : 0 < left.countP (·.2 = n) := List.countP_pos_iff.mpr ⟨(p, n), hedge, by simp⟩
  obtain ⟨k, hk⟩ : ∃ k, left.countP (·.2 = n) = k + 1 := ⟨_, (Nat.succ_pred_eq_of_pos hpos).symm⟩
  have hcount : ∀ m, (left.erase (p, n)).countP (·.2 = m) = if n = m then k else left.countP (·.2 = m) := by
    intro m
    rw [List.countP_erase]
    by_cases hm : n = m
    · subst hm
      simp [hedge, hk]
    · simp [hm]
  have hheld : n ∉ c.ready := fun hready => ((h.ready n).mp hready).2.2 p hedge
  have hfree : (∀ q, (q, n) ∉ left.erase (p, n)) ↔ k = 0 := by
    have hzero := hcount n
    rw [if_pos rfl] at hzero
    rw [← hzero, List.countP_eq_zero]
    exact ⟨fun hnone e he => by simpa using fun heq : e.2 = n => hnone e.1 (heq ▸ he),
      fun hnone q hq => by simpa using hnone (q, n) hq⟩
  refine ⟨_, release_eq_some ((h.waits n hn).trans (congrArg some hk)), rfl, ⟨h.left_nodup.erase _, ?_, ?_, ?_⟩⟩
  · intro m hm
    rw [Assoc.get?_put, hcount]
    split
    · rfl
    · exact h.waits m hm
  · intro m
    by_cases hm : m = n
    · subst hm
      rw [hfree]
      by_cases hk0 : k = 0
      · simp [hk0, hn, hnew]
      · simp [hk0, hheld]
    · have hother : ∀ q, (q, m) ∈ left.erase (p, n) ↔ (q, m) ∈ left :=
        fun q => List.mem_erase_of_ne (by simp [hm])
      simp only [hother, ← h.ready m]
      split
      · simp [hm]
      · rfl
  · simp only
    split
    · exact List.nodup_cons.mpr ⟨hheld, h.ready_nodup⟩
    · exact h.ready_nodup

theorem Counts.releaseAll {p : String} {targets : List String} (hnodup : targets.Nodup) (h : c.Counts g left)
    (hleft : ∀ n ∈ targets, (p, n) ∈ left) (hmem : ∀ n ∈ targets, n ∈ g.nodes ∧ n ∉ c.placed) :
    ∃ c' left', targets.foldlM Countdown.release c = some c' ∧ c'.placed = c.placed ∧ c'.Counts g left' ∧
      ∀ e, e ∈ left' ↔ e ∈ left ∧ ¬ (e.1 = p ∧ e.2 ∈ targets) := by
  induction targets generalizing c left with
  | nil => exact ⟨c, left, rfl, rfl, h, by simp⟩
  | cons n targets ih =>
    obtain ⟨hn, hnodup⟩ := List.nodup_cons.mp hnodup
    obtain ⟨hnode, hnew⟩ := hmem n List.mem_cons_self
    obtain ⟨c₁, hc₁, hplaced, hcounts⟩ := h.release (hleft n List.mem_cons_self) hnode hnew
    obtain ⟨c', left', hc', hplaced', hcounts', hleft'⟩ := ih hnodup hcounts
      (fun m hm => (List.mem_erase_of_ne (by rintro ⟨⟩; exact hn hm)).mpr (hleft m (List.mem_cons_of_mem _ hm)))
      (fun m hm => by rw [hplaced]; exact hmem m (List.mem_cons_of_mem _ hm))
    refine ⟨c', left', ?_, hplaced'.trans hplaced, hcounts', ?_⟩
    · rw [List.foldlM_cons, hc₁]
      exact hc'
    · rintro ⟨a, b⟩
      rw [hleft', h.left_nodup.mem_erase_iff]
      simp only [ne_eq, Prod.mk.injEq, List.mem_cons]
      tauto

/-- Between two placings the edges left are those that leave no placed node. -/
structure Fits (g : Graph) (c : Countdown) : Prop where
  placed : g.Placed c.placed
  counts : ∃ left, c.Counts g left ∧ ∀ e, e ∈ left ↔ e ∈ g.edges ∧ e.1 ∉ c.placed

/-- The nodes that are ready are those that looking back would find. -/
theorem Fits.nextReady? (h : c.Fits g) : g.nodes.find? c.ready.contains = g.nextReady? c.placed := by
  obtain ⟨left, hcounts, hleft⟩ := h.counts
  refine List.find?_congr fun n hn => Bool.eq_iff_iff.mpr ?_
  rw [isReady_iff, List.contains_iff_mem, hcounts.ready n]
  simp only [hleft, not_and, not_not, hn, true_and]
  rfl

theorem Fits.place (hg : g.Proper) (h : c.Fits g) {n : String} (hn : g.nextReady? c.placed = some n) :
    ∃ c', (g.successors n).foldlM Countdown.release (c.settle n) = some c' ∧ c'.placed = c.placed ++ [n] ∧
      c'.Fits g := by
  obtain ⟨left, hcounts, hleft⟩ := h.counts
  obtain ⟨hnode, hnew, hpred⟩ := nextReady?_eq_some hn
  have hplaced : g.Placed (c.placed ++ [n]) := .snoc h.placed hnode hnew hpred
  have hsettled : (c.settle n).Counts g left := by
    refine ⟨hcounts.left_nodup, hcounts.waits, fun m => ?_, hcounts.ready_nodup.erase n⟩
    simp only [settle, hcounts.ready_nodup.mem_erase_iff, hcounts.ready m, List.mem_append, List.mem_singleton]
    tauto
  have hsuccessor : ∀ m ∈ g.successors n, (n, m) ∈ left ∧ m ∈ g.nodes ∧ m ∉ c.placed ++ [n] := by
    intro m hm
    have hedge := (g.mem_successors n m).mp hm
    refine ⟨(hleft (n, m)).mpr ⟨hedge, hnew⟩, hg.target_mem hedge, fun hmem => ?_⟩
    have hlt := hplaced.idxOf_lt hedge hmem
    have hle := List.idxOf_lt_length_of_mem hmem
    rw [List.idxOf_append_of_notMem hnew, List.idxOf_cons_self] at hlt
    simp only [List.length_append, List.length_singleton] at hle
    omega
  obtain ⟨c', left', hc', hplaced', hcounts', hleft'⟩ := hsettled.releaseAll (hg.successors_nodup n)
    (fun m hm => (hsuccessor m hm).1) (fun m hm => (hsuccessor m hm).2)
  have hend : c'.placed = c.placed ++ [n] := hplaced'
  refine ⟨c', hc', hend, ⟨hend ▸ hplaced, left', hcounts', ?_⟩⟩
  rintro ⟨a, b⟩
  have hout : (a, b) ∈ g.edges → a = n → b ∈ g.successors n :=
    fun hedge ha => (g.mem_successors n b).mpr (ha ▸ hedge)
  rw [hleft', hleft, hend]
  simp only [List.mem_append, List.mem_singleton]
  tauto

theorem length_predecessors (g : Graph) (n : String) : (g.predecessors n).length = g.edges.countP (·.2 = n) := by
  rw [predecessors, List.length_map, List.countP_eq_length_filter]

theorem countdown_fits (hg : g.Proper) (hn : g.nodes.Nodup) : g.countdown.Fits g := by
  refine ⟨.nil, g.edges, ⟨hg.edges_nodup, ?_, ?_, hn.filter _⟩, by simp [countdown]⟩
  · intro n hnode
    have hkeys : (Assoc.keys g.countdown.waits).Nodup := by
      simpa [Assoc.keys, countdown, Function.comp_def] using hn
    rw [← length_predecessors]
    exact Assoc.get?_of_mem hkeys (List.mem_map.mpr ⟨n, hnode, rfl⟩)
  · intro n
    simp only [countdown, List.mem_filter, List.isEmpty_iff, List.not_mem_nil, not_false_eq_true, true_and,
      List.eq_nil_iff_forall_not_mem, mem_predecessors]
    rfl

end Countdown

open Countdown (Fits)

/-- Counting goes through, and places what looking back would place. -/
theorem count_eq_place (hg : g.Proper) (fuel : Nat) {c : Countdown} (h : c.Fits g) :
    ∃ c', g.count fuel c = some c' ∧ c'.placed = g.place fuel c.placed := by
  induction fuel generalizing c with
  | zero => exact ⟨c, rfl, rfl⟩
  | succ fuel ih =>
    rw [count, h.nextReady?]
    cases hnext : g.nextReady? c.placed with
    | none => exact ⟨c, rfl, (place_of_none hnext _).symm⟩
    | some n =>
      obtain ⟨c₁, hc₁, hplaced, hfits⟩ := h.place hg hnext
      obtain ⟨c', hc', hplaced'⟩ := ih hfits
      refine ⟨c', ?_, ?_⟩
      · simp only [hc₁, Option.bind_some, hc']
      · rw [hplaced', hplaced, place_of_some hnext]

theorem orderByCounting_eq (hg : g.Proper) (hn : g.nodes.Nodup) : g.orderByCounting = some g.order := by
  obtain ⟨c, hc, hplaced⟩ := count_eq_place hg g.nodes.length (Countdown.countdown_fits hg hn)
  rw [orderByCounting, hc, Option.map_some, hplaced]
  rfl

end Graph

/-! ### Documents -/

namespace Document

open Relation (TransGen ReflTransGen)

structure Arranges (d : Document) (order : List String) : Prop where
  perm : order.Perm d.stepIds
  forward : ∀ {a b}, d.Leads a b → order.idxOf a < order.idxOf b

theorem graph_arranges_iff {d : Document} {order : List String} : d.graph.Arranges order ↔ d.Arranges order :=
  ⟨fun h => ⟨h.perm, fun hab => h.forward (graph_edge_iff.mpr hab)⟩,
    fun h => ⟨h.perm, fun hab => h.forward (graph_edge_iff.mp hab)⟩⟩

namespace Arranges

variable {d : Document} {order : List String} {a b : String}

theorem idxOf_lt (h : d.Arranges order) (hab : TransGen d.Leads a b) : order.idxOf a < order.idxOf b :=
  (graph_arranges_iff.mpr h).idxOf_lt_of_transGen (d.graph_edge ▸ hab)

theorem idxOf_le (h : d.Arranges order) (hab : ReflTransGen d.Leads a b) : order.idxOf a ≤ order.idxOf b := by
  rcases Relation.reflTransGen_iff_eq_or_transGen.mp hab with rfl | hab
  · exact Nat.le_refl _
  · exact Nat.le_of_lt (h.idxOf_lt hab)

end Arranges

/-- The first of all orders, where steps are compared by their places in the declaration. It is the order of every
document that declares the same steps and leads between the same ones. -/
structure FirstOrder (d : Document) (order : List String) : Prop extends d.Arranges order where
  least : ∀ other, d.Arranges other →
    order = other ∨ List.Lex (· < ·) (order.map d.stepIds.idxOf) (other.map d.stepIds.idxOf)
  same : ∀ d' : Document, d'.stepIds = d.stepIds → (∀ a b, d'.Leads a b ↔ d.Leads a b) → d'.graph.order = .ok order

/-- Steps have an order exactly if the edges form no cycle, and it is the first one; otherwise the cycles are given. The
order is also found by counting down the edges that lead to each step, which never counts below zero. -/
theorem order_is_first (d : Document) (hd : d.stepIds.Nodup) :
    ((∃ order, d.graph.order = .ok order) ↔ d.Acyclic) ∧
      (∀ order, d.graph.order = .ok order → d.FirstOrder order) ∧
      (¬ d.Acyclic → d.graph.order = .error d.graph.cycles ∧ d.graph.cycles ≠ []) ∧
      d.graph.orderByCounting = some d.graph.order := by
  have hexists : ∀ d' : Document, d'.stepIds.Nodup → ((∃ order, d'.graph.order = .ok order) ↔ d'.Acyclic) :=
    fun d' hd' => (Graph.exists_order_iff d'.graph_proper hd').trans acyclic_iff.symm
  refine ⟨hexists d hd, ?_, ?_, Graph.orderByCounting_eq d.graph_proper hd⟩
  · intro order horder
    refine ⟨graph_arranges_iff.mp (Graph.arranges_of_order d.graph_proper horder), ?_, ?_⟩
    · exact fun other hother => Graph.order_least hd horder (graph_arranges_iff.mpr hother)
    · intro d' hsteps hleads
      have hsame : d'.Leads = d.Leads := funext fun a => funext fun b => propext (hleads a b)
      have hacyclic : d'.Acyclic := by
        have := (hexists d hd).mp ⟨order, horder⟩
        rwa [Acyclic, hsame]
      obtain ⟨order', horder'⟩ := (hexists d' (hsteps ▸ hd)).mpr hacyclic
      rw [horder', Graph.order_eq_of_edges d.graph_proper d'.graph_proper hd hsteps ?_ horder horder']
      exact fun a b => graph_edge_iff.trans ((hleads a b).trans graph_edge_iff.symm)
  · intro hcyclic
    cases h : d.graph.order with
    | ok order => exact absurd ((hexists d hd).mp ⟨order, h⟩) hcyclic
    | error cycles =>
      obtain ⟨hfound, rfl⟩ := Graph.cyclic_of_order_error d.graph_proper hd h
      exact ⟨rfl, Graph.cycles_ne_nil d.graph_proper hfound⟩

end Document

/-- Publishing is declared first, but waits for the check; the review waits for nothing but the draft. -/
def draftDocument : Document where
  version := "1"
  name := none
  start := some "draft"
  steps :=
    [⟨"publish", "echo", none, [], none⟩, ⟨"draft", "echo", none, [], none⟩, ⟨"check", "echo", none, [], none⟩,
      ⟨"review", "echo", none, [], none⟩]
  edges :=
    [⟨"check", "publish", none⟩, ⟨"draft", "review", some "late"⟩, ⟨"draft", "check", none⟩,
      ⟨"draft", "check", some "late"⟩]
  inputs := []
  outputs := []
  mode := .strict

theorem order_is_first_draft :
    draftDocument.stepIds.Nodup ∧ draftDocument.Acyclic ∧
      draftDocument.FirstOrder ["draft", "check", "publish", "review"] ∧
      draftDocument.graph.orderByCounting = some (.ok ["draft", "check", "publish", "review"]) := by
  have hnodup : draftDocument.stepIds.Nodup := by decide
  have horder : draftDocument.graph.order = .ok ["draft", "check", "publish", "review"] := by decide +kernel
  obtain ⟨hexists, hfirst, _, hcounted⟩ := Document.order_is_first draftDocument hnodup
  exact ⟨hnodup, hexists.mp ⟨_, horder⟩, hfirst _ horder, hcounted.trans (congrArg some horder)⟩

end Workflow
