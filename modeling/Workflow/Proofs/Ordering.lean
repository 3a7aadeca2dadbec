import Workflow.Graph
import Mathlib.Data.Fintype.Card
import Mathlib.Data.List.Perm.Subperm
import Mathlib.Data.Set.Finite.List
import Mathlib.Logic.Relation

/-! What the ordering of a graph means. An order places every node after its predecessors; where there is none, some
node lies on a cycle, and a search from it finds the way back. -/

namespace Workflow

/-! ### Lists without repetitions -/

section
variable {α : Type} [BEq α]

/-- A list is gone through by taking its first member and striking out where that occurs again. -/
theorem eraseDups_induction {motive : List α → Prop} (nil : motive [])
    (cons : ∀ a as, motive (as.filter fun b => !b == a) → motive (a :: as)) (l : List α) : motive l :=
  match l with
  | [] => nil
  | a :: as => cons a as (eraseDups_induction nil cons (as.filter fun b => !b == a))
termination_by l.length
decreasing_by exact Nat.lt_succ_of_le (List.length_filter_le _ _)

theorem eraseDups_sublist (l : List α) : l.eraseDups.Sublist l := by
  induction l using eraseDups_induction with
  | nil => simp
  | cons a as ih =>
    rw [List.eraseDups_cons]
    exact (ih.trans List.filter_sublist).cons_cons a

variable [LawfulBEq α]

theorem nodup_eraseDups (l : List α) : l.eraseDups.Nodup := by
  induction l using eraseDups_induction with
  | nil => simp
  | cons a as ih =>
    rw [List.eraseDups_cons, List.nodup_cons]
    refine ⟨?_, ih⟩
    rw [List.mem_eraseDups, List.mem_filter]
    simp

theorem eraseDups_filter (p : α → Bool) (l : List α) : (l.filter p).eraseDups = l.eraseDups.filter p := by
  induction l using eraseDups_induction with
  | nil => rfl
  | cons a as ih =>
    rw [List.eraseDups_cons, List.filter_cons, List.filter_cons, ← ih, List.filter_filter]
    split
    · rw [List.eraseDups_cons, List.filter_filter]
      simp only [Bool.and_comm]
    · rename_i ha
      refine congrArg List.eraseDups (List.filter_congr fun b _ => ?_)
      by_cases hb : b = a
      · simp [hb, ha]
      · simp [hb]

theorem eraseDups_map {β : Type} [BEq β] [LawfulBEq β] {f : α → β} {l : List α}
    (hf : ∀ a ∈ l, ∀ b ∈ l, f a = f b → a = b) : (l.map f).eraseDups = l.eraseDups.map f := by
  induction l using eraseDups_induction with
  | nil => rfl
  | cons a as ih =>
    have hsub (b : α) (hb : b ∈ as.filter fun b => !b == a) : b ∈ a :: as :=
      List.mem_cons_of_mem _ (List.mem_filter.mp hb).1
    have hsame : as.filter ((fun b => !b == f a) ∘ f) = as.filter fun b => !b == a := by
      refine List.filter_congr fun b hb => congrArg (!·) ?_
      rw [Bool.eq_iff_iff, beq_iff_eq, beq_iff_eq]
      exact ⟨hf b (List.mem_cons_of_mem _ hb) a List.mem_cons_self, congrArg f⟩
    rw [List.map_cons, List.eraseDups_cons, List.eraseDups_cons, List.map_cons, List.filter_map, hsame,
      ih fun b hb c hc => hf b (hsub b hb) c (hsub c hc)]

/-- What passes a filter keeps its order. -/
theorem idxOf_lt_of_filter {p : α → Bool} {l : List α} {a b : α} (ha : p a = true) (hb : p b = true)
    (h : (l.filter p).idxOf a < (l.filter p).idxOf b) : l.idxOf a < l.idxOf b := by
  induction l with
  | nil => exact h
  | cons x l ih =>
    rw [List.filter_cons] at h
    by_cases hx : p x = true
    · rw [if_pos hx] at h
      grind
    · rw [if_neg hx] at h
      grind

/-- The members are listed in the order in which they first occur. -/
theorem eraseDups_in_order (l : List α) : l.eraseDups.Pairwise fun a b => l.idxOf a < l.idxOf b := by
  induction l using eraseDups_induction with
  | nil => simp
  | cons a as ih =>
    have hother (b : α) (hb : b ∈ (as.filter fun b => !b == a).eraseDups) : (!b == a) = true :=
      (List.mem_filter.mp (List.mem_eraseDups.mp hb)).2
    have hlater (b : α) (hb : b ∈ (as.filter fun b => !b == a).eraseDups) :
        (a :: as).idxOf b = as.idxOf b + 1 := by
      have := hother b hb
      grind
    rw [List.eraseDups_cons]
    refine List.pairwise_cons.mpr ⟨fun b hb => ?_, ?_⟩
    · rw [hlater b hb, List.idxOf_cons_self]
      exact Nat.succ_pos _
    · refine ih.imp_of_mem fun {b c} hb hc hlt => ?_
      rw [hlater b hb, hlater c hc]
      exact Nat.succ_lt_succ (idxOf_lt_of_filter (p := fun b => !b == a) (hother b hb) (hother c hc) hlt)

end

namespace Graph

open Relation (TransGen)

variable {g : Graph}

def Edge (g : Graph) (a b : String) : Prop := (a, b) ∈ g.edges

structure Proper (g : Graph) : Prop where
  source_mem : ∀ {a b}, g.Edge a b → a ∈ g.nodes
  target_mem : ∀ {a b}, g.Edge a b → b ∈ g.nodes
  edges_nodup : g.edges.Nodup

theorem edge_ofEdges (nodes : List String) (edges : List (String × String)) (a b : String) :
    (ofEdges nodes edges).Edge a b ↔ (a, b) ∈ edges ∧ a ∈ nodes ∧ b ∈ nodes := by
  simp [Edge, ofEdges]

theorem ofEdges_proper (nodes : List String) (edges : List (String × String)) : (ofEdges nodes edges).Proper where
  source_mem h := ((edge_ofEdges nodes edges _ _).mp h).2.1
  target_mem h := ((edge_ofEdges nodes edges _ _).mp h).2.2
  edges_nodup := nodup_eraseDups _

theorem mem_successors (g : Graph) (a b : String) : b ∈ g.successors a ↔ g.Edge a b := by
  simp [successors, Edge]

theorem mem_predecessors (g : Graph) (a b : String) : a ∈ g.predecessors b ↔ g.Edge a b := by
  simp [predecessors, Edge]

theorem Proper.successors_nodup (hg : g.Proper) (a : String) : (g.successors a).Nodup := by
  refine (List.nodup_map_iff_inj_on (hg.edges_nodup.filter _)).mpr ?_
  intro e he f hf h
  simp only [List.mem_filter, decide_eq_true_eq] at he hf
  exact Prod.ext (he.2.trans hf.2.symm) h

/-! ### Placing -/

/-- Lists in which every node stands once and after all its predecessors. -/
inductive Placed (g : Graph) : List String → Prop
  | nil : Placed g []
  | snoc {placed n} : Placed g placed → n ∈ g.nodes → n ∉ placed → (∀ p, g.Edge p n → p ∈ placed) →
      Placed g (placed ++ [n])

theorem nextReady?_eq_some {placed : List String} {n : String} (h : g.nextReady? placed = some n) :
    n ∈ g.nodes ∧ n ∉ placed ∧ ∀ p, g.Edge p n → p ∈ placed := by
  have hn := List.find?_some h
  simp only [Bool.and_eq_true, Bool.not_eq_true', List.contains_eq_mem, decide_eq_false_iff_not, List.all_eq_true,
    decide_eq_true_eq] at hn
  exact ⟨List.mem_of_find?_eq_some h, hn.1, fun p hp => hn.2 p ((g.mem_predecessors p n).mpr hp)⟩

theorem nextReady?_eq_none {placed : List String} (h : g.nextReady? placed = none) {n : String} (hn : n ∈ g.nodes)
    (hp : n ∉ placed) : ∃ p, g.Edge p n ∧ p ∉ placed := by
  have hf := List.find?_eq_none.mp h n hn
  simp only [Bool.and_eq_true, Bool.not_eq_true', List.contains_eq_mem, decide_eq_false_iff_not, List.all_eq_true,
    decide_eq_true_eq, not_and, not_forall] at hf
  obtain ⟨p, hpn, hpp⟩ := hf hp
  exact ⟨p, (g.mem_predecessors p n).mp hpn, hpp⟩

namespace Placed

variable {l : List String}

theorem subset (h : g.Placed l) : l ⊆ g.nodes := by
  induction h with
  | nil => exact List.nil_subset _
  | snoc _ hn _ _ ih =>
    intro x hx
    rcases List.mem_append.mp hx with hx | hx
    · exact ih hx
    · rw [List.mem_singleton.mp hx]
      exact hn

theorem nodup (h : g.Placed l) : l.Nodup := by
  induction h with
  | nil => exact List.nodup_nil
  | snoc _ _ hn _ ih =>
    rw [List.nodup_append]
    refine ⟨ih, List.nodup_singleton _, ?_⟩
    intro a ha b hb hab
    rw [List.mem_singleton] at hb
    exact hn (hb ▸ hab ▸ ha)

/-- An edge leads to a later place. -/
theorem idxOf_lt (h : g.Placed l) {a b : String} (hab : g.Edge a b) (hb : b ∈ l) : l.idxOf a < l.idxOf b := by
  induction h with
  | nil => exact absurd hb List.not_mem_nil
  | @snoc placed n _ _ hn hpred ih =>
    by_cases hbp : b ∈ placed
    · have hlt := ih hbp
      have hbl := List.idxOf_lt_length_of_mem hbp
      have hap : a ∈ placed := List.idxOf_lt_length_iff.mp (by omega)
      rw [List.idxOf_append_of_mem hap, List.idxOf_append_of_mem hbp]
      exact hlt
    · have hbn : b = n := by
        rcases List.mem_append.mp hb with hb | hb
        · exact absurd hb hbp
        · exact List.mem_singleton.mp hb
      subst hbn
      have hap := hpred a hab
      rw [List.idxOf_append_of_mem hap, List.idxOf_append_of_notMem hn]
      have := List.idxOf_lt_length_of_mem hap
      omega

end Placed

theorem place_placed (fuel : Nat) {placed : List String} (h : g.Placed placed) : g.Placed (g.place fuel placed) := by
  induction fuel generalizing placed with
  | zero => exact h
  | succ fuel ih =>
    rw [place]
    cases hr : g.nextReady? placed with
    | none => exact h
    | some n =>
      obtain ⟨hn, hnp, hpred⟩ := nextReady?_eq_some hr
      exact ih (.snoc h hn hnp hpred)

/-- Placing stops early only when no node is ready. -/
theorem place_length_or_stuck (fuel : Nat) (placed : List String) :
    (g.place fuel placed).length = placed.length + fuel ∨ g.nextReady? (g.place fuel placed) = none := by
  induction fuel generalizing placed with
  | zero => exact .inl rfl
  | succ fuel ih =>
    rw [place]
    cases hr : g.nextReady? placed with
    | none => exact .inr hr
    | some n =>
      rcases ih (placed ++ [n]) with h | h
      · left
        simp only [h, List.length_append, List.length_cons, List.length_nil]
        omega
      · exact .inr h

theorem order_eq_ok {order : List String} (h : g.order = .ok order) : g.Placed order ∧ order.Perm g.nodes := by
  simp only [Graph.order] at h
  split at h
  · rename_i hlen
    cases h
    have hp : g.Placed (g.place g.nodes.length []) := place_placed _ .nil
    exact ⟨hp, (hp.nodup.subperm hp.subset).perm_of_length_le (by omega)⟩
  · cases h

/-! ### Cycles -/

def Cyclic (g : Graph) : Prop := ∃ n, TransGen g.Edge n n

/-- Going back from predecessor to predecessor among finitely many nodes comes round in the end. -/
theorem cyclic_of_predecessors (hg : g.Proper) (rest : String → Prop) {start : String} (hs : start ∈ g.nodes)
    (hr : rest start) (hback : ∀ n ∈ g.nodes, rest n → ∃ p, g.Edge p n ∧ rest p) : g.Cyclic := by
  by_contra hc
  let before (a b : {n // n ∈ g.nodes}) : Prop := TransGen g.Edge a b
  have : Finite {n // n ∈ g.nodes} := (List.finite_toSet g.nodes).to_subtype
  have : IsTrans _ before := ⟨fun _ _ _ => TransGen.trans⟩
  have : Std.Irrefl before := ⟨fun a ha => hc ⟨a, ha⟩⟩
  have hwf : WellFounded before := Finite.wellFounded_of_trans_of_irrefl before
  obtain ⟨m, hm, hmin⟩ := hwf.has_min {n | rest n} ⟨⟨start, hs⟩, hr⟩
  obtain ⟨p, hp, hpr⟩ := hback m m.2 hm
  exact hmin ⟨p, hg.source_mem hp⟩ hpr (.single hp)

theorem cyclic_of_order_error (hg : g.Proper) (hn : g.nodes.Nodup) {cycles : List (List String)}
    (h : g.order = .error cycles) : g.Cyclic ∧ cycles = g.cycles := by
  simp only [Graph.order] at h
  split at h
  · cases h
  · rename_i hlen
    have hp : g.Placed (g.place g.nodes.length []) := place_placed _ .nil
    have hstuck : g.nextReady? (g.place g.nodes.length []) = none := by
      rcases place_length_or_stuck (g := g) g.nodes.length [] with hl | hl
      · exact absurd (by simpa using hl) hlen
      · exact hl
    obtain ⟨start, hs, hsp⟩ : ∃ n ∈ g.nodes, n ∉ g.place g.nodes.length [] := by
      by_contra hall
      push Not at hall
      have hperm := (hn.subperm hall).antisymm (hp.nodup.subperm hp.subset)
      exact hlen hperm.length_eq.symm
    cases h
    refine ⟨cyclic_of_predecessors hg (· ∉ g.place g.nodes.length []) hs hsp ?_, rfl⟩
    exact fun n hn hnp => nextReady?_eq_none hstuck hn hnp

/-- What a search back to a goal knows: every node met so far still waits in the queue, or none of its edges leads to
the goal and all lead to nodes that were met. -/
structure Explored (g : Graph) (goal : String) (heads seen : List String) : Prop where
  seen_mem : ∀ n ∈ seen, n ∈ g.nodes
  seen_nodup : seen.Nodup
  settled : ∀ n, n = goal ∨ n ∈ seen → n ∈ heads ∨ ∀ m, g.Edge n m → m ≠ goal ∧ m ∈ seen

namespace Explored

variable {goal : String} {heads seen : List String}

theorem seen_length_le (h : g.Explored goal heads seen) : seen.length ≤ g.nodes.length :=
  (h.seen_nodup.subperm h.seen_mem).length_le

/-- With an empty queue no path leads to the goal. -/
theorem not_reached (h : g.Explored goal [] seen) {m : String} (hm : TransGen g.Edge goal m) :
    m ≠ goal ∧ m ∈ seen := by
  have hclosed : ∀ n, n = goal ∨ n ∈ seen → ∀ m, g.Edge n m → m ≠ goal ∧ m ∈ seen := by
    intro n hn
    rcases h.settled n hn with hq | hq
    · exact absurd hq List.not_mem_nil
    · exact hq
  induction hm with
  | single hab => exact hclosed goal (.inl rfl) _ hab
  | tail _ hab ih => exact hclosed _ (.inr ih.2) _ hab

theorem next (hg : g.Proper) {head : String} (h : g.Explored goal (head :: heads) seen)
    (hgoal : goal ∉ g.successors head) :
    let fresh := (g.successors head).filter fun n => !seen.contains n
    g.Explored goal (heads ++ fresh) (seen ++ fresh) := by
  intro fresh
  have hfresh : ∀ m, m ∈ fresh ↔ g.Edge head m ∧ m ∉ seen := by
    intro m
    simp [fresh, mem_successors]
  refine ⟨?_, ?_, ?_⟩
  · intro n hn
    rcases List.mem_append.mp hn with hn | hn
    · exact h.seen_mem n hn
    · exact hg.target_mem ((hfresh n).mp hn).1
  · rw [List.nodup_append]
    refine ⟨h.seen_nodup, (hg.successors_nodup head).filter _, ?_⟩
    intro a ha b hb hab
    exact ((hfresh b).mp hb).2 (hab ▸ ha)
  · intro n hn
    by_cases hnf : n ∈ fresh
    · exact .inl (List.mem_append_right _ hnf)
    have hold : n = goal ∨ n ∈ seen := by
      rcases hn with hn | hn
      · exact .inl hn
      · exact .inr ((List.mem_append.mp hn).resolve_right hnf)
    rcases h.settled n hold with hq | hq
    · rcases List.mem_cons.mp hq with rfl | hq
      · right
        intro m hm
        refine ⟨?_, ?_⟩
        · rintro rfl
          exact hgoal ((g.mem_successors n m).mpr hm)
        · by_cases hms : m ∈ seen
          · exact List.mem_append_left _ hms
          · exact List.mem_append_right _ ((hfresh m).mpr ⟨hm, hms⟩)
      · exact .inl (List.mem_append_left _ hq)
    · exact .inr fun m hm => ⟨(hq m hm).1, List.mem_append_left _ (hq m hm).2⟩

end Explored

/-- The search has fuel for every node it may still queue, so it gives up only when there is no way back. -/
theorem searchBack_eq_none (hg : g.Proper) {goal : String} (fuel : Nat) {queue : List (List String)}
    {seen : List String} (hinv : g.Explored goal (queue.map (·.headD goal)) seen)
    (hfuel : queue.length + g.nodes.length ≤ fuel + seen.length) (h : g.searchBack goal fuel queue seen = none) :
    ¬ TransGen g.Edge goal goal := by
  induction fuel generalizing queue seen with
  | zero =>
    have hle := hinv.seen_length_le
    have hq : queue = [] := List.length_eq_zero_iff.mp (by omega)
    subst hq
    exact fun hm => (hinv.not_reached hm).1 rfl
  | succ fuel ih =>
    cases queue with
    | nil => exact fun hm => (hinv.not_reached hm).1 rfl
    | cons path queue =>
      rw [searchBack] at h
      split at h
      · cases h
      · rename_i hgoal
        have hgoal' : goal ∉ g.successors (path.headD goal) := by simpa using hgoal
        refine ih ?_ ?_ h
        · have hnext := Explored.next hg hinv hgoal'
          simpa [List.map_append, Function.comp_def] using hnext
        · simp only [List.length_cons, List.length_append, List.length_map] at hfuel ⊢
          omega

theorem cycleThrough_isSome (hg : g.Proper) {n : String} (h : TransGen g.Edge n n) : (g.cycleThrough n).isSome := by
  rw [Option.isSome_iff_ne_none]
  intro hnone
  have hinv : g.Explored n ([[n]].map (·.headD n)) [] :=
    ⟨by simp, List.nodup_nil, fun m hm => .inl (by simpa using hm)⟩
  have hfuel : [[n]].length + g.nodes.length ≤ g.nodes.length + 1 + ([] : List String).length := by
    simp only [List.length_singleton, List.length_nil]
    omega
  exact searchBack_eq_none hg _ hinv hfuel hnone h

end Graph

end Workflow
