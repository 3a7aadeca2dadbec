import Workflow.Proofs.Distance
import Mathlib.Data.List.Sort
import Mathlib.Data.Prod.Lex
import Mathlib.Data.String.Basic

/-! Suggestions. A candidate is close to a name because the two differ in letter case alone, because one stands inside the
other, or because few edits lie between them. That and the code points of the candidates put them into one order, of
which a suggestion is a beginning: the order in which the candidates were given has no part in it. -/

namespace Workflow.Similar

/-! ### How close a candidate is -/

def SameButCase (name candidate : String) : Prop := Text.lowercase candidate = Text.lowercase name

/-- The first text stands somewhere in the second, and it has at least three bytes. -/
def Inside (part whole : String) : Prop := 3 ≤ part.utf8ByteSize ∧ part.toList <:+: whole.toList

def Overlapping (name candidate : String) : Prop :=
  Inside (Text.lowercase candidate) (Text.lowercase name) ∨ Inside (Text.lowercase name) (Text.lowercase candidate)

/-- But for letter case, two edits at most turn the candidate into the name, which has more than three bytes. -/
def FewEditsApart (name candidate : String) : Prop :=
  3 < (Text.lowercase name).utf8ByteSize ∧
    ∃ n ≤ 2, Turns n (Text.lowercase candidate).toList (Text.lowercase name).toList

/-- How close a candidate is to a name, by the first of the three criteria that it meets. -/
inductive Ranked (name candidate : String) : Nat → Prop
  | sameButCase (h : SameButCase name candidate) : Ranked name candidate 0
  | overlapping (hcase : ¬ SameButCase name candidate) (h : Overlapping name candidate) : Ranked name candidate 1
  | fewEditsApart (hcase : ¬ SameButCase name candidate) (hinside : ¬ Overlapping name candidate)
      (h : FewEditsApart name candidate) : Ranked name candidate 2

theorem occursIn_iff (part whole : List Char) : Text.occursIn part whole = true ↔ part <:+: whole := by
  induction whole with
  | nil => simp [Text.occursIn]
  | cons c rest ih => rw [Text.occursIn, Bool.or_eq_true, ih, List.isPrefixOf_iff_prefix, List.infix_cons_iff]

/-- A text inside another one that has no more bytes is all of it. -/
theorem eq_of_infix {part whole : String} (h : part.toList <:+: whole.toList)
    (hsize : whole.utf8ByteSize ≤ part.utf8ByteSize) : part = whole := by
  obtain ⟨front, back, hwhole⟩ := h
  have happend : String.ofList front ++ part ++ String.ofList back = whole := by
    rw [← String.toList_inj]
    simpa using hwhole
  have hbytes := congrArg String.utf8ByteSize happend
  rw [String.utf8ByteSize_append, String.utf8ByteSize_append] at hbytes
  have hfront : String.ofList front = "" := String.utf8ByteSize_eq_zero_iff.mp (by omega)
  have hback : String.ofList back = "" := String.utf8ByteSize_eq_zero_iff.mp (by omega)
  rw [← happend, hfront, hback, String.empty_append, String.append_empty]

/-- Looking for the shorter text in the longer one finds out whether either stands inside the other. -/
theorem overlaps_iff (a b : String) : overlaps a b = true ↔ Inside a b ∨ Inside b a := by
  have hcontains (part whole : String) :
      (3 ≤ part.utf8ByteSize && Text.contains whole part) = true ↔ Inside part whole := by
    rw [Bool.and_eq_true, decide_eq_true_eq, Text.contains, occursIn_iff, Inside]
  by_cases hle : a.utf8ByteSize ≤ b.utf8ByteSize
  · simp only [overlaps, if_pos hle]
    rw [hcontains]
    refine ⟨.inl, fun h => h.elim id fun hinside => ?_⟩
    obtain rfl := eq_of_infix hinside.2 hle
    exact hinside
  · simp only [overlaps, if_neg hle]
    rw [hcontains]
    refine ⟨.inr, fun h => h.elim (fun hinside => ?_) id⟩
    obtain rfl := eq_of_infix hinside.2 (Nat.le_of_not_le hle)
    exact hinside

theorem editDistance_le_iff {source target : List Char} {limit : Nat} :
    editDistance source target ≤ limit ↔ ∃ n ≤ limit, Turns n source target := by
  obtain ⟨hturns, hleast⟩ := editDistance_isLeast source target
  exact ⟨fun hle => ⟨_, hle, hturns⟩, fun ⟨n, hle, hn⟩ => (hleast hn).trans hle⟩

theorem fewEditsApart_iff {name candidate : String} :
    FewEditsApart name candidate ↔ 3 < (Text.lowercase name).utf8ByteSize ∧
      editDistance (Text.lowercase candidate).toList (Text.lowercase name).toList ≤ 2 :=
  and_congr_right' editDistance_le_iff.symm

theorem Ranked.rank?_eq {name candidate : String} {n : Nat} (h : Ranked name candidate n) :
    rank? (Text.lowercase name) (Text.lowercase candidate) = some n := by
  cases h with
  | sameButCase h => exact if_pos h
  | overlapping hcase h => exact (if_neg hcase).trans (if_pos ((overlaps_iff _ _).mpr h))
  | fewEditsApart hcase hinside h =>
    have hapart := mt (overlaps_iff _ _).mp hinside
    exact (if_neg hcase).trans ((if_neg hapart).trans (if_pos (fewEditsApart_iff.mp h)))

theorem ranked_of_rank? {name candidate : String} {n : Nat}
    (h : rank? (Text.lowercase name) (Text.lowercase candidate) = some n) : Ranked name candidate n := by
  unfold rank? at h
  split at h
  · rename_i hcase
    cases h
    exact .sameButCase hcase
  rename_i hcase
  split at h
  · rename_i hinside
    cases h
    exact .overlapping hcase ((overlaps_iff _ _).mp hinside)
  rename_i hinside
  split at h
  · rename_i hfew
    cases h
    exact .fewEditsApart hcase (mt (overlaps_iff _ _).mpr hinside) (fewEditsApart_iff.mpr hfew)
  · cases h

theorem rank?_eq_some_iff {name candidate : String} {n : Nat} :
    rank? (Text.lowercase name) (Text.lowercase candidate) = some n ↔ Ranked name candidate n :=
  ⟨ranked_of_rank?, Ranked.rank?_eq⟩

theorem Ranked.unique {name candidate : String} {m n : Nat} (h : Ranked name candidate m)
    (h' : Ranked name candidate n) : m = n :=
  Option.some.inj (h.rank?_eq.symm.trans h'.rank?_eq)

/-- The longer text may be either, two edits are few enough, and three are not. -/
example : ["Fetch", "Fetches", "etc", "Pitch", "sketch", "fe"].map (fun c => rank? "fetch" (Text.lowercase c)) =
    [some 0, some 1, some 1, some 2, some 2, none] := by
  decide +kernel

/-! ### The order of the candidates -/

/-- A candidate comes before another or is it: it is closer to the name, or as close and no later by its code points. -/
def Precedes (name a b : String) : Prop := ∃ m n, Ranked name a m ∧ Ranked name b n ∧ (m < n ∨ m = n ∧ a ≤ b)

theorem precedes_iff (a b : Nat × String) : precedes a b = true ↔ toLex a ≤ toLex b := by
  simp [precedes, Prod.Lex.toLex_le_toLex]

/-- All similar candidates with their ranks, the closest first. -/
def ranking (name : String) (candidates : List String) : List (Nat × String) :=
  (candidates.filterMap fun candidate =>
    (rank? (Text.lowercase name) (Text.lowercase candidate)).map fun rank => (rank, candidate)).mergeSort precedes

theorem find_eq_take (name : String) (candidates : List String) (limit : Nat) :
    find name candidates limit = ((ranking name candidates).take limit).map Prod.snd := rfl

variable {name : String} {candidates : List String}

theorem mem_ranking {n : Nat} {c : String} : (n, c) ∈ ranking name candidates ↔ c ∈ candidates ∧ Ranked name c n := by
  rw [ranking, List.mem_mergeSort, List.mem_filterMap, ← rank?_eq_some_iff]
  constructor
  · rintro ⟨candidate, hmem, heq⟩
    obtain ⟨rank, hrank, heq⟩ := Option.map_eq_some_iff.mp heq
    cases heq
    exact ⟨hmem, hrank⟩
  · rintro ⟨hmem, hrank⟩
    exact ⟨c, hmem, by rw [hrank, Option.map_some]⟩

theorem ranking_sorted (name : String) (candidates : List String) :
    (ranking name candidates).Pairwise fun a b => toLex a ≤ toLex b := by
  have hsorted : (ranking name candidates).Pairwise fun a b => precedes a b = true := by
    refine List.pairwise_mergeSort (fun a b c hab hbc => ?_) (fun a b => ?_) _
    · rw [precedes_iff] at hab hbc ⊢
      exact hab.trans hbc
    · rw [Bool.or_eq_true, precedes_iff, precedes_iff]
      exact le_total _ _
  exact hsorted.imp fun h => (precedes_iff _ _).mp h

/-- There is one way only to sort the candidates. -/
theorem ranking_congr {candidates' : List String} (h : candidates'.Perm candidates) :
    ranking name candidates' = ranking name candidates := by
  have hperm : (ranking name candidates').Perm (ranking name candidates) :=
    ((List.mergeSort_perm _ _).trans (h.filterMap _)).trans (List.mergeSort_perm _ _).symm
  refine hperm.eq_of_pairwise (fun a b _ _ hab hba => ?_) (ranking_sorted _ _) (ranking_sorted _ _)
  exact toLex.injective (le_antisymm hab hba)

/-- Those that are similar to the name are listed as often as they are given, and no others are listed. -/
theorem map_snd_ranking_perm (name : String) (candidates : List String) :
    ((ranking name candidates).map Prod.snd).Perm
      (candidates.filter fun c => (rank? (Text.lowercase name) (Text.lowercase c)).isSome) := by
  refine ((List.mergeSort_perm _ _).map Prod.snd).trans (.of_eq ?_)
  rw [List.map_filterMap, ← List.filterMap_eq_filter]
  refine List.filterMap_congr fun c _ => ?_
  cases hrank : rank? (Text.lowercase name) (Text.lowercase c) <;> simp [Option.guard, hrank]

theorem count_ranking {c : String} {n : Nat} (h : Ranked name c n) :
    ((ranking name candidates).map Prod.snd).count c = candidates.count c := by
  have hsimilar : (rank? (Text.lowercase name) (Text.lowercase c)).isSome = true := by
    rw [h.rank?_eq]
    rfl
  rw [(map_snd_ranking_perm name candidates).count_eq]
  exact List.count_filter hsimilar

theorem precedes_of_ranked {a b : Nat × String} (ha : a ∈ ranking name candidates) (hb : b ∈ ranking name candidates)
    (h : toLex a ≤ toLex b) : Precedes name a.2 b.2 :=
  ⟨a.1, b.1, (mem_ranking.mp ha).2, (mem_ranking.mp hb).2, Prod.Lex.toLex_le_toLex.mp h⟩

theorem Precedes.le_of_ranked {a b : String} {m n : Nat} (h : Precedes name a b) (ha : Ranked name a m)
    (hb : Ranked name b n) : m ≤ n := by
  obtain ⟨m', n', ha', hb', horder⟩ := h
  obtain rfl := ha.unique ha'
  obtain rfl := hb.unique hb'
  omega

/-! ### What is suggested -/

/-- What is suggested for a name, out of some candidates and no more than a limit. -/
structure Suggests (name : String) (candidates : List String) (limit : Nat) (found : List String) : Prop where
  /-- The same is suggested in whatever order the candidates are given. -/
  unordered : ∀ candidates' : List String, candidates'.Perm candidates → find name candidates' limit = found
  extended : ∀ limit', limit ≤ limit' → found <+: find name candidates limit'
  short : found.length ≤ limit
  /-- No candidate is listed more often than it is given. -/
  given : found.Subperm candidates
  similar : ∀ c ∈ found, ∃ n, Ranked name c n
  in_order : found.Pairwise (Precedes name)
  /-- Where a candidate is listed, all closer ones are. -/
  closer : ∀ c m, Ranked name c m → ∀ d ∈ found, ∀ n, Ranked name d n → m < n → found.count c = candidates.count c
  /-- Where one is left out, the list is full of such as precede it. -/
  omitted : ∀ c n, Ranked name c n → found.count c < candidates.count c →
    found.length = limit ∧ ∀ d ∈ found, Precedes name d c

theorem find_pairwise (name : String) (candidates : List String) (limit : Nat) :
    (find name candidates limit).Pairwise (Precedes name) := by
  rw [find_eq_take, List.pairwise_map]
  refine ((ranking_sorted name candidates).sublist (List.take_sublist limit _)).imp_of_mem fun {a b} ha hb h => ?_
  exact precedes_of_ranked (List.mem_of_mem_take ha) (List.mem_of_mem_take hb) h

theorem find_subperm (name : String) (candidates : List String) (limit : Nat) :
    (find name candidates limit).Subperm candidates := by
  have hlisted : (find name candidates limit).Sublist ((ranking name candidates).map Prod.snd) :=
    (List.take_sublist limit _).map Prod.snd
  exact (hlisted.subperm.trans (map_snd_ranking_perm name candidates).subperm).trans List.filter_sublist.subperm

/-- What is left out stands behind all that is suggested. -/
theorem precedes_of_omitted {limit : Nat} {c : String} {n : Nat} (h : Ranked name c n)
    (hcount : (find name candidates limit).count c < candidates.count c) :
    (find name candidates limit).length = limit ∧ ∀ d ∈ find name candidates limit, Precedes name d c := by
  have hsplit := List.take_append_drop limit (ranking name candidates)
  have hrest : c ∈ ((ranking name candidates).drop limit).map Prod.snd := by
    have hall : ((ranking name candidates).map Prod.snd).count c = candidates.count c := count_ranking h
    rw [← hsplit, List.map_append, List.count_append, ← find_eq_take] at hall
    exact List.count_pos_iff.mp (by omega)
  obtain ⟨e, he, rfl⟩ := List.mem_map.mp hrest
  constructor
  · have hlength := List.length_pos_of_mem he
    rw [List.length_drop] at hlength
    rw [find_eq_take, List.length_map, List.length_take]
    omega
  · intro d hd
    rw [find_eq_take] at hd
    obtain ⟨a, ha, rfl⟩ := List.mem_map.mp hd
    have hsorted := ranking_sorted name candidates
    rw [← hsplit, List.pairwise_append] at hsorted
    exact precedes_of_ranked (List.mem_of_mem_take ha) (List.mem_of_mem_drop he) (hsorted.2.2 a ha e he)

/-- Suggestions are the beginning of one order of the similar candidates, which follows how close they are and then
their code points. -/
theorem suggestions_are_ranked (name : String) (candidates : List String) (limit : Nat) :
    Suggests name candidates limit (find name candidates limit) where
  unordered candidates' h := by rw [find_eq_take, ranking_congr h, ← find_eq_take]
  extended limit' h := by
    rw [find_eq_take, find_eq_take]
    exact (List.take_prefix_take_left h).map Prod.snd
  short := by
    rw [find_eq_take, List.length_map]
    exact List.length_take_le _ _
  given := find_subperm name candidates limit
  similar c hc := by
    rw [find_eq_take] at hc
    obtain ⟨e, he, rfl⟩ := List.mem_map.mp hc
    exact ⟨e.1, (mem_ranking.mp (List.mem_of_mem_take he)).2⟩
  in_order := find_pairwise name candidates limit
  closer c m hc d hd n hn hlt := by
    refine ((find_subperm name candidates limit).count_le c).eq_of_not_lt fun hcount => ?_
    exact Nat.not_le_of_lt hlt (((precedes_of_omitted hc hcount).2 d hd).le_of_ranked hn hc)
  omitted c n hc hcount := precedes_of_omitted hc hcount

end Workflow.Similar
