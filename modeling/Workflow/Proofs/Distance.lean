import Workflow.Similar
import Mathlib.Order.Bounds.Basic

/-! Edit distance. The rows of the table hold the distances of beginnings, so their characters are met from the last one
to the first; turning both texts around leaves the number of edits between them as it is. No sequence of edits beats the
recurrence, because one edit changes the distance to any other text by one at most. -/

namespace Workflow.Similar

/-! ### Edits -/

/-- One character is put in, taken out or exchanged. -/
inductive Edit : List Char → List Char → Prop
  | insertion (front back : List Char) (c : Char) : Edit (front ++ back) (front ++ c :: back)
  | deletion (front back : List Char) (c : Char) : Edit (front ++ c :: back) (front ++ back)
  | substitution (front back : List Char) (c d : Char) : Edit (front ++ c :: back) (front ++ d :: back)

/-- So many edits, one after another, turn the first text into the second. -/
inductive Turns : Nat → List Char → List Char → Prop
  | done (cs : List Char) : Turns 0 cs cs
  | edit {n : Nat} {source between target : List Char} (first : Edit source between) (rest : Turns n between target) :
      Turns (n + 1) source target

theorem Edit.symm {source target : List Char} (h : Edit source target) : Edit target source := by
  cases h with
  | insertion front back c => exact .deletion front back c
  | deletion front back c => exact .insertion front back c
  | substitution front back c d => exact .substitution front back d c

theorem Edit.reverse {source target : List Char} (h : Edit source target) : Edit source.reverse target.reverse := by
  cases h with
  | insertion front back c => simpa using Edit.insertion back.reverse front.reverse c
  | deletion front back c => simpa using Edit.deletion back.reverse front.reverse c
  | substitution front back c d => simpa using Edit.substitution back.reverse front.reverse c d

theorem Edit.cons {source target : List Char} (h : Edit source target) (c : Char) :
    Edit (c :: source) (c :: target) := by
  cases h with
  | insertion front back d => exact .insertion (c :: front) back d
  | deletion front back d => exact .deletion (c :: front) back d
  | substitution front back d e => exact .substitution (c :: front) back d e

namespace Turns

variable {n m : Nat} {source between target : List Char}

theorem zero_iff : Turns 0 source target ↔ source = target := by
  constructor
  · intro h
    cases h
    rfl
  · rintro rfl
    exact .done source

theorem trans (h : Turns n source between) (h' : Turns m between target) : Turns (n + m) source target := by
  induction h with
  | done cs => simpa using h'
  | edit first _ ih =>
    rw [Nat.add_right_comm]
    exact .edit first (ih h')

theorem symm (h : Turns n source target) : Turns n target source := by
  induction h with
  | done cs => exact .done cs
  | edit first _ ih => exact ih.trans (.edit first.symm (.done _))

theorem reverse (h : Turns n source target) : Turns n source.reverse target.reverse := by
  induction h with
  | done cs => exact .done cs.reverse
  | edit first _ ih => exact .edit first.reverse ih

theorem reverse_iff : Turns n source.reverse target.reverse ↔ Turns n source target :=
  ⟨fun h => by simpa using h.reverse, reverse⟩

theorem cons (h : Turns n source target) (c : Char) : Turns n (c :: source) (c :: target) := by
  induction h with
  | done cs => exact .done (c :: cs)
  | edit first _ ih => exact .edit (first.cons c) ih

theorem min (h : Turns n source target) (h' : Turns m source target) : Turns (min n m) source target := by
  rw [Nat.min_def]
  split
  · exact h
  · exact h'

end Turns

/-! ### The recurrence -/

/-- The distance by its recurrence: the first characters are matched, or one of them is taken out or put in. -/
def distance : List Char → List Char → Nat
  | [], target => target.length
  | c :: source, [] => (c :: source).length
  | c :: source, d :: target =>
    min (min (distance source target + if c = d then 0 else 1) (distance source (d :: target) + 1))
      (distance (c :: source) target + 1)
termination_by source target => source.length + target.length

theorem distance_nil_left (target : List Char) : distance [] target = target.length := by
  rw [distance]

theorem distance_nil_right (source : List Char) : distance source [] = source.length := by
  cases source <;> simp [distance]

theorem distance_cons_cons (c d : Char) (source target : List Char) :
    distance (c :: source) (d :: target) =
      min (min (distance source target + if c = d then 0 else 1) (distance source (d :: target) + 1))
        (distance (c :: source) target + 1) := by
  rw [distance]

theorem distance_matched (c d : Char) (source target : List Char) :
    distance (c :: source) (d :: target) ≤ distance source target + if c = d then 0 else 1 := by
  rw [distance_cons_cons]
  omega

theorem distance_cons_left (c : Char) (source target : List Char) :
    distance (c :: source) target ≤ distance source target + 1 := by
  cases target with
  | nil => simp [distance_nil_right]
  | cons d target =>
    rw [distance_cons_cons]
    omega

theorem distance_cons_right (d : Char) (source target : List Char) :
    distance source (d :: target) ≤ distance source target + 1 := by
  cases source with
  | nil => simp [distance_nil_left]
  | cons c source =>
    rw [distance_cons_cons]
    omega

/-- So many edits as the recurrence counts are enough. -/
theorem turns_distance (source target : List Char) : Turns (distance source target) source target := by
  fun_induction distance source target with
  | case1 target =>
    induction target with
    | nil => exact .done []
    | cons d target ih => exact .edit (.insertion [] [] d) (ih.cons d)
  | case2 c source =>
    show Turns (source.length + 1) (c :: source) []
    induction source generalizing c with
    | nil => exact .edit (.deletion [] [] c) (.done [])
    | cons d source ih => exact .edit (.deletion [] (d :: source) c) (ih d)
  | case3 c source d target matched deleted inserted =>
    have hmatch : Turns (distance source target + if c = d then 0 else 1) (c :: source) (d :: target) := by
      by_cases hcd : c = d
      · rw [if_pos hcd, ← hcd]
        exact matched.cons c
      · rw [if_neg hcd]
        exact .edit (.substitution [] source c d) (matched.cons d)
    have hdelete : Turns (distance source (d :: target) + 1) (c :: source) (d :: target) :=
      .edit (.deletion [] source c) deleted
    have hinsert : Turns (distance (c :: source) target + 1) (c :: source) (d :: target) :=
      .edit (.insertion [] (c :: source) d) (inserted.cons d)
    exact (hmatch.min hdelete).min hinsert

/-- The first text is no further from any other than the second is, up to one edit. -/
def Near (source between : List Char) : Prop := ∀ target, distance source target ≤ distance between target + 1

namespace Near

variable {source between : List Char}

theorem inserted (c : Char) (source : List Char) : Near source (c :: source) := by
  intro target
  induction target with
  | nil =>
    rw [distance_nil_right, distance_nil_right, List.length_cons]
    omega
  | cons d target ih =>
    have hleft := distance_cons_right d source target
    rw [distance_cons_cons]
    omega

theorem deleted (c : Char) (source : List Char) : Near (c :: source) source := distance_cons_left c source

theorem substituted (c d : Char) (source : List Char) : Near (c :: source) (d :: source) := by
  intro target
  induction target with
  | nil =>
    rw [distance_nil_right, distance_nil_right, List.length_cons, List.length_cons]
    omega
  | cons e target ih =>
    have hmatched := distance_matched c e source target
    have hleft := distance_cons_left c source (e :: target)
    have hright := distance_cons_right e (c :: source) target
    rw [distance_cons_cons d]
    split at hmatched <;> omega

/-- A character in front of both texts does not take them apart. -/
theorem cons (h : Near source between) (c : Char) : Near (c :: source) (c :: between) := by
  intro target
  induction target with
  | nil =>
    have hlength := h []
    simp only [distance_nil_right, List.length_cons] at hlength ⊢
    omega
  | cons d target ih =>
    have hmatched := h target
    have hdeleted := h (d :: target)
    rw [distance_cons_cons, distance_cons_cons]
    omega

theorem append (h : Near source between) (front : List Char) : Near (front ++ source) (front ++ between) := by
  induction front with
  | nil => exact h
  | cons c front ih => exact ih.cons c

end Near

theorem Edit.near {source between : List Char} (h : Edit source between) : Near source between := by
  cases h with
  | insertion front back c => exact (Near.inserted c back).append front
  | deletion front back c => exact (Near.deleted c back).append front
  | substitution front back c d => exact (Near.substituted c d back).append front

/-- No sequence of edits is shorter than the recurrence counts. -/
theorem distance_le {n : Nat} {source target : List Char} (h : Turns n source target) :
    distance source target ≤ n := by
  induction h with
  | done cs =>
    induction cs with
    | nil => simp [distance_nil_left]
    | cons c cs ih =>
      have hmatched := distance_matched c c cs cs
      rw [if_pos rfl] at hmatched
      omega
  | @edit n source between target first _ ih =>
    have hfirst := first.near target
    omega

/-! ### Row by row -/

/-- The distances from a source to longer and longer beginnings of a target. Both the source and what the target begins
with are given from their last characters to their first. -/
def entries (source before : List Char) : List Char → List Nat
  | [] => []
  | d :: rest => distance source (d :: before) :: entries source (d :: before) rest

def row (source target : List Char) : List Nat := distance source [] :: entries source [] target

theorem length_entries (source before target : List Char) : (entries source before target).length = target.length := by
  induction target generalizing before with
  | nil => rfl
  | cons d rest ih => simp [entries, ih]

theorem nextEntries_entries (c : Char) (source before target : List Char) :
    nextEntries c (distance (c :: source) before) (distance source before :: entries source before target) target =
      entries (c :: source) before target := by
  induction target generalizing before with
  | nil => simp [nextEntries, entries]
  | cons d rest ih =>
    have hentry : min (min (distance source before + if c = d then 0 else 1) (distance source (d :: before) + 1))
        (distance (c :: source) before + 1) = distance (c :: source) (d :: before) :=
      (distance_cons_cons c d source before).symm
    simp only [entries, nextEntries, hentry, ih]

theorem nextRow_row (c : Char) (source target : List Char) :
    nextRow c target (row source target) = row (c :: source) target := by
  have hfirst : distance source [] + 1 = distance (c :: source) [] := by
    simp [distance_nil_right]
  simp only [nextRow, row, List.headD_cons, hfirst, nextEntries_entries]

theorem lastRow_row (source target rest : List Char) :
    lastRow target (row source target) rest = row (rest.reverse ++ source) target := by
  induction rest generalizing source with
  | nil => rfl
  | cons c rest ih =>
    rw [lastRow, nextRow_row, ih]
    simp

theorem entries_nil (before target : List Char) :
    entries [] before target = List.range' (before.length + 1) target.length := by
  induction target generalizing before with
  | nil => rfl
  | cons d rest ih =>
    rw [entries, distance_nil_left, ih, List.length_cons, List.length_cons, List.range'_succ]

theorem row_nil (target : List Char) : row [] target = List.range (target.length + 1) := by
  rw [row, distance_nil_left, entries_nil, List.range_eq_range', List.range'_succ]
  rfl

/-- The last entry of a row is the distance to the whole target. -/
theorem getLast?_row (source before target : List Char) :
    (distance source before :: entries source before target).getLast? =
      some (distance source (target.reverse ++ before)) := by
  induction target generalizing before with
  | nil => rfl
  | cons d rest ih =>
    rw [entries, List.getLast?_cons_cons, ih]
    simp

theorem editDistance_eq (source target : List Char) :
    editDistance source target = distance source.reverse target.reverse := by
  rw [editDistance, ← row_nil, lastRow_row, row, List.getLastD_eq_getLast?, getLast?_row]
  simp

theorem editDistance_isLeast (source target : List Char) :
    IsLeast {n | Turns n source target} (editDistance source target) := by
  rw [editDistance_eq]
  constructor
  · exact Turns.reverse_iff.mp (turns_distance source.reverse target.reverse)
  · intro n h
    exact distance_le (Turns.reverse h)

/-! ### Cell by cell -/

/-- Fills one cell of a row, unless an index is out of range. -/
def fillCell? (c d : Char) (previous current : List Nat) (j : Nat) : Option (List Nat) := do
  let diagonal ← previous[j]?
  let above ← previous[j + 1]?
  let left ← current[j]?
  if j + 1 < current.length then
    some (current.set (j + 1) (min (min (diagonal + if c = d then 0 else 1) (above + 1)) (left + 1)))
  else none

/-- Fills a row from an index on, one cell for each character of the target. -/
def fillRow? (c : Char) (previous : List Nat) (j : Nat) (current : List Nat) : List Char → Option (List Nat)
  | [] => some current
  | d :: rest => (fillCell? c d previous current j).bind fun current => fillRow? c previous (j + 1) current rest

def fillRows? (target : List Char) (i : Nat) (previous : List Nat) : List Char → Option (List Nat)
  | [] => some previous
  | c :: rest =>
    (fillRow? c previous 0 (List.replicate (target.length + 1) (i + 1)) target).bind fun current =>
      fillRows? target (i + 1) current rest

/-- The distance as it is read from a table of which two rows are kept, unless an index is out of range. -/
def tableDistance? (source target : List Char) : Option Nat :=
  (fillRows? target 0 (List.range (target.length + 1)) source).bind fun last => last[target.length]?

theorem length_nextEntries (c : Char) (left diagonal : Nat) {row : List Nat} {target : List Char}
    (h : row.length = target.length) : (nextEntries c left (diagonal :: row) target).length = target.length := by
  induction target generalizing left diagonal row with
  | nil => simp [nextEntries]
  | cons d rest ih =>
    obtain ⟨above, row, rfl⟩ := List.exists_cons_of_length_eq_add_one h
    simp only [List.length_cons, Nat.add_right_cancel_iff] at h
    simp [nextEntries, ih _ _ h]

/-- While a row is filled, the cells before the index hold what the recurrence says and all indices are in range. -/
theorem fillRow?_eq (c : Char) (front done : List Nat) (diagonal left : Nat) {row filler : List Nat}
    {target : List Char} (hdone : done.length = front.length) (hrow : row.length = target.length)
    (hfiller : filler.length = target.length) :
    fillRow? c (front ++ diagonal :: row) front.length (done ++ left :: filler) target =
      some (done ++ left :: nextEntries c left (diagonal :: row) target) := by
  induction target generalizing front done row filler diagonal left with
  | nil =>
    rw [List.length_nil, List.length_eq_zero_iff] at hfiller
    simp [fillRow?, nextEntries, hfiller]
  | cons d rest ih =>
    obtain ⟨above, row, rfl⟩ := List.exists_cons_of_length_eq_add_one hrow
    obtain ⟨cell, filler, rfl⟩ := List.exists_cons_of_length_eq_add_one hfiller
    simp only [List.length_cons, Nat.add_right_cancel_iff] at hrow hfiller
    let entry := min (min (diagonal + if c = d then 0 else 1) (above + 1)) (left + 1)
    have hcell : fillCell? c d (front ++ diagonal :: above :: row) (done ++ left :: cell :: filler) front.length =
        some ((done ++ [left]) ++ entry :: filler) := by
      simp [fillCell?, ← hdone, entry]
    have hnext := ih (front ++ [diagonal]) (done ++ [left]) above entry (by simp [hdone]) hrow hfiller
    rw [fillRow?, hcell, Option.bind_some]
    simp only [List.append_assoc, List.singleton_append, List.length_append, List.length_singleton] at hnext ⊢
    rw [hnext]
    rfl

/-- The first cell of a row is its index, so it need not be counted up from the row above. -/
theorem fillRows?_eq {target : List Char} {i : Nat} {row : List Nat} (hrow : row.length = target.length)
    (source : List Char) :
    fillRows? target i (i :: row) source = some (lastRow target (i :: row) source) := by
  induction source generalizing i row with
  | nil => rfl
  | cons c rest ih =>
    have hfilled : fillRow? c (i :: row) 0 ((i + 1) :: List.replicate target.length (i + 1)) target =
        some ((i + 1) :: nextEntries c (i + 1) (i :: row) target) :=
      fillRow?_eq c [] [] i (i + 1) rfl hrow List.length_replicate
    rw [fillRows?, List.replicate_succ, hfilled, Option.bind_some, ih (length_nextEntries c _ _ hrow)]
    rfl

theorem length_row (source target : List Char) : (row source target).length = target.length + 1 := by
  rw [row, List.length_cons, length_entries]

/-- No index of the table is out of range, and what is read from it in the end is the distance. -/
theorem tableDistance?_eq (source target : List Char) :
    tableDistance? source target = some (editDistance source target) := by
  have hlast : lastRow target (List.range (target.length + 1)) source = row source.reverse target := by
    rw [← row_nil, lastRow_row, List.append_nil]
  have hfilled : fillRows? target 0 (List.range (target.length + 1)) source = some (row source.reverse target) := by
    rw [← hlast, List.range_succ_eq_map]
    exact fillRows?_eq (by simp) source
  have hend : target.length = (row source.reverse target).length - 1 := by
    rw [length_row]
    omega
  rw [tableDistance?, hfilled, Option.bind_some, hend, ← List.getLast?_eq_getElem?, row, getLast?_row,
    List.append_nil, editDistance_eq]

/-! ### The distance of two texts -/

/-- The distance of two texts is the least number of edits that turn one into the other. It can be read from a table of
which two rows are kept, all of whose indices are in range. -/
theorem editDistance_is_least (a b : String) :
    tableDistance? a.toList b.toList = some (editDistance a.toList b.toList) ∧
      IsLeast {n | Turns n a.toList b.toList} (editDistance a.toList b.toList) ∧
      editDistance a.toList b.toList = editDistance b.toList a.toList ∧
      (editDistance a.toList b.toList = 0 ↔ a = b) := by
  have hleast := editDistance_isLeast a.toList b.toList
  have hleast' := editDistance_isLeast b.toList a.toList
  refine ⟨tableDistance?_eq _ _, hleast, ?_, ?_⟩
  · apply Nat.le_antisymm
    · exact hleast.2 hleast'.1.symm
    · exact hleast'.2 hleast.1.symm
  · rw [← String.toList_inj, ← Turns.zero_iff]
    constructor
    · intro hzero
      have hturns := hleast.1
      rwa [hzero] at hturns
    · intro hturns
      exact Nat.le_zero.mp (hleast.2 hturns)

/-- A substitution, another one, and an insertion at the end. -/
example : editDistance "kitten".toList "sitting".toList = 3 := by decide

end Workflow.Similar
