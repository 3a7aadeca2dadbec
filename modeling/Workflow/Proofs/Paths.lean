import Workflow.Proofs.Grammar

/-! Paths as text. A path that is written below a name is read back as it was, as long as no field name holds the
beginning of another segment and every index is a machine word. The paths of the reference grammar are all like that. -/

namespace Workflow

/-! ### Indices as digits -/

namespace Text

theorem isDigit_of_mem_toDigits {n : Nat} {c : Char} (h : c ∈ Nat.toDigits 10 n) : c.isDigit = true :=
  Nat.isDigit_of_mem_toDigits (by decide) (by decide) h

theorem digitsValue_toDigits (n : Nat) : digitsValue (Nat.toDigits 10 n) = n := Nat.ofDigitChars_ten_toDigits

theorem wordOfDigits?_toDigits {n : Nat} (h : n ≤ wordMax) : wordOfDigits? (Nat.toDigits 10 n) = some n := by
  have hdigits : (Nat.toDigits 10 n).all Char.isDigit = true :=
    List.all_eq_true.mpr fun c hc => isDigit_of_mem_toDigits hc
  rw [wordOfDigits?, hdigits, digitsValue_toDigits, if_pos h]
  simp

theorem word?_of_not_plus {cs : List Char} (h : '+' ∉ cs) : word? cs = wordOfDigits? cs := by
  unfold word?
  split
  · exact absurd List.mem_cons_self h
  · rfl

/-- A machine word that is written in digits is read as it is. -/
theorem word?_toDigits {n : Nat} (h : n ≤ wordMax) : word? (Nat.toDigits 10 n) = some n := by
  rw [word?_of_not_plus, wordOfDigits?_toDigits h]
  exact fun hplus => absurd (isDigit_of_mem_toDigits hplus) (by decide)

theorem le_wordMax_of_word? {cs : List Char} {n : Nat} (h : word? cs = some n) : n ≤ wordMax := by
  have hdigits (ds : List Char) (h : wordOfDigits? ds = some n) : n ≤ wordMax := by
    unfold wordOfDigits? at h
    split at h
    · cases h
    · split at h
      · cases h
        assumption
      · cases h
  unfold word? at h
  split at h
  · exact hdigits _ h
  · exact hdigits _ h

end Text

/-! ### Segments -/

/-- A segment that can be told from its neighbours when it is written. -/
def Segment.Legible : Segment → Prop
  | .field name => ∀ c ∈ name.toList, Path.isDelimiter c = false
  | .index n => n ≤ Text.wordMax

namespace Path

/-- The characters begin another segment, or there are none. -/
def AtSegment (cs : List Char) : Prop := ∀ c ∈ cs.head?, isDelimiter c = true

theorem word_append {name rest : List Char} (hname : ∀ c ∈ name, isDelimiter c = false) (hrest : AtSegment rest) :
    word (name ++ rest) = name ∧ afterWord (name ++ rest) = rest := by
  have hplain : ∀ c ∈ name, (!isDelimiter c) = true := fun c hc => by rw [hname c hc]; rfl
  have hstop : ∀ c ∈ rest.head?, (!isDelimiter c) = false := fun c hc => by rw [hrest c hc]; rfl
  exact Template.span_append hplain hstop

theorem segments_nil : segments [] = [] := by simp [segments]

theorem segments_field {name rest : List Char} (hname : ∀ c ∈ name, isDelimiter c = false) (hrest : AtSegment rest) :
    segments ('.' :: (name ++ rest)) = .field (String.ofList name) :: segments rest := by
  obtain ⟨hword, hafter⟩ := word_append hname hrest
  rw [segments, hword, hafter]

theorem bracketed_append {inside : List Char} (hinside : ']' ∉ inside) (rest : List Char) :
    bracketed (inside ++ ']' :: rest) = inside ∧ afterBracket (inside ++ ']' :: rest) = rest := by
  have hplain : ∀ c ∈ inside, decide (c ≠ ']') = true := fun c hc =>
    decide_eq_true fun heq => hinside (heq ▸ hc)
  have hclosing : decide (']' ≠ ']') = false := by decide
  obtain ⟨htake, hdrop⟩ := Template.span_run hplain hclosing rest
  rw [bracketed, afterBracket, htake, hdrop, List.drop_one, List.tail_cons]
  exact ⟨rfl, rfl⟩

theorem segments_index {inside : List Char} (hinside : ']' ∉ inside) (rest : List Char) :
    segments ('[' :: (inside ++ ']' :: rest)) = .ofBracketed inside :: segments rest := by
  obtain ⟨hbracketed, hafter⟩ := bracketed_append hinside rest
  rw [segments, if_pos (by simp), hbracketed, hafter]

/-! ### Writing and reading back -/

theorem render_cons (s : Segment) (path : Path) : render (s :: path) = s.render ++ render path := by
  rw [render, List.map_cons, String.join_cons, render]

theorem atSegment_render (path : Path) : AtSegment (render path).toList := by
  cases path with
  | nil =>
    rw [render, List.map_nil, String.join_nil]
    exact fun c hc => by cases hc
  | cons s rest =>
    intro c hc
    rw [render_cons, String.toList_append] at hc
    cases s with
    | field name =>
      rw [Segment.render, String.toList_append] at hc
      cases hc
      rfl
    | index n =>
      rw [Segment.render, String.toList_append, String.toList_append] at hc
      cases hc
      rfl

theorem ofBracketed_toDigits {n : Nat} (h : n ≤ Text.wordMax) : Segment.ofBracketed (Nat.toDigits 10 n) = .index n := by
  rw [Segment.ofBracketed, Text.word?_toDigits h]

theorem segments_render {path : Path} (h : ∀ s ∈ path, s.Legible) : segments (render path).toList = path := by
  induction path with
  | nil => exact segments_nil
  | cons s rest ih =>
    have hrest := ih fun t ht => h t (List.mem_cons_of_mem _ ht)
    have hs : s.Legible := h s List.mem_cons_self
    rw [render_cons, String.toList_append]
    cases s with
    | field name =>
      have hchars : (Segment.field name).render.toList = '.' :: name.toList := by
        rw [Segment.render, String.toList_append]
        rfl
      rw [hchars, List.cons_append, segments_field hs (atSegment_render rest), hrest, String.ofList_toList]
    | index n =>
      have hchars : (Segment.index n).render.toList = '[' :: (Nat.toDigits 10 n ++ [']']) := by
        simp [Segment.render, Text.ofNat, String.toList_append]
      have hclosing : ']' ∉ Nat.toDigits 10 n := fun hmem =>
        absurd (Text.isDigit_of_mem_toDigits hmem) (by decide)
      rw [hchars, List.cons_append, List.append_assoc, List.singleton_append, segments_index hclosing,
        ofBracketed_toDigits hs, hrest]

/-- A path that is written below a name is read back with it. -/
theorem parse_render {base : String} (hbase : ∀ c ∈ base.toList, isDelimiter c = false) {path : Path}
    (h : ∀ s ∈ path, s.Legible) : parse (base ++ render path) = (base, path) := by
  obtain ⟨hword, hafter⟩ := word_append hbase (atSegment_render path)
  rw [parse, String.toList_append, hword, hafter, segments_render h, String.ofList_toList]

end Path

/-! ### Paths of the grammar -/

namespace Template

theorem not_isDelimiter {c : Char} (h : isNameChar c = true) : Path.isDelimiter c = false := by
  rw [← Bool.not_eq_true]
  intro hd
  simp only [Path.isDelimiter, Bool.or_eq_true, decide_eq_true_eq] at hd
  rcases hd with rfl | rfl
  · exact absurd h (by decide)
  · exact absurd h (by decide)

theorem SpellsParts.atSegment {parts : List Char} (h : SpellsParts parts) : Path.AtSegment parts := by
  cases h with
  | none => exact fun c hc => by cases hc
  | field | index =>
    intro c hc
    cases hc
    rfl

theorem legible_ofBracketed {digits : List Char} (h : ∀ c ∈ digits, c.isDigit = true) :
    (Segment.ofBracketed digits).Legible := by
  unfold Segment.ofBracketed
  split
  · rename_i n hn
    exact Text.le_wordMax_of_word? hn
  · intro c hc
    rw [String.toList_ofList] at hc
    exact not_isDelimiter (by simp [isNameChar, h c hc])

/-- The segments of the parts of an expression are legible. -/
theorem SpellsParts.legible {parts : List Char} (h : SpellsParts parts) : ∀ s ∈ Path.segments parts, s.Legible := by
  induction h with
  | none =>
    rw [Path.segments_nil]
    exact fun s hs => by cases hs
  | @field name rest _ hname hrest ih =>
    have hplain : ∀ c ∈ name, Path.isDelimiter c = false := fun c hc => not_isDelimiter (hname c hc)
    rw [Path.segments_field hplain hrest.atSegment]
    intro s hs
    rcases List.mem_cons.mp hs with rfl | hs
    · rw [Segment.Legible, String.toList_ofList]
      exact hplain
    · exact ih s hs
  | @index digits rest _ hdigits _ ih =>
    have hclosing : ']' ∉ digits := fun hmem => absurd (hdigits _ hmem) (by decide)
    rw [Path.segments_index hclosing]
    intro s hs
    rcases List.mem_cons.mp hs with rfl | hs
    · exact legible_ofBracketed hdigits
    · exact ih s hs

/-- An expression of the grammar begins with a name without delimiters, and its path is legible. -/
theorem SpellsExpr.legible {expr : String} (h : SpellsExpr expr.toList) :
    (∀ c ∈ (Path.parse expr).1.toList, Path.isDelimiter c = false) ∧ ∀ s ∈ (Path.parse expr).2, s.Legible := by
  generalize hcs : expr.toList = cs at h
  obtain ⟨hname, hparts⟩ := h
  have hplain := fun c hc => not_isDelimiter (isNameChar_of_mem hname (c := c) hc)
  obtain ⟨hword, hafter⟩ := Path.word_append hplain hparts.atSegment
  rw [Path.parse, hcs, hword, hafter, String.toList_ofList]
  exact ⟨hplain, hparts.legible⟩

end Template

end Workflow
