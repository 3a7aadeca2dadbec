import Workflow.Proofs.Tokenizing

/-! References as they are written. Below its name an expression of the grammar is a run of parts, and each of them is
read as one segment until nothing is left. What was read can be written again and is then read the same, although it
need not look the same: leading zeros are gone, and an index too large for a machine word has become a field. -/

namespace Workflow

/-! ### Segments off a text -/

namespace Path

/-- The segments as they are taken off a text one by one, with what is left where no further one begins. -/
def takeOff (found : Path) : List Char → Path × List Char
  | '.' :: rest => takeOff (found ++ [.field (String.ofList (word rest))]) (afterWord rest)
  | '[' :: rest =>
    if ']' ∈ rest then takeOff (found ++ [.ofBracketed (bracketed rest)]) (afterBracket rest) else (found, '[' :: rest)
  | rest => (found, rest)
termination_by cs => cs.length
decreasing_by
  · exact Nat.lt_succ_of_le (afterWord_length rest)
  · exact Nat.lt_succ_of_le (afterBracket_length rest)

theorem takeOff_fst (found : Path) (cs : List Char) : (takeOff found cs).1 = found ++ segments cs := by
  fun_induction takeOff found cs with
  | case1 found rest ih =>
    rw [ih, segments]
    simp
  | case2 found rest hclosed ih =>
    rw [ih, segments, if_pos hclosed]
    simp
  | case3 found rest hopen =>
    rw [segments, if_neg hopen]
    simp
  | case4 found rest hdot hbracket =>
    rw [segments]
    · simp
    · exact hdot
    · exact hbracket

theorem takeOff_field (found : Path) {name rest : List Char} (hname : ∀ c ∈ name, isDelimiter c = false)
    (hrest : AtSegment rest) :
    takeOff found ('.' :: (name ++ rest)) = takeOff (found ++ [.field (String.ofList name)]) rest := by
  obtain ⟨hword, hafter⟩ := word_append hname hrest
  rw [takeOff, hword, hafter]

theorem takeOff_index (found : Path) {inside : List Char} (hinside : ']' ∉ inside) (rest : List Char) :
    takeOff found ('[' :: (inside ++ ']' :: rest)) = takeOff (found ++ [.ofBracketed inside]) rest := by
  obtain ⟨hbracketed, hafter⟩ := bracketed_append hinside rest
  rw [takeOff, if_pos (by simp), hbracketed, hafter]

end Path

/-! ### Parts of an expression -/

namespace Template

/-- What stands below the name of an expression: a field after a dot, or digits between brackets. -/
inductive Part where
  | field (name : List Char)
  | index (digits : List Char)

namespace Part

def chars : Part → List Char
  | .field name => '.' :: name
  | .index digits => '[' :: (digits ++ [']'])

def Spelled : Part → Prop
  | .field name => name ≠ [] ∧ ∀ c ∈ name, isNameChar c = true
  | .index digits => digits ≠ [] ∧ ∀ c ∈ digits, c.isDigit = true

/-- What the part is read as. Digits that no machine word holds are a field. -/
def segment : Part → Segment
  | .field name => .field (String.ofList name)
  | .index digits =>
    if Text.digitsValue digits ≤ Text.wordMax then .index (Text.digitsValue digits)
    else .field (String.ofList digits)

end Part

theorem spellsParts_flatMap {parts : List Part} (h : ∀ p ∈ parts, p.Spelled) :
    SpellsParts (parts.flatMap Part.chars) := by
  induction parts with
  | nil => exact .none
  | cons p parts ih =>
    have hrest := ih fun q hq => h q (List.mem_cons_of_mem _ hq)
    have hp := h p List.mem_cons_self
    rw [List.flatMap_cons]
    cases p with
    | field name => exact .field hp.1 hp.2 hrest
    | index digits =>
      rw [Part.chars, List.cons_append, List.append_assoc]
      exact .index hp.1 hp.2 hrest

theorem exists_parts {cs : List Char} (h : SpellsParts cs) :
    ∃ parts : List Part, (∀ p ∈ parts, p.Spelled) ∧ cs = parts.flatMap Part.chars := by
  induction h with
  | none => exact ⟨[], nofun, rfl⟩
  | @field name rest hne hname _ ih =>
    obtain ⟨parts, hparts, rfl⟩ := ih
    exact ⟨.field name :: parts, List.forall_mem_cons.mpr ⟨⟨hne, hname⟩, hparts⟩, rfl⟩
  | @index digits rest hne hdigits _ ih =>
    obtain ⟨parts, hparts, rfl⟩ := ih
    refine ⟨.index digits :: parts, List.forall_mem_cons.mpr ⟨⟨hne, hdigits⟩, hparts⟩, ?_⟩
    simp [Part.chars]

/-- The expressions of the grammar are the names with parts below them. -/
theorem spellsExpr_iff {cs : List Char} :
    SpellsExpr cs ↔ ∃ (base : String) (parts : List Part), isName base = true ∧ (∀ p ∈ parts, p.Spelled) ∧
      cs = base.toList ++ parts.flatMap Part.chars := by
  constructor
  · rintro ⟨hname, hparts⟩
    rename_i name below
    obtain ⟨parts, hspelled, rfl⟩ := exists_parts hparts
    refine ⟨String.ofList name, parts, ?_, hspelled, ?_⟩
    · rwa [isName, String.toList_ofList]
    · rw [String.toList_ofList]
  · rintro ⟨base, parts, hbase, hspelled, rfl⟩
    exact .mk hbase (spellsParts_flatMap hspelled)

theorem ofBracketed_digits {digits : List Char} (h : (Part.index digits).Spelled) :
    Segment.ofBracketed digits = (Part.index digits).segment := by
  have hplus : '+' ∉ digits := fun hmem => absurd (h.2 _ hmem) (by decide)
  have hdigits : (digits.isEmpty || !digits.all Char.isDigit) = false := by
    rw [List.all_eq_true.mpr h.2, List.isEmpty_eq_false_iff.mpr h.1]
    rfl
  rw [Segment.ofBracketed, Text.word?_of_not_plus hplus, Text.wordOfDigits?, hdigits, Part.segment]
  simp only [Bool.false_eq_true, if_false]
  split <;> split <;> simp_all

/-- Each part is taken off as one segment, in order, and nothing is left of the text. -/
theorem takeOff_parts (found : Path) {parts : List Part} (h : ∀ p ∈ parts, p.Spelled) :
    Path.takeOff found (parts.flatMap Part.chars) = (found ++ parts.map Part.segment, []) := by
  induction parts generalizing found with
  | nil => simp [Path.takeOff]
  | cons p parts ih =>
    have hlater : ∀ q ∈ parts, q.Spelled := fun q hq => h q (List.mem_cons_of_mem _ hq)
    have hp := h p List.mem_cons_self
    have hfirst : Path.takeOff found ((p :: parts).flatMap Part.chars) =
        Path.takeOff (found ++ [p.segment]) (parts.flatMap Part.chars) := by
      rw [List.flatMap_cons]
      cases p with
      | field name =>
        have hplain : ∀ c ∈ name, Path.isDelimiter c = false := fun c hc => not_isDelimiter (hp.2 c hc)
        exact Path.takeOff_field found hplain (spellsParts_flatMap hlater).atSegment
      | index digits =>
        have hclosing : ']' ∉ digits := fun hmem => absurd (hp.2 _ hmem) (by decide)
        rw [Part.chars, List.cons_append, List.append_assoc, List.singleton_append, ← ofBracketed_digits hp]
        exact Path.takeOff_index found hclosing _
    rw [hfirst, ih _ hlater, List.map_cons, List.append_assoc, List.singleton_append]

/-- An expression is read as its name and one segment for each of its parts. -/
theorem parse_parts {expr base : String} {parts : List Part} (hbase : isName base = true)
    (hparts : ∀ p ∈ parts, p.Spelled) (h : expr.toList = base.toList ++ parts.flatMap Part.chars) :
    Path.afterWord expr.toList = parts.flatMap Part.chars ∧ Path.parse expr = (base, parts.map Part.segment) := by
  have hplain : ∀ c ∈ base.toList, Path.isDelimiter c = false := fun c hc =>
    not_isDelimiter (isNameChar_of_mem hbase hc)
  obtain ⟨hword, hafter⟩ := Path.word_append hplain (spellsParts_flatMap hparts).atSegment
  have hsegments := Path.takeOff_fst [] (parts.flatMap Part.chars)
  rw [takeOff_parts [] hparts, List.nil_append, List.nil_append] at hsegments
  rw [Path.parse, h, hword, hafter, String.ofList_toList, ← hsegments]
  exact ⟨rfl, rfl⟩

end Template

/-! ### Segments as parts -/

namespace Segment

def Writable : Segment → Prop
  | .field name => name ≠ "" ∧ ∀ c ∈ name.toList, Template.isNameChar c = true
  | .index n => n ≤ Text.wordMax

def part : Segment → Template.Part
  | .field name => .field name.toList
  | .index n => .index (Nat.toDigits 10 n)

theorem toList_render (s : Segment) : s.render.toList = s.part.chars := by
  cases s with
  | field name =>
    rw [render, String.toList_append]
    rfl
  | index n => simp [render, part, Template.Part.chars, Text.ofNat, String.toList_append]

theorem spelled_part {s : Segment} (h : s.Writable) : s.part.Spelled := by
  cases s with
  | field name =>
    refine ⟨fun hnil => h.1 ?_, h.2⟩
    rwa [← String.toList_eq_nil_iff]
  | index n => exact ⟨Nat.toDigits_ne_nil, fun c hc => Text.isDigit_of_mem_toDigits hc⟩

/-- A segment is read back from the part that it is written as. -/
theorem segment_part {s : Segment} (h : s.Writable) : s.part.segment = s := by
  cases s with
  | field name => rw [part, Template.Part.segment, String.ofList_toList]
  | index n =>
    rw [part, Template.Part.segment, Text.digitsValue_toDigits]
    exact if_pos h

end Segment

theorem Template.Part.writable_segment {p : Part} (h : p.Spelled) : p.segment.Writable := by
  have hfield {name : List Char} (hne : name ≠ []) (hname : ∀ c ∈ name, isNameChar c = true) :
      (Segment.field (String.ofList name)).Writable := by
    refine ⟨fun hempty => hne ?_, ?_⟩
    · rw [← String.toList_ofList (l := name), hempty]
      rfl
    · rwa [String.toList_ofList]
  cases p with
  | field name => exact hfield h.1 h.2
  | index digits =>
    rw [segment]
    split
    · assumption
    · apply hfield h.1
      intro c hc
      simp [isNameChar, h.2 c hc]

namespace Path

theorem toList_render (path : Path) : (render path).toList = (path.map Segment.part).flatMap Template.Part.chars := by
  induction path with
  | nil => rfl
  | cons s path ih =>
    rw [render_cons, String.toList_append, Segment.toList_render, ih, List.map_cons, List.flatMap_cons]

theorem spelled_parts {path : Path} (h : ∀ s ∈ path, s.Writable) : ∀ p ∈ path.map Segment.part, p.Spelled := by
  intro p hp
  obtain ⟨s, hs, rfl⟩ := List.mem_map.mp hp
  exact Segment.spelled_part (h s hs)

theorem map_segment_part {path : Path} (h : ∀ s ∈ path, s.Writable) :
    (path.map Segment.part).map Template.Part.segment = path := by
  rw [List.map_map]
  exact (List.map_congr_left fun s hs => Segment.segment_part (h s hs)).trans (List.map_id path)

end Path

/-! ### Round trips -/

namespace Template

/-- An expression is read as a name and one segment for each part below it. -/
structure ReadsParts (expr base : String) (parts : List Part) : Prop where
  read : Path.parse expr = (base, parts.map Part.segment)
  /-- Taking segments off the text below the name ends with none of it left. -/
  consumed : Path.takeOff [] (Path.afterWord expr.toList) = (parts.map Part.segment, [])
  /-- What was read is read again as it is. -/
  again : Path.parse (base ++ Path.render (parts.map Part.segment)) = (base, parts.map Part.segment)

/-- A path that is written below a name is in the grammar, and name and path are read back from it. -/
theorem parse_written {base : String} (hbase : isName base = true) {path : Path} (hpath : ∀ s ∈ path, s.Writable) :
    SpellsExpr (base ++ Path.render path).toList ∧ Path.parse (base ++ Path.render path) = (base, path) := by
  have hwritten : (base ++ Path.render path).toList = base.toList ++ (path.map Segment.part).flatMap Part.chars := by
    rw [String.toList_append, Path.toList_render]
  have hspelled := Path.spelled_parts hpath
  refine ⟨spellsExpr_iff.mpr ⟨base, _, hbase, hspelled, hwritten⟩, ?_⟩
  rw [(parse_parts hbase hspelled hwritten).2, Path.map_segment_part hpath]

theorem readsParts {expr base : String} {parts : List Part} (hbase : isName base = true)
    (hparts : ∀ p ∈ parts, p.Spelled) (h : expr.toList = base.toList ++ parts.flatMap Part.chars) :
    ReadsParts expr base parts := by
  obtain ⟨hafter, hread⟩ := parse_parts hbase hparts h
  have hwritable : ∀ s ∈ parts.map Part.segment, s.Writable := by
    intro s hs
    obtain ⟨p, hp, rfl⟩ := List.mem_map.mp hs
    exact Part.writable_segment (hparts p hp)
  refine ⟨hread, ?_, (parse_written hbase hwritable).2⟩
  rw [hafter, takeOff_parts [] hparts, List.nil_append]

/-- Names and paths are read back from the expressions they are written as, all of which are in the grammar. The
expressions of the grammar in turn are names with parts below them; each part is read as one segment, and writing what
was read does not change it. -/
theorem expressions_round_trip :
    (∀ (base : String) (path : Path), isName base = true → (∀ s ∈ path, s.Writable) →
      Path.parse (base ++ Path.render path) = (base, path) ∧ SpellsExpr (base ++ Path.render path).toList ∧
        simpleReference ("$\x7b" ++ (base ++ Path.render path) ++ "\x7d") =
          some ⟨base ++ Path.render path, base, path⟩) ∧
    ∀ expr : String,
      (Path.takeOff [] (Path.afterWord expr.toList)).1 = (Path.parse expr).2 ∧
      (SpellsExpr expr.toList ↔ ∃ (base : String) (parts : List Part), isName base = true ∧
        (∀ p ∈ parts, p.Spelled) ∧ expr.toList = base.toList ++ parts.flatMap Part.chars) ∧
      ∀ (base : String) (parts : List Part), isName base = true → (∀ p ∈ parts, p.Spelled) →
        expr.toList = base.toList ++ parts.flatMap Part.chars → ReadsParts expr base parts := by
  constructor
  · intro base path hbase hpath
    obtain ⟨hspelled, hparse⟩ := parse_written hbase hpath
    refine ⟨hparse, hspelled, (simpleReference_written _ _).mpr ⟨hspelled, ?_⟩⟩
    rw [Reference.ofExpr, hparse]
  · intro expr
    refine ⟨?_, spellsExpr_iff, fun base parts hbase hparts h => readsParts hbase hparts h⟩
    rw [Path.takeOff_fst, List.nil_append, Path.parse]

/-- Leading zeros, an index one beyond the largest, and a field that begins with a hyphen. -/
def oddParts : List Part :=
  [.index "007".toList, .index "18446744073709551616".toList, .field "-0".toList]

def oddPath : Path := [.index 7, .field "18446744073709551616", .field "-0"]

theorem expressions_round_trip_odd :
    isName "step-1" = true ∧ (∀ s ∈ oddPath, s.Writable) ∧ (∀ p ∈ oddParts, p.Spelled) ∧
      Path.parse "step-1[7].18446744073709551616.-0" = ("step-1", oddPath) ∧
      ReadsParts "step-1[007][18446744073709551616].-0" "step-1" oddParts ∧ oddParts.map Part.segment = oddPath := by
  have hbase : isName "step-1" = true := by decide
  have hparts : ∀ p ∈ oddParts, p.Spelled := by
    intro p hp
    simp only [oddParts, List.mem_cons, List.not_mem_nil, or_false] at hp
    rcases hp with rfl | rfl | rfl
    all_goals exact ⟨by decide, List.all_eq_true.mp (by decide)⟩
  have hsegments : oddParts.map Part.segment = oddPath := by decide +kernel
  have hpath : ∀ s ∈ oddPath, s.Writable := by
    rw [← hsegments]
    intro s hs
    obtain ⟨p, hp, rfl⟩ := List.mem_map.mp hs
    exact Part.writable_segment (hparts p hp)
  obtain ⟨hwritten, hread⟩ := expressions_round_trip
  have hrender : "step-1" ++ Path.render oddPath = "step-1[7].18446744073709551616.-0" := by decide +kernel
  refine ⟨hbase, hpath, hparts, ?_, ?_, hsegments⟩
  · rw [← hrender]
    exact (hwritten "step-1" oddPath hbase hpath).1
  · exact (hread _).2.2 "step-1" oddParts hbase hparts (by decide)

end Template

end Workflow
