import Workflow.Template.Token
import Mathlib.Data.List.TakeWhile

/-! The grammar of references. An expression is a name with field and index parts below it, and the scanner takes
exactly the expressions that a brace closes. Where it stops is settled by the next character alone, so it never has to
go back. -/

namespace Workflow

namespace Template

/-! ### The grammar -/

def spellsName : List Char → Bool
  | [] => false
  | c :: rest => isNameStart c && rest.all isNameChar

def isName (text : String) : Bool := spellsName text.toList

theorem isNameChar_of_mem {cs : List Char} (h : spellsName cs = true) {c : Char} (hc : c ∈ cs) :
    isNameChar c = true := by
  cases cs with
  | nil => cases h
  | cons d rest =>
    simp only [spellsName, Bool.and_eq_true, List.all_eq_true] at h
    rcases List.mem_cons.mp hc with rfl | hc
    · simp [isNameChar, h.1]
    · exact h.2 c hc

/-- Field and index parts as the grammar writes them. -/
inductive SpellsParts : List Char → Prop
  | none : SpellsParts []
  | field {name rest : List Char} (hne : name ≠ []) (hname : ∀ c ∈ name, isNameChar c = true)
      (hrest : SpellsParts rest) : SpellsParts ('.' :: (name ++ rest))
  | index {digits rest : List Char} (hne : digits ≠ []) (hdigits : ∀ c ∈ digits, c.isDigit = true)
      (hrest : SpellsParts rest) : SpellsParts ('[' :: (digits ++ ']' :: rest))

/-- An expression of the grammar: a name, and parts below it. -/
inductive SpellsExpr : List Char → Prop
  | mk {name parts : List Char} (hname : spellsName name = true) (hparts : SpellsParts parts) :
      SpellsExpr (name ++ parts)

theorem SpellsParts.not_dollar {parts : List Char} (h : SpellsParts parts) : '$' ∉ parts := by
  induction h with
  | none => exact List.not_mem_nil
  | field _ hname _ ih =>
    have hfield : '$' ∉ _ := fun hmem => absurd (hname _ hmem) (by decide)
    simp [hfield, ih]
  | index _ hdigits _ ih =>
    have hindex : '$' ∉ _ := fun hmem => absurd (hdigits _ hmem) (by decide)
    simp [hindex, ih]

theorem SpellsExpr.not_dollar {expr : List Char} (h : SpellsExpr expr) : '$' ∉ expr := by
  obtain ⟨hname, hparts⟩ := h
  have hfirst : '$' ∉ _ := fun hmem => absurd (isNameChar_of_mem hname hmem) (by decide)
  simp [hfirst, hparts.not_dollar]

/-- What follows a name inside an expression does not go on with the name. -/
theorem SpellsParts.head_not_name {parts : List Char} (h : SpellsParts parts) (after : List Char) :
    ∃ c rest, parts ++ '\x7d' :: after = c :: rest ∧ isNameChar c = false := by
  cases h with
  | none => exact ⟨_, _, rfl, by decide⟩
  | field => exact ⟨_, _, rfl, by decide⟩
  | index => exact ⟨_, _, rfl, by decide⟩

/-! ### What the scanner takes -/

/-- A run of characters that pass a test is cut off where it ends, if what follows does not go on with it. -/
theorem span_append {p : Char → Bool} {run rest : List Char} (hrun : ∀ d ∈ run, p d = true)
    (hrest : ∀ c ∈ rest.head?, p c = false) :
    (run ++ rest).takeWhile p = run ∧ (run ++ rest).dropWhile p = rest := by
  rw [List.takeWhile_append_of_pos hrun, List.dropWhile_append_of_pos hrun]
  cases rest with
  | nil => exact ⟨List.append_nil run, rfl⟩
  | cons c rest =>
    have hstop : ¬ p c = true := by simp [hrest c rfl]
    rw [List.takeWhile_cons_of_neg hstop, List.dropWhile_cons_of_neg hstop, List.append_nil]
    exact ⟨rfl, rfl⟩

theorem span_run {p : Char → Bool} {run : List Char} {c : Char} (hrun : ∀ d ∈ run, p d = true) (hc : p c = false)
    (rest : List Char) :
    (run ++ c :: rest).takeWhile p = run ∧ (run ++ c :: rest).dropWhile p = c :: rest :=
  span_append hrun fun d hd => by
    cases hd
    exact hc

theorem scanParts_sound (cs : List Char) : SpellsParts (scanParts cs).1 := by
  fun_induction scanParts cs with
  | case1 => exact .none
  | case2 rest hne parts after hscan ih =>
    rw [hscan] at ih
    exact .field (by simpa using hne) (fun c hc => List.mem_takeWhile_imp hc) ih
  | case3 => exact .none
  | case4 rest hne parts after hscan ih =>
    rw [hscan] at ih
    rw [not_or] at hne
    exact .index (by simpa using hne.1) (fun c hc => List.mem_takeWhile_imp hc) ih
  | case5 => exact .none

/-- Parts of the grammar are taken up to the closing brace. -/
theorem scanParts_complete {parts : List Char} (h : SpellsParts parts) (after : List Char) :
    scanParts (parts ++ '\x7d' :: after) = (parts, '\x7d' :: after) := by
  induction h with
  | none => simp [scanParts]
  | @field name rest hne hname hrest ih =>
    obtain ⟨c, tail, heq, hc⟩ := hrest.head_not_name after
    rw [heq] at ih
    obtain ⟨htake, hdrop⟩ := span_run hname hc tail
    rw [List.cons_append, List.append_assoc, heq, scanParts, htake, hdrop, if_neg (by simpa using hne), ih]
    rfl
  | @index digits rest hne hdigits hrest ih =>
    have hbracket : Char.isDigit ']' = false := by decide
    obtain ⟨htake, hdrop⟩ := span_run hdigits hbracket (rest ++ '\x7d' :: after)
    rw [List.cons_append, List.append_assoc, List.cons_append, scanParts, htake, hdrop, if_neg (by simp [hne]),
      List.drop_one, List.tail_cons, ih]
    simp

theorem scanExpr_eq_some {cs expr after : List Char} (h : scanExpr cs = some (expr, after)) :
    ∃ c rest, cs = c :: rest ∧ isNameStart c = true ∧
      expr = c :: rest.takeWhile isNameChar ++ (scanParts (rest.dropWhile isNameChar)).1 := by
  cases cs with
  | nil => cases h
  | cons c rest =>
    simp only [scanExpr] at h
    split at h
    · rename_i hc
      split at h
      · cases h
        exact ⟨c, rest, rfl, hc, rfl⟩
      · cases h
    · cases h

/-- The scanner takes an expression of the grammar with the brace behind it, and nothing else. -/
theorem scanExpr_iff {cs expr after : List Char} :
    scanExpr cs = some (expr, after) ↔ SpellsExpr expr ∧ cs = expr ++ '\x7d' :: after := by
  constructor
  · intro h
    refine ⟨?_, scanExpr_append h⟩
    obtain ⟨c, rest, rfl, hc, rfl⟩ := scanExpr_eq_some h
    have hname : spellsName (c :: rest.takeWhile isNameChar) = true := by
      rw [spellsName, hc, Bool.true_and, List.all_eq_true]
      exact fun d hd => List.mem_takeWhile_imp hd
    exact .mk hname (scanParts_sound _)
  · rintro ⟨⟨hname, hparts⟩, rfl⟩
    rename_i name parts
    cases name with
    | nil => cases hname
    | cons c rest =>
      simp only [spellsName, Bool.and_eq_true, List.all_eq_true] at hname
      obtain ⟨d, tail, heq, hd⟩ := hparts.head_not_name after
      obtain ⟨htake, hdrop⟩ := span_run hname.2 hd tail
      rw [List.cons_append, List.cons_append, List.append_assoc, heq, scanExpr, if_pos hname.1, htake, hdrop, ← heq,
        scanParts_complete hparts]
      rfl

end Template

end Workflow
