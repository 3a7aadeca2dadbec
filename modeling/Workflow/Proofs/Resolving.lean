import Workflow.Proofs.Layers
import Workflow.Proofs.Building

/-! Which references a value has, and what resolving them comes to: nothing is left unresolved exactly when every
reference that occurs within the depth finds something. -/

namespace Workflow

namespace Template

/-- A reference stands in a text of a value, below no more than so many lists and dicts. -/
inductive Occurs (r : Reference) : Nat → Json → Prop
  | text {depth : Nat} {text : String} (here : r ∈ textRefs text) : Occurs r depth (.str text)
  | item {depth : Nat} {items : List Json} {v : Json} (hv : v ∈ items) (inside : Occurs r depth v) :
      Occurs r (depth + 1) (.arr items)
  | member {depth : Nat} {fields : List (String × Json)} {key : String} {v : Json} (hv : (key, v) ∈ fields)
      (inside : Occurs r depth v) : Occurs r (depth + 1) (.obj fields)

theorem mem_fieldRefs {r : Reference} {key : String} {v : Json} {fields : List (String × Json)}
    (hv : (key, v) ∈ fields) (h : r ∈ allRefs v) : r ∈ fieldRefs fields := by
  induction fields with
  | nil => exact absurd hv List.not_mem_nil
  | cons e rest ih =>
    obtain ⟨k, w⟩ := e
    rw [fieldRefs, List.mem_append]
    rcases List.mem_cons.mp hv with heq | hv
    · cases heq
      exact .inl h
    · exact .inr (ih hv)

/-! ### Values without templates -/

theorem consLiteral_filterMap (c : Char) (tokens : List Token) :
    (consLiteral c tokens).filterMap Token.reference? = tokens.filterMap Token.reference? := by
  unfold consLiteral
  split <;> rfl

theorem occursInChars_of_mem {r : Reference} {cs : List Char}
    (h : r ∈ (tokenizeChars cs).filterMap Token.reference?) : occursInChars cs = true := by
  fun_induction tokenizeChars cs with
  | case1 => exact absurd h List.not_mem_nil
  | case2 rest expr after hscan _ _ =>
    simp [occursInChars, hscan]
  | case3 rest hscan ih =>
    rw [consLiteral_filterMap] at h
    simp [occursInChars, ih h]
  | case4 c rest hne ih =>
    rw [consLiteral_filterMap] at h
    rw [occursInChars]
    · exact ih h
    · exact hne

theorem hasTemplate_of_mem {r : Reference} {text : String} (h : r ∈ textRefs text) : hasTemplate text = true :=
  occursInChars_of_mem h

theorem itemsHaveTemplate_of_mem {v : Json} {items : List Json} (hv : v ∈ items) (h : valueHasTemplate v = true) :
    itemsHaveTemplate items = true := by
  induction items with
  | nil => exact absurd hv List.not_mem_nil
  | cons w rest ih =>
    rw [itemsHaveTemplate, Bool.or_eq_true]
    rcases List.mem_cons.mp hv with rfl | hv
    · exact .inl h
    · exact .inr (ih hv)

theorem fieldsHaveTemplate_of_mem {key : String} {v : Json} {fields : List (String × Json)} (hv : (key, v) ∈ fields)
    (h : valueHasTemplate v = true) : fieldsHaveTemplate fields = true := by
  induction fields with
  | nil => exact absurd hv List.not_mem_nil
  | cons e rest ih =>
    obtain ⟨k, w⟩ := e
    rw [fieldsHaveTemplate, Bool.or_eq_true]
    rcases List.mem_cons.mp hv with heq | hv
    · cases heq
      exact .inl h
    · exact .inr (ih hv)

theorem Occurs.hasTemplate {r : Reference} {depth : Nat} {v : Json} (h : Occurs r depth v) :
    valueHasTemplate v = true := by
  induction h with
  | text here => exact hasTemplate_of_mem here
  | item hv _ ih => exact itemsHaveTemplate_of_mem hv ih
  | member hv _ ih => exact fieldsHaveTemplate_of_mem hv ih

theorem simpleReference_eq_some {text : String} {r : Reference} (h : simpleReference text = some r) :
    tokenize text = [.reference r] := by
  unfold simpleReference at h
  split at h
  · rename_i heq
    cases h
    exact heq
  · cases h

theorem textRefs_of_simpleReference {text : String} {r : Reference} (h : simpleReference text = some r) :
    textRefs text = [r] := by
  rw [textRefs, simpleReference_eq_some h]
  rfl

theorem occurs_of_simpleReference {text : String} {r : Reference} (h : simpleReference text = some r) (depth : Nat) :
    Occurs r depth (.str text) := by
  refine .text ?_
  rw [textRefs_of_simpleReference h]
  exact List.mem_singleton_self r

end Template

namespace Scope

open Template (Occurs)

variable (scope : Scope)

theorem resolveItems_unresolved (depth : Nat) (items : List Json) :
    (scope.resolveItems depth items).2 = items.flatMap fun v => (scope.resolve depth v).unresolved := by
  induction items with
  | nil => rfl
  | cons v rest ih => rw [resolveItems, List.flatMap_cons, ← ih]

theorem resolveFields_unresolved (depth : Nat) (fields : List (String × Json)) :
    (scope.resolveFields depth fields).2 = fields.flatMap fun e => (scope.resolve depth e.2).unresolved := by
  induction fields with
  | nil => rfl
  | cons e rest ih =>
    obtain ⟨k, v⟩ := e
    rw [resolveFields, List.flatMap_cons, ← ih]

/-- What is left unresolved, by the shape of the value. -/
theorem resolve_unresolved (depth : Nat) (v : Json) :
    (scope.resolve depth v).unresolved =
      match v, depth with
      | .str text, _ => scope.missingIn text
      | .arr items, depth + 1 => items.flatMap fun v => (scope.resolve depth v).unresolved
      | .obj fields, depth + 1 => fields.flatMap fun e => (scope.resolve depth e.2).unresolved
      | _, _ => [] := by
  cases v with
  | str text => rfl
  | arr items =>
    cases depth with
    | zero => rfl
    | succ depth => exact scope.resolveItems_unresolved depth items
  | obj fields =>
    cases depth with
    | zero => rfl
    | succ depth => exact scope.resolveFields_unresolved depth fields
  | _ => rfl

theorem mem_missingIn {text : String} {u : Unresolved} (h : u ∈ scope.missingIn text) :
    u.reference ∈ Template.textRefs text ∧ scope.lookup? u.reference = none := by
  obtain ⟨r, hr, rfl⟩ := List.mem_map.mp h
  obtain ⟨hmem, hnone⟩ := List.mem_filter.mp hr
  exact ⟨hmem, Option.isNone_iff_eq_none.mp hnone⟩

theorem occurs_of_unresolved {depth : Nat} {v : Json} {u : Unresolved} (h : u ∈ (scope.resolve depth v).unresolved) :
    Occurs u.reference depth v ∧ scope.lookup? u.reference = none := by
  rw [resolve_unresolved] at h
  induction depth generalizing v with
  | zero =>
    cases v with
    | str text =>
      obtain ⟨hmem, hnone⟩ := scope.mem_missingIn h
      exact ⟨.text hmem, hnone⟩
    | _ => exact absurd h List.not_mem_nil
  | succ depth ih =>
    cases v with
    | str text =>
      obtain ⟨hmem, hnone⟩ := scope.mem_missingIn h
      exact ⟨.text hmem, hnone⟩
    | arr items =>
      obtain ⟨w, hw, h⟩ := List.mem_flatMap.mp h
      obtain ⟨hinside, hnone⟩ := ih (scope.resolve_unresolved depth w ▸ h)
      exact ⟨.item hw hinside, hnone⟩
    | obj fields =>
      obtain ⟨⟨k, w⟩, hw, h⟩ := List.mem_flatMap.mp h
      obtain ⟨hinside, hnone⟩ := ih (scope.resolve_unresolved depth w ▸ h)
      exact ⟨.member hw hinside, hnone⟩
    | _ => exact absurd h List.not_mem_nil

theorem unresolved_of_occurs {depth : Nat} {v : Json} {r : Reference} (h : Occurs r depth v)
    (hnone : scope.lookup? r = none) : ∃ u ∈ (scope.resolve depth v).unresolved, u.reference = r := by
  induction h with
  | @text depth text here =>
    refine ⟨scope.missing text r, List.mem_map.mpr ⟨r, ?_, rfl⟩, rfl⟩
    exact List.mem_filter.mpr ⟨here, Option.isNone_iff_eq_none.mpr hnone⟩
  | item hv _ ih =>
    obtain ⟨u, hu, hr⟩ := ih
    rw [resolve_unresolved]
    exact ⟨u, List.mem_flatMap.mpr ⟨_, hv, hu⟩, hr⟩
  | member hv _ ih =>
    obtain ⟨u, hu, hr⟩ := ih
    rw [resolve_unresolved]
    exact ⟨u, List.mem_flatMap.mpr ⟨_, hv, hu⟩, hr⟩

/-- Resolving is complete exactly when every reference within the depth finds something. -/
theorem resolve_isComplete_iff {depth : Nat} {v : Json} :
    (scope.resolve depth v).unresolved = [] ↔ ∀ r, Occurs r depth v → (scope.lookup? r).isSome := by
  constructor
  · intro h r hr
    cases hl : scope.lookup? r with
    | some w => rfl
    | none =>
      obtain ⟨u, hu, _⟩ := scope.unresolved_of_occurs hr hl
      rw [h] at hu
      exact absurd hu List.not_mem_nil
  · intro h
    refine List.eq_nil_iff_forall_not_mem.mpr fun u hu => ?_
    obtain ⟨hr, hnone⟩ := scope.occurs_of_unresolved hu
    have hsome := h u.reference hr
    rw [hnone] at hsome
    cases hsome

theorem resolve_simpleReference (depth : Nat) {text : String} {r : Reference}
    (h : Template.simpleReference text = some r) :
    (scope.resolve depth (.str text)).value = (scope.lookup? r).getD (.str text) := by
  rw [resolve]
  unfold resolveText
  rw [Template.simpleReference_eq_some h]

end Scope

end Workflow
