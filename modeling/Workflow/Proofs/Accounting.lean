import Workflow.Proofs.Positions
import Workflow.Proofs.Tokenizing

/-! What resolving makes of a value, place by place. Down to the depth every text is resolved where it stands, and nothing
else is changed; what is left unresolved is told in the order in which it is written. Where nothing is found, the value
comes out as it went in, since the tokens of a text and the placeholders among them spell the text. -/

namespace Workflow

/-! ### References of a value -/

namespace Template

theorem itemRefs_eq (items : List Json) : itemRefs items = items.flatMap allRefs := by
  induction items with
  | nil => rfl
  | cons v rest ih => rw [itemRefs, List.flatMap_cons, ih]

theorem fieldRefs_eq (fields : List (String × Json)) : fieldRefs fields = fields.flatMap fun e => allRefs e.2 := by
  induction fields with
  | nil => rfl
  | cons e rest ih =>
    obtain ⟨k, v⟩ := e
    rw [fieldRefs, List.flatMap_cons, ih]

/-- The references of a value are those of its texts, one text after the other. -/
theorem allRefs_eq_flatMap {depth : Nat} {v : Json} (h : v.nesting ≤ depth) :
    allRefs v = (v.textsWithin depth).flatMap fun e => textRefs e.2 := by
  induction depth generalizing v with
  | zero =>
    -- nothing is inside a value that goes no deeper, so a list or a dict is an empty one
    have hleaf : ∀ w, w ∉ v.children := fun w hw =>
      Nat.not_lt_zero _ ((Json.nesting_lt_of_mem_children hw).trans_le h)
    cases v with
    | str text => exact (Json.flatMap_textsWithin_str textRefs 0 text).symm
    | arr items =>
      obtain rfl := List.eq_nil_iff_forall_not_mem.mpr hleaf
      rfl
    | obj fields =>
      obtain rfl := List.map_eq_nil_iff.mp (List.eq_nil_iff_forall_not_mem.mpr hleaf)
      rfl
    | _ => rfl
  | succ depth ih =>
    have hchild : ∀ w ∈ v.children, allRefs w = (w.textsWithin depth).flatMap fun e => textRefs e.2 := fun w hw =>
      ih (Nat.le_of_lt_succ ((Json.nesting_lt_of_mem_children hw).trans_le h))
    cases v with
    | str text => exact (Json.flatMap_textsWithin_str textRefs _ text).symm
    | arr items =>
      rw [Json.flatMap_textsWithin_succ, ← List.flatMap_congr hchild]
      exact itemRefs_eq items
    | obj fields =>
      rw [Json.flatMap_textsWithin_succ, ← List.flatMap_congr hchild, Json.children, List.flatMap_map]
      exact fieldRefs_eq fields
    | _ => rfl

theorem mem_allRefs_iff {r : Reference} {v : Json} :
    r ∈ allRefs v ↔ ∃ path text, v.at? path = some (.str text) ∧ r ∈ textRefs text := by
  rw [allRefs_eq_flatMap (Nat.le_refl _), List.mem_flatMap]
  constructor
  · rintro ⟨⟨path, text⟩, hmem, hr⟩
    exact ⟨path, text, (Json.mem_textsWithin.mp hmem).1, hr⟩
  · rintro ⟨path, text, hat, hr⟩
    exact ⟨(path, text), Json.mem_textsWithin.mpr ⟨hat, Json.length_le_nesting hat⟩, hr⟩

theorem mem_extractRefs {r : Reference} {v : Json} : r ∈ extractRefs v ↔ r ∈ allRefs v := List.mem_eraseDups

end Template

namespace Scope

open Template (extractRefs textRefs)

variable (scope : Scope)

/-! ### Place by place -/

theorem resolveItems_items (depth : Nat) (items : List Json) :
    (scope.resolveItems depth items).1 = items.map fun v => (scope.resolve depth v).value := by
  induction items with
  | nil => rfl
  | cons v rest ih => rw [resolveItems, List.map_cons, ← ih]

theorem resolveFields_fields (depth : Nat) (fields : List (String × Json)) :
    (scope.resolveFields depth fields).1 = fields.map fun e => (e.1, (scope.resolve depth e.2).value) := by
  induction fields with
  | nil => rfl
  | cons e rest ih =>
    obtain ⟨k, v⟩ := e
    rw [resolveFields, List.map_cons, ← ih]

/-- Resolving puts what a text resolves to in the place of the text. -/
theorem resolve_value (depth : Nat) (v : Json) :
    (scope.resolve depth v).value = v.mapTexts (fun text => (scope.resolveText text).value) depth := by
  induction depth generalizing v with
  | zero => cases v <;> rfl
  | succ depth ih =>
    cases v with
    | arr items =>
      exact congrArg Json.arr ((scope.resolveItems_items depth items).trans (List.map_congr_left fun w _ => ih w))
    | obj fields =>
      refine congrArg Json.obj ((scope.resolveFields_fields depth fields).trans (List.map_congr_left fun e _ => ?_))
      exact congrArg (Prod.mk e.1) (ih e.2)
    | _ => rfl

/-- What is left unresolved, one text after the other. -/
theorem unresolved_eq_flatMap (depth : Nat) (v : Json) :
    (scope.resolve depth v).unresolved = (v.textsWithin depth).flatMap fun e => scope.missingIn e.2 := by
  induction depth generalizing v with
  | zero =>
    cases v with
    | str text => exact (Json.flatMap_textsWithin_str scope.missingIn 0 text).symm
    | _ => rfl
  | succ depth ih =>
    cases v with
    | str text => exact (Json.flatMap_textsWithin_str scope.missingIn _ text).symm
    | arr items =>
      rw [resolve_unresolved, Json.flatMap_textsWithin_succ]
      simp only [ih]
      rfl
    | obj fields =>
      rw [resolve_unresolved, Json.flatMap_textsWithin_succ, Json.children, List.flatMap_map]
      simp only [ih]
      rfl
    | _ => rfl

/-- If the value goes no deeper, the missing references are those among all of its references. -/
theorem exists_unresolved_iff {depth : Nat} {v : Json} (h : v.nesting ≤ depth) {q : Reference} :
    (∃ u ∈ (scope.resolve depth v).unresolved, u.reference = q) ↔ q ∈ extractRefs v ∧ scope.lookup? q = none := by
  rw [Template.mem_extractRefs, Template.allRefs_eq_flatMap h, unresolved_eq_flatMap, List.mem_flatMap]
  constructor
  · rintro ⟨u, hu, rfl⟩
    obtain ⟨e, he, hu⟩ := List.mem_flatMap.mp hu
    obtain ⟨hr, hnone⟩ := scope.mem_missingIn hu
    exact ⟨⟨e, he, hr⟩, hnone⟩
  · rintro ⟨⟨e, he, hr⟩, hnone⟩
    refine ⟨scope.missing e.2 q, List.mem_flatMap.mpr ⟨e, he, List.mem_map.mpr ⟨q, ?_, rfl⟩⟩, rfl⟩
    exact List.mem_filter.mpr ⟨hr, Option.isNone_iff_eq_none.mpr hnone⟩

/-! ### Where nothing is found -/

/-- A text whose references find nothing is put together again as it was. -/
theorem resolveText_of_missing {text : String} (h : ∀ r ∈ textRefs text, scope.lookup? r = none) :
    (scope.resolveText text).value = .str text := by
  have htokens : (Template.tokenize text).map scope.tokenText = (Template.tokenize text).map Token.text := by
    refine List.map_congr_left fun token htoken => ?_
    cases token with
    | literal cs => rfl
    | reference r =>
      have hnone := h r (List.mem_filterMap.mpr ⟨_, htoken, rfl⟩)
      rw [tokenText, hnone]
      rfl
  unfold resolveText
  split
  · rename_i r heq
    have hnone := h r (by simp [textRefs, heq, Template.Token.reference?])
    simp only [hnone, Option.getD_none]
  · simp only [htokens]
    exact congrArg Json.str (Template.joined_tokenize text)

theorem resolve_of_missing (depth : Nat) {v : Json} (h : ∀ r ∈ Template.allRefs v, scope.lookup? r = none) :
    (scope.resolve depth v).value = v := by
  rw [resolve_value]
  refine (Json.mapTexts_congr fun path text hat _ => ?_).trans (Json.mapTexts_self depth v)
  exact scope.resolveText_of_missing fun r hr => h r (Template.mem_allRefs_iff.mpr ⟨path, text, hat, hr⟩)

/-! ### The account as a whole -/

/-- What has become of a value that was resolved down to a depth, and what of its references. -/
structure Accounted (depth : Nat) (v : Json) (resolved : Resolved) : Prop where
  lists : ∀ path items, v.at? path = some (.arr items) →
    ∃ items', resolved.value.at? path = some (.arr items') ∧ items'.length = items.length
  dicts : ∀ path fields, v.at? path = some (.obj fields) →
    ∃ fields', resolved.value.at? path = some (.obj fields') ∧ fields'.map Prod.fst = fields.map Prod.fst
  leaves : ∀ path w, v.at? path = some w → w.asString? = none → w.asArray? = none → w.asObject? = none →
    resolved.value.at? path = some w
  texts : ∀ path text, v.at? path = some (.str text) → path.length ≤ depth →
    resolved.value.at? path = some (scope.resolveText text).value
  deep : ∀ path w, v.at? path = some w → depth < path.length → resolved.value.at? path = some w
  /-- The texts that are not too deep tell of their missing references, in order of their positions. -/
  unresolved : ∃ places : List (List Nat × String), places.Pairwise (fun a b => a.1 < b.1) ∧
    (∀ path text, (path, text) ∈ places ↔ v.at? path = some (.str text) ∧ path.length ≤ depth) ∧
    resolved.unresolved = places.flatMap fun e =>
      ((textRefs e.2).filter fun q => (scope.lookup? q).isNone).map fun q => ⟨q, e.2, scope.hint q⟩
  members : v.nesting ≤ depth →
    ∀ q, (∃ u ∈ resolved.unresolved, u.reference = q) ↔ q ∈ extractRefs v ∧ scope.lookup? q = none
  complete : v.nesting ≤ depth →
    (resolved.isComplete = true ↔ ∀ q ∈ extractRefs v, (scope.lookup? q).isSome = true)
  verbatim : (∀ q ∈ extractRefs v, scope.lookup? q = none) → resolved.value = v

/-- Resolving changes texts, and nothing else. Lists keep their lengths and dicts their keys, what lies too deep stays as
it is, and each reference that is met and finds nothing is told of in its place. -/
theorem resolution_is_accounted (depth : Nat) (v : Json) : scope.Accounted depth v (scope.resolve depth v) where
  lists path items h := by
    rw [resolve_value, Json.at?_mapTexts _ h]
    split
    · cases depth - path.length with
      | zero => exact ⟨items, rfl, rfl⟩
      | succ depth => exact ⟨_, rfl, List.length_map _⟩
    · exact ⟨items, rfl, rfl⟩
  dicts path fields h := by
    rw [resolve_value, Json.at?_mapTexts _ h]
    split
    · cases depth - path.length with
      | zero => exact ⟨fields, rfl, rfl⟩
      | succ depth => exact ⟨_, rfl, List.map_map⟩
    · exact ⟨fields, rfl, rfl⟩
  leaves path w h htext hlist hdict := by
    rw [resolve_value, Json.at?_mapTexts _ h, Json.mapTexts_leaf _ _ htext hlist hdict, ite_self]
  texts path text h hlength := by
    rw [resolve_value, Json.at?_mapTexts _ h, if_pos hlength, Json.mapTexts_str]
  deep path w h hdeep := by rw [resolve_value, Json.at?_mapTexts _ h, if_neg (Nat.not_le.mpr hdeep)]
  unresolved := ⟨v.textsWithin depth, v.textsWithin_in_order depth, fun _ _ => Json.mem_textsWithin,
    scope.unresolved_eq_flatMap depth v⟩
  members h _ := scope.exists_unresolved_iff h
  complete h := by
    rw [Resolved.isComplete, List.isEmpty_iff]
    constructor
    · intro hnil q hq
      rw [Option.isSome_iff_ne_none]
      intro hnone
      obtain ⟨u, hu, _⟩ := (scope.exists_unresolved_iff h).mpr ⟨hq, hnone⟩
      rw [hnil] at hu
      cases hu
    · intro hfound
      refine List.eq_nil_iff_forall_not_mem.mpr fun u hu => ?_
      obtain ⟨hq, hnone⟩ := (scope.exists_unresolved_iff h).mp ⟨u, hu, rfl⟩
      have hsome := hfound u.reference hq
      rw [hnone] at hsome
      cases hsome
  verbatim h := scope.resolve_of_missing depth fun r hr => h r (Template.mem_extractRefs.mpr hr)

/-- Two levels down is too deep for one: the text there keeps its reference, and nothing is missing. -/
example : let v : Json := .obj [("a", .arr [.str "$\x7bx\x7d", .str "$\x7by\x7d"]), ("b", .str "$\x7bx\x7d, $\x7by\x7d")]
    ((Scope.mk [] [("x", .nat 1)]).resolve 1 v).value =
        .obj [("a", .arr [.str "$\x7bx\x7d", .str "$\x7by\x7d"]), ("b", .str "1, $\x7by\x7d")] ∧
      ((Scope.mk [] [("x", .nat 1)]).resolve 1 v).unresolved.map (fun u => u.reference.expr) = ["y"] := by
  decide +kernel

end Scope

end Workflow
