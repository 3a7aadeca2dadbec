import Workflow.Json.Basic
import Mathlib.Order.MinMax

/-! Positions inside a value, and the texts that stand there. A text is found where the value says so, texts come in the
order in which they are written, and a change of texts down to a depth leaves everything else in its place. -/

namespace Workflow

namespace Json

def children : Json → List Json
  | .arr items => items
  | .obj fields => fields.map Prod.snd
  | _ => []

/-- The value at a position. Each level of the position says how many values are passed over there. -/
def at? : Json → List Nat → Option Json
  | v, [] => some v
  | v, i :: path => v.children[i]?.bind fun w => w.at? path

theorem at?_nil (v : Json) : v.at? [] = some v := by rw [at?]

theorem at?_cons_eq_some {v w : Json} {i : Nat} {path : List Nat} :
    v.at? (i :: path) = some w ↔ ∃ u, v.children[i]? = some u ∧ u.at? path = some w := by
  rw [at?, Option.bind_eq_some_iff]

/-! ### How deep a value goes -/

mutual

def nesting : Json → Nat
  | .arr items => itemsNesting items
  | .obj fields => fieldsNesting fields
  | _ => 0

def itemsNesting : List Json → Nat
  | [] => 0
  | v :: rest => max (nesting v + 1) (itemsNesting rest)

def fieldsNesting : List (String × Json) → Nat
  | [] => 0
  | (_, v) :: rest => max (nesting v + 1) (fieldsNesting rest)

end

theorem nesting_lt_of_mem_items {v : Json} {items : List Json} (h : v ∈ items) :
    v.nesting < (Json.arr items).nesting := by
  rw [nesting]
  induction items with
  | nil => cases h
  | cons w rest ih =>
    rw [itemsNesting, lt_max_iff]
    rcases List.mem_cons.mp h with rfl | h
    · exact .inl (Nat.lt_succ_self _)
    · exact .inr (ih h)

theorem nesting_lt_of_mem_fields {key : String} {v : Json} {fields : List (String × Json)} (h : (key, v) ∈ fields) :
    v.nesting < (Json.obj fields).nesting := by
  rw [nesting]
  induction fields with
  | nil => cases h
  | cons e rest ih =>
    obtain ⟨k, w⟩ := e
    rw [fieldsNesting, lt_max_iff]
    rcases List.mem_cons.mp h with heq | h
    · cases heq
      exact .inl (Nat.lt_succ_self _)
    · exact .inr (ih h)

theorem nesting_lt_of_mem_children {v w : Json} (h : w ∈ v.children) : w.nesting < v.nesting := by
  cases v with
  | arr items => exact nesting_lt_of_mem_items h
  | obj fields =>
    obtain ⟨e, he, rfl⟩ := List.mem_map.mp h
    exact nesting_lt_of_mem_fields he
  | _ => cases h

theorem length_le_nesting {path : List Nat} {v w : Json} (h : v.at? path = some w) : path.length ≤ v.nesting := by
  induction path generalizing v with
  | nil => exact Nat.zero_le _
  | cons i path ih =>
    obtain ⟨u, hu, hat⟩ := at?_cons_eq_some.mp h
    exact Nat.lt_of_le_of_lt (ih hat) (nesting_lt_of_mem_children (List.mem_of_getElem? hu))

/-! ### Texts in order -/

/-- The value itself, if it is a text, at the empty position. -/
def ownText (v : Json) : List (List Nat × String) := (v.asString?.map fun text => ([], text)).toList

/-- The texts down to a depth with their positions, in the order in which they are written. -/
def textsWithin : Nat → Json → List (List Nat × String)
  | 0, v => v.ownText
  | depth + 1, v =>
    v.ownText ++ v.children.zipIdx.flatMap fun (w, i) => (textsWithin depth w).map fun e => (i :: e.1, e.2)

theorem mem_ownText {v : Json} {path : List Nat} {text : String} :
    (path, text) ∈ v.ownText ↔ path = [] ∧ v = .str text := by
  cases v with
  | str own => simp [ownText, asString?, eq_comm]
  | _ => simp [ownText, asString?]

theorem mem_textsWithin {depth : Nat} {v : Json} {path : List Nat} {text : String} :
    (path, text) ∈ v.textsWithin depth ↔ v.at? path = some (.str text) ∧ path.length ≤ depth := by
  induction depth generalizing v path with
  | zero =>
    rw [textsWithin, mem_ownText]
    constructor
    · rintro ⟨rfl, rfl⟩
      exact ⟨at?_nil _, Nat.le_refl _⟩
    · rintro ⟨hat, hlength⟩
      obtain rfl := List.eq_nil_of_length_eq_zero (Nat.le_zero.mp hlength)
      rw [at?_nil] at hat
      exact ⟨rfl, Option.some.inj hat⟩
  | succ depth ih =>
    rw [textsWithin, List.mem_append, mem_ownText, List.mem_flatMap]
    constructor
    · rintro (⟨rfl, rfl⟩ | ⟨⟨w, i⟩, hw, hmem⟩)
      · exact ⟨at?_nil _, Nat.zero_le _⟩
      · obtain ⟨⟨below, own⟩, hbelow, heq⟩ := List.mem_map.mp hmem
        cases heq
        obtain ⟨hat, hlength⟩ := ih.mp hbelow
        exact ⟨at?_cons_eq_some.mpr ⟨w, List.mk_mem_zipIdx_iff_getElem?.mp hw, hat⟩, Nat.succ_le_succ hlength⟩
    · rintro ⟨hat, hlength⟩
      cases path with
      | nil =>
        rw [at?_nil] at hat
        exact .inl ⟨rfl, Option.some.inj hat⟩
      | cons i path =>
        obtain ⟨w, hw, hat⟩ := at?_cons_eq_some.mp hat
        refine .inr ⟨(w, i), List.mk_mem_zipIdx_iff_getElem?.mpr hw, ?_⟩
        exact List.mem_map.mpr ⟨_, ih.mpr ⟨hat, Nat.le_of_succ_le_succ hlength⟩, rfl⟩

/-- What is read off the texts of a value is read off its own text and then off those of each value inside it. -/
theorem flatMap_textsWithin_succ {β : Type} (f : String → List β) (depth : Nat) (v : Json) :
    (v.textsWithin (depth + 1)).flatMap (fun e => f e.2) =
      v.ownText.flatMap (fun e => f e.2) ++
        v.children.flatMap fun w => (w.textsWithin depth).flatMap fun e => f e.2 := by
  rw [textsWithin, List.flatMap_append, List.flatMap_assoc]
  congr 1
  conv_rhs => rw [← List.zipIdx_map_fst 0 v.children, List.flatMap_map]
  simp only [List.flatMap_map]

theorem flatMap_textsWithin_str {β : Type} (f : String → List β) (depth : Nat) (text : String) :
    ((Json.str text).textsWithin depth).flatMap (fun e => f e.2) = f text := by
  cases depth with
  | zero => exact List.append_nil _
  | succ depth =>
    rw [flatMap_textsWithin_succ]
    exact (List.append_nil _).trans (List.append_nil _)

theorem textsWithin_in_order (depth : Nat) (v : Json) : (v.textsWithin depth).Pairwise fun a b => a.1 < b.1 := by
  have hown (v : Json) : v.ownText.Pairwise fun a b => a.1 < b.1 := by
    cases v with
    | str => exact List.pairwise_singleton _ _
    | _ => exact .nil
  induction depth generalizing v with
  | zero => exact hown v
  | succ depth ih =>
    rw [textsWithin, List.pairwise_append, List.pairwise_flatMap]
    -- inside one child the index is the same, two children differ in theirs, and the text itself has no index at all
    refine ⟨hown v, ⟨fun e _ => ?_, ?_⟩, ?_⟩
    · exact List.pairwise_map.mpr ((ih e.1).imp fun h => List.cons_lt_cons_iff.mpr (.inr ⟨rfl, h⟩))
    · have hindices : v.children.zipIdx.Pairwise fun a b => a.2 < b.2 := by
        rw [← List.pairwise_map, List.zipIdx_map_snd]
        exact List.pairwise_lt_range'
      refine hindices.imp fun hlt a ha b hb => ?_
      obtain ⟨_, _, rfl⟩ := List.mem_map.mp ha
      obtain ⟨_, _, rfl⟩ := List.mem_map.mp hb
      exact List.cons_lt_cons_iff.mpr (.inl hlt)
    · rintro ⟨path, text⟩ hmem b hb
      obtain ⟨rfl, _⟩ := mem_ownText.mp hmem
      obtain ⟨_, _, hb⟩ := List.mem_flatMap.mp hb
      obtain ⟨_, _, rfl⟩ := List.mem_map.mp hb
      exact List.nil_lt_cons _ _

/-! ### Another value for every text -/

/-- Puts another value in the place of every text down to a depth. -/
def mapTexts (f : String → Json) : Nat → Json → Json
  | _, .str text => f text
  | depth + 1, .arr items => .arr (items.map (mapTexts f depth))
  | depth + 1, .obj fields => .obj (fields.map fun e => (e.1, mapTexts f depth e.2))
  | _, v => v

theorem mapTexts_str (f : String → Json) (depth : Nat) (text : String) : (Json.str text).mapTexts f depth = f text := by
  cases depth <;> rfl

theorem mapTexts_leaf (f : String → Json) (depth : Nat) {v : Json} (htext : v.asString? = none)
    (hlist : v.asArray? = none) (hdict : v.asObject? = none) : v.mapTexts f depth = v := by
  cases v with
  | str => cases htext
  | arr => cases hlist
  | obj => cases hdict
  | _ => cases depth <;> rfl

/-- Where every text that is not too deep gets the same value, the values come out the same. -/
theorem mapTexts_congr {f g : String → Json} {depth : Nat} {v : Json}
    (h : ∀ path text, v.at? path = some (.str text) → path.length ≤ depth → f text = g text) :
    v.mapTexts f depth = v.mapTexts g depth := by
  induction depth generalizing v with
  | zero =>
    cases v with
    | str text => exact h [] text (at?_nil _) (Nat.le_refl _)
    | _ => rfl
  | succ depth ih =>
    have hchild : ∀ w ∈ v.children, w.mapTexts f depth = w.mapTexts g depth := by
      intro w hw
      obtain ⟨i, hi⟩ := List.mem_iff_getElem?.mp hw
      exact ih fun path text hat hlength =>
        h (i :: path) text (at?_cons_eq_some.mpr ⟨w, hi, hat⟩) (Nat.succ_le_succ hlength)
    cases v with
    | str text => exact h [] text (at?_nil _) (Nat.zero_le _)
    | arr items => exact congrArg Json.arr (List.map_congr_left hchild)
    | obj fields =>
      refine congrArg Json.obj (List.map_congr_left fun e he => ?_)
      exact congrArg (Prod.mk e.1) (hchild e.2 (List.mem_map_of_mem he))
    | _ => rfl

/-- To put every text in its own place changes nothing. -/
theorem mapTexts_self (depth : Nat) (v : Json) : v.mapTexts .str depth = v := by
  induction depth generalizing v with
  | zero => cases v <;> rfl
  | succ depth ih =>
    cases v with
    | arr items => exact congrArg Json.arr ((List.map_congr_left fun w _ => ih w).trans (List.map_id' items))
    | obj fields =>
      refine congrArg Json.obj ((List.map_congr_left fun e _ => ?_).trans (List.map_id' fields))
      exact congrArg (Prod.mk e.1) (ih e.2)
    | _ => rfl

/-- A value with values inside it keeps as many of them, each changed one level deeper or, at the depth, as it is. -/
theorem children_mapTexts (f : String → Json) {v : Json} (h : v.children ≠ []) (depth : Nat) :
    (v.mapTexts f depth).children =
      match depth with
      | 0 => v.children
      | depth + 1 => v.children.map (mapTexts f depth) := by
  cases v with
  | arr items => cases depth <;> rfl
  | obj fields =>
    cases depth with
    | zero => rfl
    | succ depth => simp [mapTexts, children]
  | _ => exact absurd rfl h

/-- What stands at a position is changed there if it is not too deep, and otherwise left as it is. -/
theorem at?_mapTexts (f : String → Json) {path : List Nat} {v w : Json} {depth : Nat} (h : v.at? path = some w) :
    (v.mapTexts f depth).at? path =
      some (if path.length ≤ depth then w.mapTexts f (depth - path.length) else w) := by
  induction path generalizing v depth with
  | nil =>
    rw [at?_nil] at h ⊢
    cases h
    rfl
  | cons i path ih =>
    obtain ⟨u, hu, hat⟩ := at?_cons_eq_some.mp h
    have hne : v.children ≠ [] := by
      intro hnil
      rw [hnil] at hu
      cases hu
    rw [at?, children_mapTexts f hne]
    cases depth with
    | zero =>
      rw [hu, Option.bind_some, hat]
      rfl
    | succ depth =>
      rw [List.getElem?_map, hu, Option.map_some, Option.bind_some, ih hat, List.length_cons]
      simp only [Nat.succ_le_succ_iff, Nat.succ_sub_succ]

end Json

end Workflow
