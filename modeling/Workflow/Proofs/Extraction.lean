import Workflow.Proofs.Accounting
import Workflow.Proofs.Ordering

/-! The references of a value. They are listed once each, in the order in which they are first met when the value is read
from left to right, and whoever only asks whether there are any is told the same by a walk of its own. Texts that were cut
into tokens before need not be cut again. -/

namespace Workflow

/-! ### Adding what is new -/

section

variable {α : Type} [DecidableEq α]

def addNew (found : List α) (a : α) : List α := if a ∈ found then found else found ++ [a]

/-- Adding members one after the other keeps what was there and goes on with the first occurrences of all else. -/
theorem foldl_addNew (found l : List α) :
    l.foldl addNew found = found ++ (l.filter fun a => a ∉ found).eraseDups := by
  induction l generalizing found with
  | nil => simp
  | cons a l ih =>
    rw [List.foldl_cons, addNew, List.filter_cons]
    by_cases ha : a ∈ found
    · rw [if_pos ha, if_neg (by simpa using ha), ih]
    · have hlater : (l.filter fun b => b ∉ found ++ [a]) = (l.filter fun b => b ∉ found).filter fun b => !b == a := by
        rw [List.filter_filter]
        refine List.filter_congr fun b _ => ?_
        rw [Bool.eq_iff_iff]
        simp [and_comm]
      rw [if_neg ha, if_pos (by simpa using ha), ih, hlater, List.eraseDups_cons, List.append_assoc,
        List.singleton_append]

theorem foldl_addNew_nil (l : List α) : l.foldl addNew [] = l.eraseDups := by
  rw [foldl_addNew]
  simp

/-- Where members stand at places that rise, the one that is met first stands before every place of the other. -/
theorem exists_first_place {β : Type} {R : β → β → Prop} {l : List (β × α)} (h : l.Pairwise fun a b => R a.1 b.1)
    {a b : α} (hlt : (l.map Prod.snd).idxOf a < (l.map Prod.snd).idxOf b) :
    ∃ place, (place, a) ∈ l ∧ ∀ place', (place', b) ∈ l → R place place' := by
  induction l with
  | nil => exact absurd hlt (Nat.lt_irrefl _)
  | cons e l ih =>
    obtain ⟨place, c⟩ := e
    rw [List.pairwise_cons] at h
    rw [List.map_cons, List.idxOf_cons, List.idxOf_cons] at hlt
    have hb : c ≠ b := by
      rintro rfl
      simp at hlt
    have hmem {place' : β} (hplace : (place', b) ∈ (place, c) :: l) : (place', b) ∈ l := by
      refine (List.mem_cons.mp hplace).resolve_left fun heq => ?_
      cases heq
      exact hb rfl
    by_cases ha : c = a
    · subst ha
      exact ⟨place, List.mem_cons_self, fun place' hplace => h.1 _ (hmem hplace)⟩
    · simp only [beq_eq_false_iff_ne.mpr ha, beq_eq_false_iff_ne.mpr hb, cond_false] at hlt
      obtain ⟨first, hfirst, hbefore⟩ := ih h.2 (Nat.lt_of_succ_lt_succ hlt)
      exact ⟨first, List.mem_cons_of_mem _ hfirst, fun place' hplace => hbefore _ (hmem hplace)⟩

end

namespace Template

/-! ### Where references stand -/

/-- A place in a value: the position of a text, and a byte of it. -/
structure Place where
  position : List Nat
  offset : Nat

/-- The first place is met earlier than the second when a value is read from left to right. -/
def Place.Before (a b : Place) : Prop :=
  a.position < b.position ∨ a.position = b.position ∧ a.offset < b.offset

def StandsAt (v : Json) (place : Place) (r : Reference) : Prop :=
  ∃ text, v.at? place.position = some (.str text) ∧ OccursAt text place.offset r

/-- All references of a value with their places, from left to right. -/
def standing (v : Json) : List (Place × Reference) :=
  (v.textsWithin v.nesting).flatMap fun e => (located (tokenize e.2)).map fun l => (⟨e.1, l.1⟩, l.2)

theorem mem_standing {v : Json} {place : Place} {r : Reference} : (place, r) ∈ standing v ↔ StandsAt v place r := by
  rw [standing, List.mem_flatMap]
  constructor
  · rintro ⟨⟨position, text⟩, htext, hmem⟩
    obtain ⟨⟨offset, _⟩, hlocated, heq⟩ := List.mem_map.mp hmem
    cases heq
    exact ⟨text, (Json.mem_textsWithin.mp htext).1, (mem_located_iff_occursAt _ _ _).mp hlocated⟩
  · rintro ⟨text, hat, hoccurs⟩
    refine ⟨(place.position, text), Json.mem_textsWithin.mpr ⟨hat, Json.length_le_nesting hat⟩, ?_⟩
    exact List.mem_map.mpr ⟨(place.offset, r), (mem_located_iff_occursAt _ _ _).mpr hoccurs, rfl⟩

theorem map_snd_standing (v : Json) : (standing v).map Prod.snd = allRefs v := by
  rw [allRefs_eq_flatMap (Nat.le_refl v.nesting), standing, List.map_flatMap]
  refine List.flatMap_congr fun e _ => ?_
  rw [List.map_map]
  exact map_snd_located (tokenize e.2)

theorem standing_in_order (v : Json) : (standing v).Pairwise fun a b => a.1.Before b.1 := by
  rw [standing, List.pairwise_flatMap]
  constructor
  · intro e _
    rw [List.pairwise_map]
    exact (located_rise e.2).imp fun hlt => .inr ⟨rfl, hlt⟩
  · refine (v.textsWithin_in_order v.nesting).imp fun hlt a ha b hb => ?_
    obtain ⟨_, _, rfl⟩ := List.mem_map.mp ha
    obtain ⟨_, _, rfl⟩ := List.mem_map.mp hb
    exact .inl hlt

theorem exists_standsAt_iff {v : Json} {r : Reference} : (∃ place, StandsAt v place r) ↔ r ∈ allRefs v := by
  rw [← map_snd_standing]
  constructor
  · rintro ⟨place, hplace⟩
    exact List.mem_map.mpr ⟨(place, r), mem_standing.mpr hplace, rfl⟩
  · intro hmem
    obtain ⟨⟨place, _⟩, hplace, rfl⟩ := List.mem_map.mp hmem
    exact ⟨place, mem_standing.mp hplace⟩

/-! ### Whether there are any -/

theorem valueHasTemplate_iff (v : Json) : valueHasTemplate v = true ↔ allRefs v ≠ [] := by
  refine allRefs.induct (fun v => valueHasTemplate v = true ↔ allRefs v ≠ [])
    (fun fields => fieldsHaveTemplate fields = true ↔ fieldRefs fields ≠ [])
    (fun items => itemsHaveTemplate items = true ↔ itemRefs items ≠ []) ?text ?arr ?obj ?other ?noItem ?item ?noField
    ?field v
  case text =>
    intro text
    rw [valueHasTemplate, allRefs]
    exact occursInChars_iff text.toList
  case arr =>
    intro items ih
    rw [valueHasTemplate, allRefs]
    exact ih
  case obj =>
    intro fields ih
    rw [valueHasTemplate, allRefs]
    exact ih
  case other =>
    intro v htext harr hobj
    cases v with
    | str text => exact absurd rfl (htext text)
    | arr items => exact absurd rfl (harr items)
    | obj fields => exact absurd rfl (hobj fields)
    | _ => exact iff_of_false Bool.false_ne_true fun hne => hne rfl
  case noItem => exact iff_of_false Bool.false_ne_true fun hne => hne rfl
  case item =>
    intro v rest ihv ihrest
    rw [itemsHaveTemplate, itemRefs, Bool.or_eq_true, ihv, ihrest]
    simp only [ne_eq, List.append_eq_nil_iff, not_and_or]
  case noField => exact iff_of_false Bool.false_ne_true fun hne => hne rfl
  case field =>
    intro key v rest ihv ihrest
    rw [fieldsHaveTemplate, fieldRefs, Bool.or_eq_true, ihv, ihrest]
    simp only [ne_eq, List.append_eq_nil_iff, not_and_or]

end Template

/-! ### Texts that were cut before -/

/-- The tokens of texts that were cut before. -/
abbrev TokenCache := Assoc (List Token)

namespace TokenCache

def Sound (cache : TokenCache) : Prop :=
  ∀ text tokens, Assoc.get? cache text = some tokens → tokens = Template.tokenize text

/-- The tokens of a text, taken from the cache or else put into it. -/
def take (cache : TokenCache) (text : String) : List Token × TokenCache :=
  match Assoc.get? cache text with
  | some tokens => (tokens, cache)
  | none => (Template.tokenize text, Assoc.put text (Template.tokenize text) cache)

theorem Sound.take {cache : TokenCache} (h : cache.Sound) (text : String) :
    (cache.take text).1 = Template.tokenize text ∧ (cache.take text).2.Sound := by
  unfold TokenCache.take
  split
  · rename_i tokens hfound
    exact ⟨h text tokens hfound, h⟩
  · refine ⟨rfl, fun other tokens hother => ?_⟩
    rw [Assoc.get?_put] at hother
    split at hother
    · rename_i heq
      cases hother
      rw [heq]
    · exact h other tokens hother

end TokenCache

namespace Template

/-! ### Collecting -/

structure Collected where
  found : List Reference
  cache : TokenCache

mutual

/-- Walks through a value and adds each reference that it has not met before. -/
def collect (c : Collected) : Json → Collected
  | .str text =>
    let (tokens, cache) := c.cache.take text
    ⟨(tokens.filterMap Token.reference?).foldl addNew c.found, cache⟩
  | .arr items => collectItems c items
  | .obj fields => collectFields c fields
  | _ => c

def collectItems (c : Collected) : List Json → Collected
  | [] => c
  | v :: rest => collectItems (collect c v) rest

def collectFields (c : Collected) : List (String × Json) → Collected
  | [] => c
  | (_, v) :: rest => collectFields (collect c v) rest

end

/-- After a walk from a sound cache, these references were added, and the cache is still sound. -/
def Collected.Adds (c c' : Collected) (refs : List Reference) : Prop :=
  c.cache.Sound → c'.found = refs.foldl addNew c.found ∧ c'.cache.Sound

theorem Collected.Adds.nothing (c : Collected) : c.Adds c [] := fun h => ⟨rfl, h⟩

theorem Collected.Adds.append {c c' c'' : Collected} {refs refs' : List Reference} (h : c.Adds c' refs)
    (h' : c'.Adds c'' refs') : c.Adds c'' (refs ++ refs') := by
  intro hsound
  obtain ⟨hfound, hsound'⟩ := h hsound
  obtain ⟨hfound', hsound''⟩ := h' hsound'
  exact ⟨by rw [hfound', hfound, List.foldl_append], hsound''⟩

theorem collect_adds (c : Collected) (v : Json) : c.Adds (collect c v) (allRefs v) := by
  refine allRefs.induct (fun v => ∀ c : Collected, c.Adds (collect c v) (allRefs v))
    (fun fields => ∀ c : Collected, c.Adds (collectFields c fields) (fieldRefs fields))
    (fun items => ∀ c : Collected, c.Adds (collectItems c items) (itemRefs items)) ?text ?arr ?obj ?other ?noItem ?item
    ?noField ?field v c
  case text =>
    intro text c hsound
    obtain ⟨htokens, hcache⟩ := hsound.take text
    rw [collect, allRefs, textRefs, ← htokens]
    exact ⟨rfl, hcache⟩
  case arr =>
    intro items ih c
    rw [collect, allRefs]
    exact ih c
  case obj =>
    intro fields ih c
    rw [collect, allRefs]
    exact ih c
  case other =>
    intro v htext harr hobj c
    cases v with
    | str text => exact absurd rfl (htext text)
    | arr items => exact absurd rfl (harr items)
    | obj fields => exact absurd rfl (hobj fields)
    | _ => exact .nothing c
  case noItem => exact .nothing
  case item =>
    intro v rest ihv ihrest c
    rw [collectItems, itemRefs]
    exact (ihv c).append (ihrest _)
  case noField => exact .nothing
  case field =>
    intro key v rest ihv ihrest c
    rw [collectFields, fieldRefs]
    exact (ihv c).append (ihrest _)

/-! ### All references of a value -/

/-- The references of a value, and nothing else, each at the place where it is met first. -/
structure Extracts (v : Json) (refs : List Reference) : Prop where
  once : refs.Nodup
  in_order : refs.Pairwise fun a b =>
    ∃ place, StandsAt v place a ∧ ∀ place', StandsAt v place' b → place.Before place'
  members : ∀ r, r ∈ refs ↔ ∃ place, StandsAt v place r
  template : refs = [] ↔ valueHasTemplate v = false
  /-- They are what a walk collects, whatever was cut into tokens before it. -/
  collected : ∀ cache : TokenCache, cache.Sound →
    (collect ⟨[], cache⟩ v).found = refs ∧ (collect ⟨[], cache⟩ v).cache.Sound

/-- The references of a value are those that stand in its texts, and never in its keys. Each is listed once, in the order
in which they are met first, and there are none just if a walk that only asks for templates meets none. -/
theorem references_are_collected (v : Json) : Extracts v (extractRefs v) where
  once := nodup_eraseDups _
  in_order := by
    refine (eraseDups_in_order (allRefs v)).imp fun {a b} hlt => ?_
    rw [← map_snd_standing] at hlt
    obtain ⟨place, hplace, hbefore⟩ := exists_first_place (standing_in_order v) hlt
    exact ⟨place, mem_standing.mp hplace, fun place' hplace' => hbefore place' (mem_standing.mpr hplace')⟩
  members r := by rw [mem_extractRefs, exists_standsAt_iff]
  template := by
    rw [← Bool.not_eq_true, valueHasTemplate_iff, not_ne_iff, List.eq_nil_iff_forall_not_mem,
      List.eq_nil_iff_forall_not_mem]
    exact forall_congr' fun r => not_congr mem_extractRefs
  collected cache hcache := by
    rw [extractRefs, ← foldl_addNew_nil]
    exact collect_adds ⟨[], cache⟩ v hcache

/-- Keys are not looked into, and the second place of `x` is passed over. -/
example :
    (extractRefs (.obj [("$\x7bkey\x7d", .str "$\x7bx\x7d"),
      ("b", .arr [.str "$\x7by.z\x7d", .obj [("c", .str "$\x7bx\x7d again")]])])).map Reference.expr =
        ["x", "y.z"] := by
  decide +kernel

end Template

end Workflow
