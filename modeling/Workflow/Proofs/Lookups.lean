import Workflow.Proofs.Accounting

/-! What resolving looks up. A walk through a value that counts its levels from the top, puts a text together piece by
piece and notes each reference before it is looked up comes to what resolving comes to; and its notes are the same in
every scope. So nothing that is found is read as a template: it is copied, and what it spells, alone or with its
neighbours, is not looked up. -/

namespace Workflow

/-- What a walk has looked up so far, in order, and what of it was not found. -/
structure Lookups where
  asked : List Reference
  missing : List Unresolved

abbrev Seeking := StateM Lookups

namespace Lookups

def empty : Lookups := ⟨[], []⟩

def extend (s : Lookups) (asked : List Reference) (missing : List Unresolved) : Lookups :=
  ⟨s.asked ++ asked, s.missing ++ missing⟩

theorem extend_nil (s : Lookups) : s.extend [] [] = s := by simp [extend]

theorem extend_extend (s : Lookups) (first second : List Reference) (missing missing' : List Unresolved) :
    (s.extend first missing).extend second missing' = s.extend (first ++ second) (missing ++ missing') := by
  simp [extend]

end Lookups

namespace Scope

open Template (extractRefs textRefs)

/-! ### The walk -/

def seek (scope : Scope) (source : String) (r : Reference) : Seeking (Option Json) := fun s =>
  match scope.lookup? r with
  | some v => (some v, s.extend [r] [])
  | none => (none, s.extend [r] [scope.missing source r])

/-- Puts one piece after the other behind the text that is there already. -/
def seekTokens (scope : Scope) (source : String) : String → List Token → Seeking String
  | out, [] => pure out
  | out, .literal cs :: rest => scope.seekTokens source (out ++ String.ofList cs) rest
  | out, .reference r :: rest => do
    match ← scope.seek source r with
    | some v => scope.seekTokens source (out ++ v.embedded) rest
    | none => scope.seekTokens source (out ++ r.placeholder) rest

def seekText (scope : Scope) (text : String) : Seeking Json :=
  match Template.tokenize text with
  | [.reference r] => do return (← scope.seek text r).getD (.str text)
  | tokens => do return .str (← scope.seekTokens text "" tokens)

mutual

/-- Walks through a value that stands at a level, unless the level lies below the limit. -/
def seekValue (scope : Scope) (limit level : Nat) (v : Json) : Seeking Json :=
  if limit < level then pure v
  else
    match v with
    | .str text => scope.seekText text
    | .arr items => do return .arr (← seekItems scope limit (level + 1) items)
    | .obj fields => do return .obj (← seekFields scope limit (level + 1) fields)
    | v => pure v

def seekItems (scope : Scope) (limit level : Nat) : List Json → Seeking (List Json)
  | [] => pure []
  | v :: rest => do
    let v ← seekValue scope limit level v
    let rest ← seekItems scope limit level rest
    return v :: rest

def seekFields (scope : Scope) (limit level : Nat) : List (String × Json) → Seeking (List (String × Json))
  | [] => pure []
  | (k, v) :: rest => do
    let v ← seekValue scope limit level v
    let rest ← seekFields scope limit level rest
    return (k, v) :: rest

end

/-! ### What the walk comes to -/

variable (scope : Scope)

theorem seek_pure {α : Type} (x : α) (s : Lookups) : (pure x : Seeking α) s = (x, s) := rfl

theorem seek_bind {α β : Type} (x : Seeking α) (next : α → Seeking β) (s : Lookups) :
    (x >>= next) s = next (x s).1 (x s).2 := rfl

theorem seekTokens_eq (source out : String) (tokens : List Token) (s : Lookups) :
    scope.seekTokens source out tokens s =
      (out ++ String.join (tokens.map scope.tokenText),
        s.extend (tokens.filterMap Template.Token.reference?)
          (((tokens.filterMap Template.Token.reference?).filter fun r => (scope.lookup? r).isNone).map
            (scope.missing source))) := by
  induction tokens generalizing out s with
  | nil =>
    rw [seekTokens, List.map_nil, String.join_nil, String.append_empty]
    exact congrArg (Prod.mk out) s.extend_nil.symm
  | cons token rest ih =>
    rw [List.map_cons, String.join_cons, ← String.append_assoc]
    cases token with
    | literal cs =>
      rw [seekTokens, ih]
      rfl
    | reference r =>
      rw [seekTokens, seek_bind, seek, tokenText]
      cases hr : scope.lookup? r with
      | some v =>
        simp only [ih, Lookups.extend_extend]
        simp [Template.Token.reference?, hr]
      | none =>
        simp only [ih, Lookups.extend_extend]
        simp [Template.Token.reference?, hr]

theorem seekText_eq (text : String) (s : Lookups) :
    scope.seekText text s = ((scope.resolveText text).value, s.extend (textRefs text) (scope.missingIn text)) := by
  unfold seekText resolveText missingIn textRefs
  generalize Template.tokenize text = tokens
  split
  · rename_i r
    rw [seek_bind, seek]
    cases hr : scope.lookup? r with
    | some v => simp [Template.Token.reference?, hr, seek_pure]
    | none => simp [Template.Token.reference?, hr, seek_pure]
  · rw [seek_bind, seekTokens_eq]
    simp [seek_pure]

/-- The references of the texts that a walk down to a depth comes by. -/
def refsWithin (depth : Nat) (v : Json) : List Reference := (v.textsWithin depth).flatMap fun e => textRefs e.2

theorem seekValue_beyond {limit level : Nat} (h : limit < level) (v : Json) (s : Lookups) :
    scope.seekValue limit level v s = (v, s) := by
  rw [seekValue.eq_def, if_pos h]
  rfl

theorem seekValue_arr {limit level : Nat} (h : level ≤ limit) (items : List Json) (s : Lookups) :
    scope.seekValue limit level (.arr items) s =
      (.arr (scope.seekItems limit (level + 1) items s).1, (scope.seekItems limit (level + 1) items s).2) := by
  rw [seekValue, if_neg (Nat.not_lt.mpr h)]
  rfl

theorem seekValue_obj {limit level : Nat} (h : level ≤ limit) (fields : List (String × Json)) (s : Lookups) :
    scope.seekValue limit level (.obj fields) s =
      (.obj (scope.seekFields limit (level + 1) fields s).1, (scope.seekFields limit (level + 1) fields s).2) := by
  rw [seekValue, if_neg (Nat.not_lt.mpr h)]
  rfl

theorem seekItems_beyond {limit level : Nat} (h : limit < level) (items : List Json) (s : Lookups) :
    scope.seekItems limit level items s = (items, s) := by
  induction items with
  | nil => rfl
  | cons v rest ih =>
    rw [seekItems, seek_bind, seekValue_beyond scope h, seek_bind, ih]
    rfl

theorem seekFields_beyond {limit level : Nat} (h : limit < level) (fields : List (String × Json)) (s : Lookups) :
    scope.seekFields limit level fields s = (fields, s) := by
  induction fields with
  | nil => rfl
  | cons e rest ih =>
    obtain ⟨k, v⟩ := e
    rw [seekFields, seek_bind, seekValue_beyond scope h, seek_bind, ih]
    rfl

theorem seekItems_eq {limit level depth : Nat}
    (h : ∀ v s, scope.seekValue limit level v s =
      ((scope.resolve depth v).value, s.extend (refsWithin depth v) (scope.resolve depth v).unresolved))
    (items : List Json) (s : Lookups) :
    scope.seekItems limit level items s = (items.map fun v => (scope.resolve depth v).value,
      s.extend (items.flatMap (refsWithin depth)) (items.flatMap fun v => (scope.resolve depth v).unresolved)) := by
  induction items generalizing s with
  | nil => exact congrArg (Prod.mk []) s.extend_nil.symm
  | cons v rest ih =>
    rw [seekItems, seek_bind, h, seek_bind, ih, Lookups.extend_extend]
    rfl

theorem seekFields_eq {limit level depth : Nat}
    (h : ∀ v s, scope.seekValue limit level v s =
      ((scope.resolve depth v).value, s.extend (refsWithin depth v) (scope.resolve depth v).unresolved))
    (fields : List (String × Json)) (s : Lookups) :
    scope.seekFields limit level fields s = (fields.map fun e => (e.1, (scope.resolve depth e.2).value),
      s.extend (fields.flatMap fun e => refsWithin depth e.2)
        (fields.flatMap fun e => (scope.resolve depth e.2).unresolved)) := by
  induction fields generalizing s with
  | nil => exact congrArg (Prod.mk []) s.extend_nil.symm
  | cons e rest ih =>
    obtain ⟨k, v⟩ := e
    rw [seekFields, seek_bind, h, seek_bind, ih, Lookups.extend_extend]
    rfl

theorem seekValue_str {limit level : Nat} (h : level ≤ limit) (depth : Nat) (text : String) (s : Lookups) :
    scope.seekValue limit level (.str text) s = ((scope.resolve depth (.str text)).value,
      s.extend (refsWithin depth (.str text)) (scope.resolve depth (.str text)).unresolved) := by
  rw [seekValue, if_neg (Nat.not_lt.mpr h), refsWithin, Json.flatMap_textsWithin_str, resolve]
  exact scope.seekText_eq text s

/-- With so many levels left down to the limit, the walk resolves as deep, and notes the references on its way. -/
theorem seekValue_eq (level left : Nat) (v : Json) (s : Lookups) :
    scope.seekValue (level + left) level v s =
      ((scope.resolve left v).value, s.extend (refsWithin left v) (scope.resolve left v).unresolved) := by
  have hwithin (level left : Nat) : level ≤ level + left := Nat.le_add_right _ _
  have hleaf (w : Json) (s : Lookups) : (w, s) = (w, s.extend [] []) := congrArg (Prod.mk w) s.extend_nil.symm
  -- The walk only goes up, so the induction is on the levels left. With none left, all that is inside is too deep.
  induction left generalizing level v s with
  | zero =>
    have hbelow : level + 0 < level + 1 := Nat.lt_succ_self level
    cases v with
    | str text => exact scope.seekValue_str (hwithin _ _) 0 text s
    | arr items =>
      rw [scope.seekValue_arr (hwithin _ _), scope.seekItems_beyond hbelow]
      exact hleaf _ _
    | obj fields =>
      rw [scope.seekValue_obj (hwithin _ _), scope.seekFields_beyond hbelow]
      exact hleaf _ _
    | _ =>
      rw [seekValue.eq_def, if_neg (Nat.not_lt.mpr (hwithin _ _))]
      exact hleaf _ _
  | succ left ih =>
    have hbelow (v : Json) (s : Lookups) : scope.seekValue (level + (left + 1)) (level + 1) v s =
        ((scope.resolve left v).value, s.extend (refsWithin left v) (scope.resolve left v).unresolved) := by
      rw [← Nat.add_assoc, Nat.add_right_comm]
      exact ih (level + 1) v s
    cases v with
    | str text => exact scope.seekValue_str (hwithin _ _) _ text s
    | arr items =>
      rw [scope.seekValue_arr (hwithin _ _), scope.seekItems_eq hbelow, resolve_unresolved, refsWithin,
        Json.flatMap_textsWithin_succ]
      simp only [resolve_value]
      rfl
    | obj fields =>
      rw [scope.seekValue_obj (hwithin _ _), scope.seekFields_eq hbelow, resolve_unresolved, refsWithin,
        Json.flatMap_textsWithin_succ]
      simp only [resolve_value, Json.children, List.flatMap_map]
      rfl
    | _ =>
      rw [seekValue.eq_def, if_neg (Nat.not_lt.mpr (hwithin _ _))]
      exact hleaf _ _

/-! ### Two scopes that agree -/

section
variable {scope scope' : Scope}

theorem resolveText_value_congr {text : String} (h : ∀ r ∈ textRefs text, scope.lookup? r = scope'.lookup? r) :
    (scope.resolveText text).value = (scope'.resolveText text).value := by
  have htokens : (Template.tokenize text).map scope.tokenText = (Template.tokenize text).map scope'.tokenText := by
    refine List.map_congr_left fun token htoken => ?_
    cases token with
    | literal cs => rfl
    | reference r => rw [tokenText, tokenText, h r (List.mem_filterMap.mpr ⟨_, htoken, rfl⟩)]
  unfold resolveText
  split
  · rename_i r heq
    have hr := h r (by simp [textRefs, heq, Template.Token.reference?])
    simp only [hr]
  · simp only [htokens]

theorem missingIn_congr {text : String} (h : ∀ r ∈ textRefs text, scope.lookup? r = scope'.lookup? r) :
    (scope.missingIn text).map (fun u => (u.reference, u.source)) =
      (scope'.missingIn text).map fun u => (u.reference, u.source) := by
  have hfilter : (textRefs text).filter (fun r => (scope.lookup? r).isNone) =
      (textRefs text).filter fun r => (scope'.lookup? r).isNone :=
    List.filter_congr fun r hr => by rw [h r hr]
  rw [missingIn, missingIn, List.map_map, List.map_map, hfilter]
  rfl

theorem resolve_congr {depth : Nat} {v : Json} (h : ∀ r ∈ extractRefs v, scope.lookup? r = scope'.lookup? r) :
    (scope.resolve depth v).value = (scope'.resolve depth v).value ∧
      (scope.resolve depth v).unresolved.map (fun u => (u.reference, u.source)) =
        (scope'.resolve depth v).unresolved.map fun u => (u.reference, u.source) := by
  have htext : ∀ path text, v.at? path = some (.str text) → ∀ r ∈ textRefs text, scope.lookup? r = scope'.lookup? r :=
    fun path text hat r hr => h r (Template.mem_extractRefs.mpr (Template.mem_allRefs_iff.mpr ⟨path, text, hat, hr⟩))
  constructor
  · rw [resolve_value, resolve_value]
    exact Json.mapTexts_congr fun path text hat _ => resolveText_value_congr (htext path text hat)
  · rw [unresolved_eq_flatMap, unresolved_eq_flatMap, List.map_flatMap, List.map_flatMap]
    refine List.flatMap_congr fun e he => missingIn_congr ?_
    exact htext e.1 e.2 (Json.mem_textsWithin.mp he).1

end

/-! ### Found values are copied -/

/-- What resolving a value down to a depth does with the values that are found, in whatever scope. -/
structure ResolvedAsData (depth : Nat) (v : Json) : Prop where
  agree : ∀ scope scope' : Scope, (∀ r ∈ extractRefs v, scope.lookup? r = scope'.lookup? r) →
    (scope.resolve depth v).value = (scope'.resolve depth v).value ∧
      (scope.resolve depth v).unresolved.map (fun u => (u.reference, u.source)) =
        (scope'.resolve depth v).unresolved.map fun u => (u.reference, u.source)
  /-- What is looked up on the way is settled by the value alone. -/
  asked : ∃ asked : List Reference, (∀ r ∈ asked, r ∈ extractRefs v) ∧ ∀ scope : Scope,
    scope.seekValue depth 0 v .empty = ((scope.resolve depth v).value, ⟨asked, (scope.resolve depth v).unresolved⟩)
  /-- A text that is one reference gives way to what is found. -/
  whole : ∀ (scope : Scope) (path : List Nat) (text : String) (r : Reference) (w : Json),
    v.at? path = some (.str text) → path.length ≤ depth → Template.simpleReference text = some r →
      scope.lookup? r = some w → (scope.resolve depth v).value.at? path = some w
  /-- Into any other text, what is found is written between the literals as they stand. -/
  pieces : ∀ (scope : Scope) (path : List Nat) (text : String),
    v.at? path = some (.str text) → path.length ≤ depth → Template.simpleReference text = none →
      (scope.resolve depth v).value.at? path =
        some (.str (String.join ((Template.tokenize text).map scope.tokenText)))

theorem mem_extractRefs_of_refsWithin {depth : Nat} {v : Json} {r : Reference} (h : r ∈ refsWithin depth v) :
    r ∈ extractRefs v := by
  obtain ⟨⟨path, text⟩, hmem, hr⟩ := List.mem_flatMap.mp h
  exact Template.mem_extractRefs.mpr
    (Template.mem_allRefs_iff.mpr ⟨path, text, (Json.mem_textsWithin.mp hmem).1, hr⟩)

theorem resolveText_of_pieces {text : String} (h : Template.simpleReference text = none) :
    (scope.resolveText text).value = .str (String.join ((Template.tokenize text).map scope.tokenText)) := by
  unfold resolveText
  split
  · rename_i r heq
    simp [Template.simpleReference, heq] at h
  · rfl

/-- Found values are data, never templates. Only the references of the value itself are looked up, so two scopes that
agree on those make the same of it; whatever is found is copied. -/
theorem found_values_are_data (depth : Nat) (v : Json) : ResolvedAsData depth v where
  agree _ _ h := resolve_congr h
  asked := by
    refine ⟨refsWithin depth v, fun r => mem_extractRefs_of_refsWithin, fun scope => ?_⟩
    have hwalk := scope.seekValue_eq 0 depth v .empty
    rw [Nat.zero_add] at hwalk
    exact hwalk
  whole scope path text r w hat hlength hsimple hfound := by
    rw [resolve_value, Json.at?_mapTexts _ hat, if_pos hlength, Json.mapTexts_str]
    have hvalue := scope.resolve_simpleReference depth hsimple
    rw [hfound] at hvalue
    exact congrArg some hvalue
  pieces scope path text hat hlength hsimple := by
    rw [resolve_value, Json.at?_mapTexts _ hat, if_pos hlength, Json.mapTexts_str, scope.resolveText_of_pieces hsimple]

/-- A value that reads like a reference is copied, and so is one that reads like it only with its neighbours. -/
example :
    let scope : Scope := ⟨[("x", .str "$\x7by\x7d")], [("y", .str "secret"), ("z", .str "\x7by\x7d")]⟩
    (scope.resolve 1 (.arr [.str "$\x7bx\x7d", .str "say $\x7bx\x7d", .str "$$\x7bz\x7d"])).value =
      .arr [.str "$\x7by\x7d", .str "say $\x7by\x7d", .str "$\x7by\x7d"] := by
  decide +kernel

end Scope

end Workflow
