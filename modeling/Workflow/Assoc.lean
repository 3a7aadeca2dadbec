/-! Finite maps that remember the order in which their keys first arrived. Writing an existing key keeps
its place; removing one moves the last entry into the gap. The view of a map is `get?`, and the lemmas
below say what every operation does to it. -/

namespace Workflow

abbrev Assoc (β : Type) := List (String × β)

namespace Assoc

variable {β : Type}

def get? : Assoc β → String → Option β
  | [], _ => none
  | (k, v) :: rest, key => if k = key then some v else get? rest key

def contains (m : Assoc β) (key : String) : Bool := (get? m key).isSome

def keys (m : Assoc β) : List String := m.map Prod.fst

def put (key : String) (value : β) : Assoc β → Assoc β
  | [] => [(key, value)]
  | (k, v) :: rest => if k = key then (k, value) :: rest else (k, v) :: put key value rest

def putAll (m : Assoc β) (entries : Assoc β) : Assoc β :=
  entries.foldl (fun acc e => put e.1 e.2 acc) m

def ofList (entries : List (String × β)) : Assoc β := putAll [] entries

/-- Removes a key; the last entry takes its place. -/
def swapRemove (key : String) : Assoc β → Assoc β
  | [] => []
  | (k, v) :: rest =>
    if k = key then
      match rest.getLast? with
      | none => []
      | some last => last :: rest.dropLast
    else (k, v) :: swapRemove key rest

/-- Adds or replaces a key in a map kept in code point order of its keys. -/
def putSorted (key : String) (value : β) : Assoc β → Assoc β
  | [] => [(key, value)]
  | (k, v) :: rest =>
    if key = k then (k, value) :: rest
    else if key < k then (key, value) :: (k, v) :: rest
    else (k, v) :: putSorted key value rest

def sorted (entries : List (String × β)) : Assoc β :=
  entries.foldl (fun acc e => putSorted e.1 e.2 acc) []

/-- The value of the last entry under a key: the one that counts when entries are put one after another. -/
def last? (entries : Assoc β) (key : String) : Option β := get? entries.reverse key

@[simp] theorem get?_nil (key : String) : get? ([] : Assoc β) key = none := rfl

theorem get?_cons (k : String) (v : β) (rest : Assoc β) (key : String) :
    get? ((k, v) :: rest) key = if k = key then some v else get? rest key := rfl

theorem get?_put (m : Assoc β) (k : String) (v : β) (key : String) :
    get? (put k v m) key = if k = key then some v else get? m key := by
  induction m with
  | nil => rfl
  | cons e rest ih =>
    obtain ⟨k', v'⟩ := e
    by_cases h : k' = k
    · subst h
      simp only [put, if_pos, get?_cons]
      split <;> simp_all
    · simp only [put, if_neg h, get?_cons, ih]
      split
      · rename_i h'
        rw [if_neg (fun hk => h (by rw [h', hk]))]
      · rfl

theorem get?_isSome_iff (m : Assoc β) (key : String) : (get? m key).isSome ↔ key ∈ keys m := by
  induction m with
  | nil => simp [keys]
  | cons e rest ih =>
    obtain ⟨k, v⟩ := e
    simp only [keys] at ih
    by_cases h : k = key
    · simp [get?_cons, keys, h]
    · simp only [get?_cons, if_neg h, ih, keys, List.map_cons, List.mem_cons]
      constructor
      · exact Or.inr
      · rintro (h' | h')
        · exact absurd h'.symm h
        · exact h'

theorem mem_of_get? {m : Assoc β} {key : String} {v : β} (h : get? m key = some v) : (key, v) ∈ m := by
  induction m with
  | nil => cases h
  | cons e rest ih =>
    obtain ⟨k, w⟩ := e
    rw [get?_cons] at h
    split at h
    · rename_i hk
      cases h
      rw [hk]
      exact List.mem_cons_self ..
    · exact List.mem_cons_of_mem _ (ih h)

theorem get?_append (m n : Assoc β) (key : String) : get? (m ++ n) key = (get? m key).or (get? n key) := by
  induction m with
  | nil => rfl
  | cons e rest ih =>
    obtain ⟨k, v⟩ := e
    rw [List.cons_append, get?_cons, get?_cons, ih]
    split <;> rfl

@[simp] theorem last?_nil (key : String) : last? ([] : Assoc β) key = none := rfl

theorem last?_cons (k : String) (v : β) (rest : Assoc β) (key : String) :
    last? ((k, v) :: rest) key = (last? rest key).or (if k = key then some v else none) := by
  rw [last?, List.reverse_cons, get?_append, get?_cons]
  rfl

theorem get?_putAll (m entries : Assoc β) (key : String) :
    get? (putAll m entries) key = (last? entries key).or (get? m key) := by
  unfold putAll
  induction entries generalizing m with
  | nil => rfl
  | cons e rest ih =>
    obtain ⟨k, v⟩ := e
    rw [List.foldl_cons, ih, get?_put, last?_cons, Option.or_assoc]
    split <;> rfl

theorem get?_eq_none_of_not_mem {m : Assoc β} {key : String} (h : key ∉ keys m) : get? m key = none := by
  rw [← Option.not_isSome_iff_eq_none, get?_isSome_iff]
  exact h

theorem get?_of_mem {m : Assoc β} {key : String} {v : β} (hn : (keys m).Nodup) (h : (key, v) ∈ m) :
    get? m key = some v := by
  induction m with
  | nil => exact absurd h List.not_mem_nil
  | cons e rest ih =>
    obtain ⟨k, w⟩ := e
    obtain ⟨hk, hrest⟩ := List.nodup_cons.mp hn
    rw [get?_cons]
    rcases List.mem_cons.mp h with heq | h
    · cases heq
      exact if_pos rfl
    · rw [if_neg, ih hrest h]
      intro hkey
      rw [hkey] at hk
      exact hk (List.mem_map.mpr ⟨(key, v), h, rfl⟩)

theorem mem_keys_reverse (m : Assoc β) (key : String) : key ∈ keys m.reverse ↔ key ∈ keys m := by
  rw [keys, List.map_reverse, List.mem_reverse, keys]

theorem last?_isSome_iff (m : Assoc β) (key : String) : (last? m key).isSome ↔ key ∈ keys m := by
  rw [last?, get?_isSome_iff, mem_keys_reverse]

theorem last?_eq_none_of_not_mem {m : Assoc β} {key : String} (h : key ∉ keys m) : last? m key = none := by
  rw [← Option.not_isSome_iff_eq_none, last?_isSome_iff]
  exact h

/-- The order of a map whose keys are distinct does not show in what it holds. -/
theorem get?_perm {m n : Assoc β} (h : m.Perm n) (hn : (keys m).Nodup) (key : String) : get? n key = get? m key := by
  have hkeys : (keys m).Perm (keys n) := h.map Prod.fst
  cases hm : get? m key with
  | some v => exact get?_of_mem (hkeys.nodup_iff.mp hn) (h.mem_iff.mp (mem_of_get? hm))
  | none =>
    refine get?_eq_none_of_not_mem fun hmem => ?_
    rw [← hkeys.mem_iff, ← get?_isSome_iff, hm] at hmem
    cases hmem

/-- In a map whose keys are distinct the last entry under a key is the only one. -/
theorem last?_eq_get? {m : Assoc β} (hn : (keys m).Nodup) (key : String) : last? m key = get? m key := by
  cases h : get? m key with
  | some v =>
    refine get?_of_mem ?_ (List.mem_reverse.mpr (mem_of_get? h))
    rw [keys, List.map_reverse, List.Nodup, List.pairwise_reverse]
    exact hn.imp Ne.symm
  | none =>
    refine last?_eq_none_of_not_mem fun hmem => ?_
    rw [← get?_isSome_iff, h] at hmem
    cases hmem

theorem mem_keys_put (m : Assoc β) (k : String) (v : β) (key : String) :
    key ∈ keys (put k v m) ↔ key = k ∨ key ∈ keys m := by
  rw [← get?_isSome_iff, ← get?_isSome_iff, get?_put]
  split
  · rename_i h
    simp [h]
  · rename_i h
    simp [Ne.symm h]

theorem nodup_keys_put {m : Assoc β} (hn : (keys m).Nodup) (k : String) (v : β) : (keys (put k v m)).Nodup := by
  induction m with
  | nil => simp [put, keys]
  | cons e rest ih =>
    obtain ⟨k', w⟩ := e
    obtain ⟨hk, hrest⟩ := List.nodup_cons.mp hn
    rw [put]
    split
    · exact hn
    · rename_i hne
      refine List.nodup_cons.mpr ⟨fun hmem => ?_, ih hrest⟩
      rcases (mem_keys_put rest k v k').mp hmem with heq | hmem
      · exact hne heq
      · exact hk hmem

theorem nodup_keys_putAll {m : Assoc β} (hn : (keys m).Nodup) (entries : Assoc β) :
    (keys (putAll m entries)).Nodup := by
  unfold putAll
  induction entries generalizing m with
  | nil => exact hn
  | cons e rest ih => exact ih (nodup_keys_put hn e.1 e.2)

theorem put_eq_append {m : Assoc β} {k : String} (h : k ∉ keys m) (v : β) : put k v m = m ++ [(k, v)] := by
  induction m with
  | nil => rfl
  | cons e rest ih =>
    obtain ⟨k', w⟩ := e
    rw [keys, List.map_cons, List.mem_cons, not_or] at h
    rw [put, if_neg (Ne.symm h.1), ih h.2, List.cons_append]

/-- Entries under keys of their own are added as they are, whatever the map was like before. -/
theorem putAll_eq_append_of_new {m entries : Assoc β} (hn : (keys entries).Nodup)
    (hnew : ∀ key ∈ keys entries, key ∉ keys m) : putAll m entries = m ++ entries := by
  unfold putAll
  induction entries generalizing m with
  | nil => simp
  | cons e rest ih =>
    obtain ⟨hfirst, hrest⟩ := List.nodup_cons.mp hn
    have hsplit : m ++ e :: rest = (m ++ [e]) ++ rest := by simp
    rw [List.foldl_cons, put_eq_append (hnew e.1 List.mem_cons_self), hsplit]
    refine ih hrest fun key hkey hmem => ?_
    rw [keys, List.map_append, List.mem_append] at hmem
    rcases hmem with hmem | hmem
    · exact hnew key (List.mem_cons_of_mem _ hkey) hmem
    · rw [List.mem_singleton.mp hmem] at hkey
      exact hfirst hkey

theorem putAll_eq_append {m entries : Assoc β} (hn : (keys (m ++ entries)).Nodup) :
    putAll m entries = m ++ entries := by
  rw [keys, List.map_append, List.nodup_append] at hn
  exact putAll_eq_append_of_new hn.2.1 fun key hkey hmem => hn.2.2 key hmem key hkey rfl

theorem mem_swapRemove {m : Assoc β} {k : String} {e : String × β} (h : e ∈ swapRemove k m) : e ∈ m := by
  induction m with
  | nil => exact h
  | cons d rest ih =>
    obtain ⟨k', v⟩ := d
    rw [swapRemove] at h
    split at h
    · cases hlast : rest.getLast? with
      | none =>
        rw [hlast] at h
        exact absurd h List.not_mem_nil
      | some last =>
        rw [hlast] at h
        rcases List.mem_cons.mp h with rfl | h
        · exact List.mem_cons_of_mem _ (List.mem_of_getLast? hlast)
        · exact List.mem_cons_of_mem _ ((List.dropLast_sublist rest).subset h)
    · rcases List.mem_cons.mp h with rfl | h
      · exact List.mem_cons_self
      · exact List.mem_cons_of_mem _ (ih h)

/-! ### Maps in the order of their keys -/

/-- The keys stand in code point order, each once. -/
def Ascending (m : Assoc β) : Prop := (keys m).Pairwise (· < ·)

theorem mem_keys_putSorted (m : Assoc β) (k : String) (v : β) (key : String) :
    key ∈ keys (putSorted k v m) ↔ key = k ∨ key ∈ keys m := by
  induction m with
  | nil => simp [putSorted, keys]
  | cons e rest ih =>
    obtain ⟨k', w⟩ := e
    simp only [keys] at ih
    simp only [putSorted, keys]
    split
    · rename_i heq
      simp [heq]
    · split
      · simp
      · simp only [List.map_cons, List.mem_cons, ih]
        exact or_left_comm

theorem mem_putSorted {m : Assoc β} {k : String} {v : β} {e : String × β} (h : e ∈ putSorted k v m) :
    e = (k, v) ∨ e ∈ m := by
  induction m with
  | nil => simpa [putSorted] using h
  | cons d rest ih =>
    obtain ⟨k', w⟩ := d
    rw [putSorted] at h
    split at h
    · rename_i heq
      rcases List.mem_cons.mp h with rfl | h
      · exact .inl (by rw [heq])
      · exact .inr (List.mem_cons_of_mem _ h)
    · split at h
      · simpa using h
      · rcases List.mem_cons.mp h with rfl | h
        · exact .inr List.mem_cons_self
        · exact (ih h).imp_right (List.mem_cons_of_mem _)

theorem get?_putSorted (m : Assoc β) (k : String) (v : β) (key : String) :
    get? (putSorted k v m) key = if k = key then some v else get? m key := by
  induction m with
  | nil => rfl
  | cons e rest ih =>
    obtain ⟨k', w⟩ := e
    rw [putSorted]
    split
    · rename_i heq
      rw [get?_cons, get?_cons, heq]
      split <;> rfl
    · rename_i hne
      split
      · rw [get?_cons]
      · rw [get?_cons, get?_cons, ih]
        split
        · rename_i hkey
          rw [if_neg]
          rintro rfl
          exact hne hkey.symm
        · rfl

theorem get?_sorted (entries : List (String × β)) (key : String) : get? (sorted entries) key = last? entries key := by
  suffices h : ∀ m : Assoc β,
      get? (entries.foldl (fun acc e => putSorted e.1 e.2 acc) m) key = (last? entries key).or (get? m key) by
    rw [sorted, h [], get?_nil, Option.or_none]
  induction entries with
  | nil => exact fun m => rfl
  | cons e rest ih =>
    intro m
    obtain ⟨k, v⟩ := e
    rw [List.foldl_cons, ih, get?_putSorted, last?_cons, Option.or_assoc]
    split <;> rfl

theorem ascending_putSorted {m : Assoc β} (hm : Ascending m) (k : String) (v : β) : Ascending (putSorted k v m) := by
  induction m with
  | nil => exact List.pairwise_singleton _ _
  | cons e rest ih =>
    obtain ⟨k', w⟩ := e
    obtain ⟨hfirst, hrest⟩ := List.pairwise_cons.mp hm
    rw [putSorted]
    split
    · exact hm
    · rename_i hne
      split
      · rename_i hlt
        refine List.pairwise_cons.mpr ⟨fun key hkey => ?_, hm⟩
        rcases List.mem_cons.mp hkey with rfl | hkey
        · exact hlt
        · exact String.lt_trans hlt (hfirst key hkey)
      · rename_i hnlt
        refine List.pairwise_cons.mpr ⟨fun key hkey => ?_, ih hrest⟩
        rcases (mem_keys_putSorted rest k v key).mp hkey with rfl | hkey
        · exact Std.lt_of_le_of_ne (String.not_lt.mp hnlt) (Ne.symm hne)
        · exact hfirst key hkey

theorem ascending_sorted (entries : List (String × β)) : Ascending (sorted entries) := by
  suffices h : ∀ m : Assoc β, Ascending m → Ascending (entries.foldl (fun acc e => putSorted e.1 e.2 acc) m) from
    h [] List.Pairwise.nil
  induction entries with
  | nil => exact fun m hm => hm
  | cons e rest ih => exact fun m hm => ih _ (ascending_putSorted hm e.1 e.2)

theorem mem_sorted {entries : List (String × β)} {e : String × β} (h : e ∈ sorted entries) : e ∈ entries := by
  suffices h' : ∀ m : Assoc β, e ∈ entries.foldl (fun acc e => putSorted e.1 e.2 acc) m → e ∈ m ∨ e ∈ entries from
    (h' [] h).resolve_left List.not_mem_nil
  clear h
  induction entries with
  | nil => exact fun m hm => .inl hm
  | cons d rest ih =>
    intro m hm
    rcases ih _ hm with hm | hrest
    · rcases mem_putSorted hm with rfl | hm
      · exact .inr List.mem_cons_self
      · exact .inl hm
    · exact .inr (List.mem_cons_of_mem _ hrest)

theorem putSorted_eq_append {m : Assoc β} {k : String} (h : ∀ key ∈ keys m, key < k) (v : β) :
    putSorted k v m = m ++ [(k, v)] := by
  induction m with
  | nil => rfl
  | cons e rest ih =>
    obtain ⟨k', w⟩ := e
    have hlt : k' < k := h k' List.mem_cons_self
    have hne : ¬ k = k' := fun heq => String.lt_irrefl k' (heq ▸ hlt)
    rw [putSorted, if_neg hne, if_neg (String.lt_asymm hlt), ih fun key hkey => h key (List.mem_cons_of_mem _ hkey)]
    rfl

/-- A map that is in order already is left as it is. -/
theorem sorted_of_ascending {m : Assoc β} (h : Ascending m) : sorted m = m := by
  suffices h' : ∀ front rest : Assoc β, Ascending (front ++ rest) →
      rest.foldl (fun acc e => putSorted e.1 e.2 acc) front = front ++ rest from h' [] m h
  intro front rest
  induction rest generalizing front with
  | nil => simp
  | cons e rest ih =>
    intro hall
    have hsplit : front ++ e :: rest = (front ++ [e]) ++ rest := by simp
    have hlast : ∀ key ∈ keys front, key < e.1 := by
      rw [Ascending, keys, List.map_append, List.pairwise_append] at hall
      exact fun key hkey => hall.2.2 key hkey e.1 (by simp)
    rw [List.foldl_cons, putSorted_eq_append hlast, hsplit]
    exact ih _ (hsplit ▸ hall)

end Assoc

end Workflow
