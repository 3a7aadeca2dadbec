import Workflow.Subworkflow
import Workflow.Proofs.Acceptance

/-! A loaded document is written in such a way that it is accepted again and read as the same document. So what a
workflow step prepares, which travels to its execution as a plain value, gets there as it was. -/

namespace Workflow

/-! ### Types as text -/

namespace Text

theorem splitOn_of_not_mem {sep : Char} {cs : List Char} (h : sep ∉ cs) : splitOn sep cs = [cs] := by
  induction cs with
  | nil => rfl
  | cons c rest ih =>
    rw [List.mem_cons, not_or] at h
    simp [splitOn, ih h.2, Ne.symm h.1]

/-- The pieces on both sides of a separator are those of what stands there. -/
theorem splitOn_separated (sep : Char) (cs rest : List Char) :
    splitOn sep (cs ++ sep :: rest) = splitOn sep cs ++ splitOn sep rest := by
  induction cs with
  | nil =>
    cases hrest : splitOn sep rest with
    | nil => exact absurd hrest (splitOn_ne_nil sep rest)
    | cons piece pieces => simp [splitOn, hrest]
  | cons c cs ih =>
    rw [List.cons_append, splitOn, ih, splitOn]
    cases hcs : splitOn sep cs with
    | nil => exact absurd hcs (splitOn_ne_nil sep cs)
    | cons piece pieces =>
      by_cases hsep : c = sep
      · simp [hsep]
      · simp [hsep]

theorem splitOn_append {sep : Char} {cs : List Char} (h : sep ∉ cs) (rest : List Char) :
    splitOn sep (cs ++ sep :: rest) = cs :: splitOn sep rest := by
  rw [splitOn_separated, splitOn_of_not_mem h, List.singleton_append]

/-- Texts without the separator come apart again as they were joined. -/
theorem splitOn_join {sep : Char} {texts : List String} (hne : texts ≠ []) (h : ∀ text ∈ texts, sep ∉ text.toList) :
    splitOn sep (join (String.singleton sep) texts).toList = texts.map String.toList := by
  rw [join, String.toList_intercalate, String.toList_singleton]
  induction texts with
  | nil => exact absurd rfl hne
  | cons text rest ih =>
    cases rest with
    | nil => simpa [List.intercalate] using splitOn_of_not_mem (h text List.mem_cons_self)
    | cons next rest =>
      have hrest := ih (by simp) fun t ht => h t (List.mem_cons_of_mem _ ht)
      have hjoin : [sep].intercalate ((text :: next :: rest).map String.toList) =
          text.toList ++ sep :: [sep].intercalate ((next :: rest).map String.toList) := by
        simp [List.intercalate]
      rw [hjoin, splitOn_append (h text List.mem_cons_self), hrest]
      rfl

end Text

namespace SemanticType

/-- What a list without repetition keeps of a sublist is the sublist. -/
theorem filter_contains_of_sublist {atoms order : List Atom} (h : atoms.Sublist order) (hn : order.Nodup) :
    order.filter atoms.contains = atoms := by
  induction h with
  | slnil => rfl
  | @cons atoms order atom hsub ih =>
    obtain ⟨hnew, hrest⟩ := List.nodup_cons.mp hn
    have hatom : atoms.contains atom = false := by simpa using fun hmem => hnew (hsub.subset hmem)
    rw [List.filter_cons_of_neg (by simpa using hatom), ih hrest]
  | @cons_cons atoms order atom hsub ih =>
    obtain ⟨hnew, hrest⟩ := List.nodup_cons.mp hn
    have hsame : order.filter (atom :: atoms).contains = order.filter atoms.contains := by
      refine List.filter_congr fun other hother => ?_
      have hne : other ≠ atom := fun heq => hnew (heq ▸ hother)
      simp [hne]
    rw [List.filter_cons_of_pos (by simp), hsame, ih hrest]

theorem ofAtoms_members {t : SemanticType} (h : t.Proper) : ofAtoms t.members = t := by
  rw [ofAtoms, filter_contains_of_sublist h.ordered (by decide)]

/-- A type that is written is read back as it was. -/
theorem parse_display {t : SemanticType} (h : t.Proper) : parse t.display = t := by
  have hplain : ∀ text ∈ t.members.map Atom.name, '|' ∉ text.toList := by
    intro text htext
    obtain ⟨atom, _, rfl⟩ := List.mem_map.mp htext
    cases atom <;> decide
  have hatom (atom : Atom) : Atom.ofName (Text.trim atom.name) = atom := by
    cases atom <;> decide
  have hsplit : Text.splitOn '|' t.display.toList = (t.members.map Atom.name).map String.toList :=
    Text.splitOn_join (by simpa using h.nonempty) hplain
  rw [parse, hsplit]
  simp [Function.comp_def, hatom, ofAtoms_members h]

end SemanticType

/-! ### Written values -/

namespace Schema

variable {α : Type} {check : Check} {read : Json → Option α} {w : Json} {x : α}

/-- A value that is written passes the check and is read back as it was. -/
structure Check.Writes (check : Check) (read : Json → Option α) (w : Json) (x : α) : Prop where
  passes : ∀ pointer, check pointer w = []
  reads : read w = some x

theorem writes_textWith {rules : List (String → Option String)} {text : String}
    (h : ∀ rule ∈ rules, rule text = none) : (textWith rules).Writes Decode.text (.str text) text where
  passes pointer := List.filterMap_eq_nil_iff.mpr fun rule hrule => by rw [h rule hrule]; rfl
  reads := rfl

theorem writes_anyText (text : String) : anyText.Writes Decode.text (.str text) text := writes_textWith (by simp)

theorem writes_nonEmptyText {text : String} (h : text ≠ "") : nonEmptyText.Writes Decode.text (.str text) text :=
  writes_textWith (by simpa using h)

theorem writes_identifierText {text : String} (h : isIdentifier text.toList = true) :
    identifierText.Writes Decode.text (.str text) text :=
  writes_textWith (by simpa using h)

theorem writes_boolean (b : Bool) : boolean.Writes Json.asBool? (.bool b) b := ⟨fun _ => rfl, rfl⟩

theorem writes_oneOf {names : List String} {name : String} (hname : name ∈ names) (hread : read (.str name) = some x) :
    (oneOf names).Writes read (.str name) x where
  passes pointer := by
    unfold oneOf
    rw [if_pos]
    exact List.any_eq_true.mpr ⟨name, hname, by simp⟩
  reads := hread

theorem writes_policy (policy : BatchPolicy) :
    (oneOf ["fail_fast", "continue"]).Writes BatchPolicy.ofJson? (.str policy.name) policy := by
  cases policy <;> exact writes_oneOf (by simp [BatchPolicy.name]) rfl

theorem writes_mode (mode : Mode) : (oneOf ["strict", "permissive"]).Writes Mode.ofJson? (.str mode.name) mode := by
  cases mode <;> exact writes_oneOf (by simp [Mode.name]) rfl

/-- Where each member of a list is read as it was written, so is the list. -/
theorem mapM_writes {β : Type} {write : α → β} {read : β → Option α} {xs : List α}
    (h : ∀ x ∈ xs, read (write x) = some x) : (xs.map write).mapM read = some xs := by
  induction xs with
  | nil => rfl
  | cons x rest ih =>
    have hx := h x List.mem_cons_self
    have hrest := ih fun y hy => h y (List.mem_cons_of_mem _ hy)
    simp [List.mapM_cons, hx, hrest]

theorem writes_listOf {item : Check} {write : α → Json} {xs : List α}
    (h : ∀ x ∈ xs, item.Writes read (write x) x) :
    (listOf item).Writes (Decode.listOf read) (.arr (xs.map write)) xs where
  passes pointer := by
    simp only [listOf, List.flatten_eq_nil_iff, List.mem_map]
    rintro _ ⟨⟨v, i⟩, hmem, rfl⟩
    obtain ⟨x, hx, rfl⟩ := List.mem_map.mp (List.fst_mem_of_mem_zipIdx hmem)
    exact (h x hx).passes _
  reads := mapM_writes fun x hx => (h x hx).reads

theorem writes_mapOf {item : Check} {write : α → Json} {m : Assoc α} (hm : m.Ascending)
    (h : ∀ e ∈ m, item.Writes read (write e.2) e.2) :
    (mapOf item).Writes (Decode.mapOf read) (.obj (m.map fun e => (e.1, write e.2))) m where
  passes pointer := by
    simp only [mapOf, List.flatMap_eq_nil_iff, List.mem_map]
    rintro _ ⟨e, he, rfl⟩
    exact (h e he).passes _
  reads := by
    have hall : (m.map fun e => (e.1, write e.2)).mapM (fun (e : String × Json) => (read e.2).map fun w => (e.1, w)) =
        some m := mapM_writes fun e he => by simp only [(h e he).reads, Option.map_some]
    simp [Decode.mapOf, Json.asObject?, hall, Assoc.sorted_of_ascending hm]

theorem writes_type {t : SemanticType} (h : t.Proper) : anyText.Writes SemanticType.ofJson? t.toJson t where
  passes := (writes_anyText t.display).passes
  reads := by simp [SemanticType.toJson, SemanticType.ofJson?, Json.asString?, SemanticType.parse_display h]

end Schema

/-! ### Written objects -/

/-- A value is the object of some members, of which those without a value are left out. -/
structure Json.Composed (v : Json) (members : List (String × Option Json)) : Prop where
  eq : v = .present members
  distinct : (members.map Prod.fst).Nodup

/-- A member is found in the object as it was put there. -/
theorem Json.Composed.get? {v : Json} {members : List (String × Option Json)} (h : v.Composed members) {key : String}
    {member : Option Json} (hmem : (key, member) ∈ members) : v.get? key = member := by
  obtain ⟨rfl, hn⟩ := h
  suffices hget : Assoc.get? (members.filterMap fun e => e.2.map fun v => (e.1, v)) key = member from hget
  induction members with
  | nil => exact absurd hmem List.not_mem_nil
  | cons e rest ih =>
    obtain ⟨k, first⟩ := e
    obtain ⟨hnew, hlaterkeys⟩ := List.nodup_cons.mp hn
    have hrest : k ∉ Assoc.keys (rest.filterMap fun e => e.2.map fun v => (e.1, v)) := by
      simp only [Assoc.keys, List.mem_map, List.mem_filterMap, Option.map_eq_some_iff]
      rintro ⟨_, ⟨d, hd, u, _, rfl⟩, rfl⟩
      exact hnew (List.mem_map.mpr ⟨d, hd, rfl⟩)
    rcases List.mem_cons.mp hmem with heq | hlater
    · cases heq
      cases member with
      | some w => simp [Assoc.get?_cons]
      | none => exact Assoc.get?_eq_none_of_not_mem hrest
    · have hne : k ≠ key := fun heq => hnew (List.mem_map.mpr ⟨_, hlater, heq.symm⟩)
      cases first with
      | some w => simpa [Assoc.get?_cons, hne] using ih hlater hlaterkeys
      | none => exact ih hlater hlaterkeys

namespace Schema

variable {α β : Type} {check : Check} {read : Json → Option α} {v w : Json} {x : α}
  {members : List (String × Option Json)}

/-- A member of a value passes its check, and is read as it was written. -/
structure Check.WritesAt (check : Check) (decode : Json → String → Option β) (v : Json) (key : String) (x : β) :
    Prop where
  passes : ∀ w, v.get? key = some w → ∀ pointer, check pointer w = []
  reads : decode v key = some x

theorem writesAt_required (h : v.Composed members) (key : String) (hw : check.Writes read w x)
    (hmem : (key, some w) ∈ members) : check.WritesAt (Decode.required read) v key x where
  passes w' hw' pointer := by
    rw [h.get? hmem] at hw'
    cases hw'
    exact hw.passes pointer
  reads := by simp [Decode.required, h.get? hmem, hw.reads]

theorem writesAt_withDefault (h : v.Composed members) (key : String) (default : α) (hw : check.Writes read w x)
    (hmem : (key, some w) ∈ members) : check.WritesAt (Decode.withDefault default read) v key x where
  passes := (writesAt_required h key hw hmem).passes
  reads := by simp [Decode.withDefault, h.get? hmem, hw.reads]

theorem writesAt_omitted (h : v.Composed members) (key : String) (default : α) (hmem : (key, none) ∈ members) :
    check.WritesAt (Decode.withDefault default read) v key default where
  passes w hw := by
    rw [h.get? hmem] at hw
    cases hw
  reads := by simp [Decode.withDefault, h.get? hmem]

theorem writesAt_nullable (h : v.Composed members) (key : String) (x : Option α) {write : α → Json}
    (hw : ∀ y ∈ x, check.Writes read (write y) y) (hnull : ∀ y, write y ≠ .null) (hmem : (key, x.map write) ∈ members) :
    check.WritesAt (Decode.nullable read) v key x where
  passes w hget pointer := by
    rw [h.get? hmem] at hget
    obtain ⟨y, hy, rfl⟩ := Option.map_eq_some_iff.mp hget
    exact (hw y hy).passes pointer
  reads := by
    cases x with
    | none => simp [Decode.nullable, h.get? hmem]
    | some y => simp [Decode.nullable, h.get? hmem, (hw y rfl).reads, hnull]

theorem passes_object {required : List String} {checks : List (String × Check)} (h : v.Composed members)
    (hrequired : ∀ key ∈ required, ∃ w, (key, some w) ∈ members)
    (hchecks : ∀ c ∈ checks, ∀ w, v.get? c.1 = some w → ∀ pointer, c.2 pointer w = []) (pointer : String) :
    object required checks pointer v = [] := by
  have hget (key : String) : v.get? key = Assoc.get? (v.asObject?.getD []) key := by
    rw [h.eq]
    rfl
  have hobject : v = .obj (v.asObject?.getD []) := by
    rw [h.eq]
    rfl
  rw [hobject]
  refine List.append_eq_nil_iff.mpr ⟨?_, List.flatMap_eq_nil_iff.mpr ?_⟩
  · rw [List.map_eq_nil_iff, List.filter_eq_nil_iff]
    intro key hkey
    obtain ⟨w, hw⟩ := hrequired key hkey
    simp [Assoc.contains, ← hget, h.get? hw]
  · rintro ⟨key, check⟩ hmem
    simp only [← hget]
    split
    · rfl
    · rename_i w hw
      exact hchecks _ hmem w hw _

/-- A description is left out when it is empty. -/
theorem writesAt_description (h : v.Composed members) (text : String)
    (hmem : ("description", describe? text) ∈ members) :
    anyText.WritesAt (Decode.withDefault "" Decode.text) v "description" text := by
  by_cases hempty : text = ""
  · subst hempty
    exact writesAt_omitted h "description" "" hmem
  · have hshown : describe? text = some (.str text) := if_neg (by simpa using hempty)
    exact writesAt_withDefault h "description" "" (writes_anyText text) (hshown ▸ hmem)

/-- A map of specifications is left out when it is empty. -/
theorem writesAt_specs (h : v.Composed members) (key : String) {m : Assoc α} {write : α → Json} (hm : m.Ascending)
    (hw : ∀ e ∈ m, check.Writes read (write e.2) e.2) (hmem : (key, specs? write m) ∈ members) :
    (mapOf check).WritesAt (Decode.withDefault [] (Decode.mapOf read)) v key m := by
  cases m with
  | nil => exact writesAt_omitted h key [] hmem
  | cons e rest => exact writesAt_withDefault h key [] (writes_mapOf hm hw) hmem

/-! ### Records

Each record is written as the object of its members; from how a member is written follows how it is read. -/

theorem writes_batch {b : Batch} (h : b.Sound) : batch.Writes Batch.ofJson? b.toJson b := by
  have hb : b.toJson.Composed [("items", some (.str b.items)), ("as", some (.str b.itemName)),
    ("error_handling", some (.str b.onError.name))] := ⟨rfl, by simp⟩
  have hitems := writesAt_required hb "items" (writes_anyText b.items) (by simp)
  have hname := writesAt_withDefault hb "as" "item" (writes_identifierText h.itemName) (by simp)
  have honError := writesAt_withDefault hb "error_handling" .failFast (writes_policy b.onError) (by simp)
  refine ⟨passes_object hb (by simp) ?_, ?_⟩
  · simpa using ⟨hitems.passes, hname.passes, honError.passes⟩
  · simp [Batch.ofJson?, hitems.reads, hname.reads, honError.reads]

theorem writes_params (params : Fields) : (object [] []).Writes Json.asObject? (.obj params) params :=
  ⟨fun _ => rfl, rfl⟩

theorem writes_step {s : Step} (h : s.Sound) : step.Writes Step.ofJson? s.toJson s := by
  have hs : s.toJson.Composed _ := ⟨rfl, by simp⟩
  have hid := writesAt_required hs "id" (writes_nonEmptyText h.id) (by simp)
  have hkind := writesAt_required hs "type" (writes_nonEmptyText h.kind) (by simp)
  have hpurpose := writesAt_nullable hs "purpose" s.purpose (fun text _ => writes_anyText text) (by simp) (by simp)
  have hparams : (object [] []).WritesAt (Decode.withDefault [] Json.asObject?) s.toJson "params" s.params := by
    cases hempty : s.params with
    | nil => exact writesAt_omitted hs "params" [] (by simp [hempty])
    | cons e rest => exact writesAt_withDefault hs "params" [] (writes_params (e :: rest)) (by simp [hempty])
  have hbatch := writesAt_nullable hs "batch" s.batch (fun b hb => writes_batch (h.batch b hb))
    (by simp [Batch.toJson]) (by simp)
  refine ⟨passes_object hs (by simp) ?_, ?_⟩
  · simpa using ⟨hid.passes, hkind.passes, hpurpose.passes, hparams.passes, hbatch.passes⟩
  · simp [Step.ofJson?, hid.reads, hkind.reads, hpurpose.reads, hparams.reads, hbatch.reads]

theorem writes_edge {e : Edge} (h : e.Sound) : edge.Writes Edge.ofJson? e.toJson e := by
  have he : e.toJson.Composed _ := ⟨rfl, by simp⟩
  have hsource := writesAt_required he "from" (writes_nonEmptyText h.source) (by simp)
  have htarget := writesAt_required he "to" (writes_nonEmptyText h.target) (by simp)
  have hlabel := writesAt_nullable he "action" e.label (fun l hl => writes_nonEmptyText (h.label l hl)) (by simp)
    (by simp)
  refine ⟨passes_object he (by simp) ?_, ?_⟩
  · simpa using ⟨hsource.passes, htarget.passes, hlabel.passes⟩
  · simp [Edge.ofJson?, hsource.reads, htarget.reads, hlabel.reads]

theorem writes_input {s : InputSpec} (h : s.Sound) : input.Writes InputSpec.ofJson? s.toJson s := by
  have hs : s.toJson.Composed _ := ⟨rfl, by simp⟩
  have htype := writesAt_withDefault hs "type" .any (writes_type h.type) (by simp)
  have hdescription := writesAt_description hs s.description (by simp)
  have hrequired := writesAt_withDefault hs "required" true (writes_boolean s.required) (by simp)
  have hdefault : Decode.nullable some s.toJson "default" = some s.default := by
    have hget : s.toJson.get? "default" = s.default := hs.get? (by simp)
    unfold Decode.nullable
    rw [hget]
    split
    · rename_i hnone
      rw [hnone]
    · rename_i hnull
      exact absurd hnull h.default
    · rename_i w _ hsome
      rw [hsome]
      rfl
  have hstdin := writesAt_withDefault hs "stdin" false (writes_boolean s.stdin) (by simp)
  refine ⟨passes_object hs (by simp) ?_, ?_⟩
  · simpa using ⟨htype.passes, hdescription.passes, hrequired.passes, hstdin.passes⟩
  · have hobject : s.toJson.asObject?.isNone = false := rfl
    simp [InputSpec.ofJson?, hobject, htype.reads, hdescription.reads, hrequired.reads, hdefault, hstdin.reads]

theorem writes_output {s : OutputSpec} (h : s.Sound) : output.Writes OutputSpec.ofJson? s.toJson s := by
  have hs : s.toJson.Composed _ := ⟨rfl, by simp⟩
  have htype := writesAt_withDefault hs "type" .any (writes_type h.type) (by simp)
  have hdescription := writesAt_description hs s.description (by simp)
  have hsource := writesAt_nullable hs "source" s.source (fun text _ => writes_anyText text) (by simp) (by simp)
  refine ⟨passes_object hs (by simp) ?_, ?_⟩
  · simpa using ⟨htype.passes, hdescription.passes, hsource.passes⟩
  · have hobject : s.toJson.asObject?.isNone = false := rfl
    simp [OutputSpec.ofJson?, hobject, htype.reads, hdescription.reads, hsource.reads]

theorem writes_document {d : Document} (h : d.Sound) : document.Writes Document.ofJson? d.toJson d := by
  have hd : d.toJson.Composed _ := ⟨rfl, by simp⟩
  have hversion := writesAt_withDefault hd "ir_version" "0.1.0" (writes_anyText d.version) (by simp)
  have hname := writesAt_nullable hd "name" d.name (fun text _ => writes_anyText text) (by simp) (by simp)
  have hstart := writesAt_nullable hd "start_node" d.start (fun id hid => writes_nonEmptyText (h.start id hid))
    (by simp) (by simp)
  have hsteps := writesAt_withDefault hd "nodes" [] (writes_listOf fun s hs => writes_step (h.steps s hs)) (by simp)
  have hedges := writesAt_withDefault hd "edges" [] (writes_listOf fun e he => writes_edge (h.edges e he)) (by simp)
  have hinputs := writesAt_specs hd "inputs" h.inputs.1 (fun e he => writes_input (h.inputs.2 e he)) (by simp)
  have houtputs := writesAt_specs hd "outputs" h.outputs.1 (fun e he => writes_output (h.outputs.2 e he)) (by simp)
  have hmode := writesAt_withDefault hd "template_resolution_mode" .strict (writes_mode d.mode) (by simp)
  refine ⟨passes_object hd (by simp) ?_, ?_⟩
  · simpa using ⟨hversion.passes, hname.passes, hstart.passes, hmode.passes, hsteps.passes, hedges.passes,
      hinputs.passes, houtputs.passes⟩
  · have hobject : d.toJson.asObject?.isNone = false := rfl
    simp [Document.ofJson?, hobject, hversion.reads, hname.reads, hstart.reads, hsteps.reads, hedges.reads,
      hinputs.reads, houtputs.reads, hmode.reads]

end Schema

/-! ### What a step hands over -/

theorem CallFrame.ofJson?_toJson (f : CallFrame) : ofJson? f.toJson = some f := by
  have hdepth : Decode.required Json.asNat? f.toJson "depth" = some f.depth := rfl
  have hstack : Decode.required (Decode.listOf Decode.text) f.toJson "stack" = some f.stack :=
    (Schema.writes_listOf fun text _ => Schema.writes_anyText text).reads
  unfold ofJson?
  rw [hdepth, hstack]
  rfl

theorem Invocation.ofJson?_toJson {i : Invocation} (h : i.document.Sound) : ofJson? i.toJson = some i := by
  have hdocument : Decode.required Document.ofJson? i.toJson "ir" = some i.document := (Schema.writes_document h).reads
  have hidentity : Decode.required Decode.text i.toJson "identity" = some i.identity := rfl
  have hbaseDir : Decode.nullable Decode.text i.toJson "base_dir" = some i.baseDir := by
    have hget : i.toJson.get? "base_dir" = some (.orNull i.baseDir) := rfl
    unfold Decode.nullable
    rw [hget]
    cases i.baseDir <;> rfl
  have hframe : Decode.required CallFrame.ofJson? i.toJson "frame" = some i.frame := CallFrame.ofJson?_toJson i.frame
  have hmode : Decode.required StorageMode.ofJson? i.toJson "storage_mode" = some i.storageMode := by
    have hget : i.toJson.get? "storage_mode" = some (.str i.storageMode.name) := rfl
    unfold Decode.required
    rw [hget]
    cases i.storageMode <;> rfl
  have hdata : Decode.required Json.asObject? i.toJson "data" = some i.data := rfl
  have hbindings : Decode.required Json.asObject? i.toJson "bindings" = some i.bindings := rfl
  have hmapping : Decode.required Json.asObject? i.toJson "output_mapping" = some i.outputMapping := rfl
  unfold ofJson?
  rw [hdocument, hidentity, hbaseDir, hframe, hmode, hdata, hbindings, hmapping]
  rfl

/-- However a document is loaded, it is read from some raw value. -/
theorem FileTree.load_eq_ok {files : FileTree} {path : String} {d : Document} (h : files.load path = .ok d) :
    ∃ v, Document.ofValue v = .ok d := by
  have hjson (text : String) (h : Document.ofJsonText text = .ok d) : ∃ v, Document.ofValue v = .ok d := by
    unfold Document.ofJsonText at h
    split at h
    · cases h
    · exact ⟨_, h⟩
  have hyaml (text : String) (h : Document.ofYamlText text = .ok d) : ∃ v, Document.ofValue v = .ok d := by
    unfold Document.ofYamlText at h
    split at h
    · cases h
    · exact ⟨_, h⟩
  unfold load at h
  split at h
  · cases h
  · split at h
    · exact hjson _ h
    · exact hyaml _ h
    · exact hyaml _ h
    · cases h

namespace Subworkflow

variable {files : FileTree} {site : Site} {params : Fields} {context : Context} {i : Invocation}

theorem load_eq_ok {target : Target} {d : Document} (h : load files target = .ok d) :
    ∃ v, Document.ofValue v = .ok d := by
  have hloaded := mapError_eq_ok.mp h
  split at hloaded
  · exact FileTree.load_eq_ok hloaded
  · exact ⟨_, hloaded⟩

structure Prepares (files : FileTree) (site : Site) (params : Fields) (context : Context) (i : Invocation) : Prop where
  mode : storageMode params = .ok i.storageMode
  target : ∃ target, locate files site params = .ok target ∧
    checkGuards context.frame (depthLimit site params) target.identity = .ok () ∧
    load files target = .ok i.document ∧ i.identity = target.identity ∧ i.baseDir = target.baseDir
  frame : i.frame = context.frame.enter i.identity
  mapping : ∃ mapping, objectParam params "param_mapping" = .ok mapping ∧
    i.data = i.storageMode.childData context.data mapping (scopePrefix site params) ∧
    i.bindings = i.storageMode.childBindings mapping
  outputMapping : objectParam params "output_mapping" = .ok i.outputMapping

theorem prepares_of_invocation (h : invocation files site params context = .ok i) :
    Prepares files site params context i := by
  obtain ⟨mode, hmode, h⟩ := bind_eq_ok.mp h
  obtain ⟨target, htarget, h⟩ := bind_eq_ok.mp h
  obtain ⟨_, hguards, h⟩ := bind_eq_ok.mp h
  obtain ⟨document, hdocument, h⟩ := bind_eq_ok.mp h
  obtain ⟨mapping, hmapping, h⟩ := bind_eq_ok.mp h
  obtain ⟨outputMapping, houtputMapping, h⟩ := bind_eq_ok.mp h
  cases h
  exact ⟨hmode, ⟨target, htarget, hguards, hdocument, rfl, rfl⟩, rfl, ⟨mapping, hmapping, rfl, rfl⟩, houtputMapping⟩

/-- An invocation reaches its execution as it was prepared. -/
theorem read_of_invocation (h : invocation files site params context = .ok i) :
    Invocation.ofJson? i.toJson = some i := by
  obtain ⟨target, _, _, hload, _, _⟩ := (prepares_of_invocation h).target
  obtain ⟨v, hv⟩ := load_eq_ok hload
  exact Invocation.ofJson?_toJson (Document.sound_of_ofValue hv)

end Subworkflow

/-- A document that has been loaded can be written and loaded again, and is the same. So is what a workflow step
prepares and its execution reads. -/
theorem written_documents_load_again :
    (∀ v d, Document.ofValue v = .ok d → Document.ofValue d.toJson = .ok d) ∧
      ∀ files child site params context prepared,
        (Subworkflow.unit files child site).prepare params context = .ok prepared →
          ∃ i, Subworkflow.invocation files site params context = .ok i ∧ prepared = i.toJson ∧
            Invocation.ofJson? prepared = some i ∧ (Subworkflow.unit files child site).execute prepared = child i := by
  constructor
  · intro v d h
    obtain ⟨_, _, hidentity⟩ := Document.ofValue_eq_ok_iff.mp h
    have hwritten := Schema.writes_document (Document.sound_of_ofValue h)
    exact Document.ofValue_eq_ok_iff.mpr ⟨hwritten.passes "", hwritten.reads, hidentity⟩
  · intro files child site params context prepared h
    cases hi : Subworkflow.invocation files site params context with
    | error fault =>
      simp only [Subworkflow.unit, hi] at h
      cases h
    | ok i =>
      simp only [Subworkflow.unit, hi] at h
      cases h
      have hread := Subworkflow.read_of_invocation hi
      refine ⟨i, rfl, rfl, hread, ?_⟩
      simp only [Subworkflow.unit, hread]

/-- Writing fills in what the raw value has left out, and the workflow step that runs the document reads it whole. -/
theorem written_documents_load_again_tagging :
    ∃ d, Document.ofValue Document.tagging = .ok d ∧ d.toJson ≠ Document.tagging ∧
      Document.ofValue d.toJson = .ok d ∧
      ∃ prepared i, (Subworkflow.unit .empty (fun _ => .ok .null) ⟨"all", .standard, none⟩).prepare
          [("workflow_ir", Document.tagging), ("param_mapping", .obj [("topics", .arr [])])] (.start [] .empty) =
            .ok prepared ∧
        Invocation.ofJson? prepared = some i ∧ i.document = d ∧ i.data = [("topics", .arr [])] := by
  let unit := Subworkflow.unit .empty (fun _ => .ok .null) ⟨"all", .standard, none⟩
  let params : Fields := [("workflow_ir", Document.tagging), ("param_mapping", .obj [("topics", .arr [])])]
  have hdiffers : ((Document.ofValue Document.tagging).toOption.any fun d => d.toJson ≠ Document.tagging) = true := by
    decide +kernel
  have hinvoked : ((unit.prepare params (.start [] .empty)).toOption.any fun prepared =>
      (Invocation.ofJson? prepared).any fun i =>
        (Document.ofValue Document.tagging).toOption = some i.document && i.data = [("topics", .arr [])]) = true := by
    decide +kernel
  cases hd : Document.ofValue Document.tagging with
  | error fault =>
    rw [hd] at hdiffers
    cases hdiffers
  | ok d =>
    cases hp : unit.prepare params (.start [] .empty) with
    | error fault =>
      rw [hp] at hinvoked
      cases hinvoked
    | ok prepared =>
      obtain ⟨i, _, _, hread, _⟩ := written_documents_load_again.2 _ _ _ _ _ _ hp
      rw [hd] at hdiffers hinvoked
      rw [hp] at hinvoked
      simp only [Except.toOption, Option.any_some, hread, Bool.and_eq_true, decide_eq_true_eq,
        Option.some.injEq] at hdiffers hinvoked
      exact ⟨d, rfl, hdiffers, written_documents_load_again.1 _ d hd, prepared, i, rfl, hread, hinvoked.1.symm,
        hinvoked.2⟩

end Workflow
