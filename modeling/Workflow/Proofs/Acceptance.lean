import Workflow.Document.Load

/-! The schema and the reader are two descriptions of a document. The reader takes whatever the schema lets through, so
a raw value is refused for its shape or its identities, and for nothing else. -/

namespace Workflow

/-! ### Documents in order -/

structure SemanticType.Proper (t : SemanticType) : Prop where
  nonempty : t.members ≠ []
  ordered : t.members.Sublist Atom.all

structure Batch.Sound (b : Batch) : Prop where
  itemName : Schema.isIdentifier b.itemName.toList = true

structure Step.Sound (s : Step) : Prop where
  id : s.id ≠ ""
  kind : s.kind ≠ ""
  batch : ∀ b ∈ s.batch, b.Sound

structure Edge.Sound (e : Edge) : Prop where
  source : e.source ≠ ""
  target : e.target ≠ ""
  label : ∀ l ∈ e.label, l ≠ ""

structure InputSpec.Sound (s : InputSpec) : Prop where
  type : s.type.Proper
  /-- A default of null would be written and not read again. -/
  default : s.default ≠ some .null

structure OutputSpec.Sound (s : OutputSpec) : Prop where
  type : s.type.Proper

/-- A document as the schema lets it through and defaults complete it. -/
structure Document.Sound (d : Document) : Prop where
  start : ∀ id ∈ d.start, id ≠ ""
  steps : ∀ s ∈ d.steps, s.Sound
  edges : ∀ e ∈ d.edges, e.Sound
  inputs : d.inputs.Ascending ∧ ∀ e ∈ d.inputs, e.2.Sound
  outputs : d.outputs.Ascending ∧ ∀ e ∈ d.outputs, e.2.Sound

theorem Text.splitOn_ne_nil (sep : Char) (cs : List Char) : splitOn sep cs ≠ [] := by
  cases cs with
  | nil => simp [splitOn]
  | cons c rest =>
    rw [splitOn]
    split
    · simp
    · split <;> simp

namespace SemanticType

theorem proper_ofAtoms {atoms : List Atom} (h : atoms ≠ []) : (ofAtoms atoms).Proper := by
  refine ⟨?_, List.filter_sublist⟩
  obtain ⟨atom, hatom⟩ := List.exists_mem_of_ne_nil _ h
  have hall : atom ∈ Atom.all := by cases atom <;> decide
  exact List.ne_nil_of_mem (List.mem_filter.mpr ⟨hall, List.contains_iff_mem.mpr hatom⟩)

theorem proper_parse (declared : String) : (parse declared).Proper :=
  proper_ofAtoms (by simpa using Text.splitOn_ne_nil '|' declared.toList)

theorem proper_any : any.Proper := ⟨by decide, by decide⟩

end SemanticType

/-! ### Checks of a value -/

namespace Schema

variable {α : Type} {read : Json → Option α} {P : α → Prop} {pointer : String} {v : Json}

/-- Every value that passes the check can be read, and what is read has a property. -/
def Check.Reads (check : Check) (read : Json → Option α) (P : α → Prop) : Prop :=
  ∀ pointer v, check pointer v = [] → ∃ x, read v = some x ∧ P x

theorem textWith_eq_nil {rules : List (String → Option String)} (h : textWith rules pointer v = []) :
    ∃ text, v = .str text ∧ ∀ rule ∈ rules, rule text = none := by
  cases v with
  | str text =>
    refine ⟨text, rfl, fun rule hrule => ?_⟩
    simpa using List.filterMap_eq_nil_iff.mp h rule hrule
  | _ => cases h

theorem reads_anyText : anyText.Reads Decode.text fun _ => True := by
  intro pointer v h
  obtain ⟨text, rfl, _⟩ := textWith_eq_nil h
  exact ⟨text, rfl, trivial⟩

theorem reads_nonEmptyText : nonEmptyText.Reads Decode.text (· ≠ "") := by
  intro pointer v h
  obtain ⟨text, rfl, hrules⟩ := textWith_eq_nil h
  exact ⟨text, rfl, by simpa using hrules⟩

theorem reads_identifierText : identifierText.Reads Decode.text fun text => isIdentifier text.toList = true := by
  intro pointer v h
  obtain ⟨text, rfl, hrules⟩ := textWith_eq_nil h
  exact ⟨text, rfl, by simpa using hrules⟩

theorem reads_boolean : boolean.Reads Json.asBool? fun _ => True := by
  intro pointer v h
  cases v with
  | bool b => exact ⟨b, rfl, trivial⟩
  | _ => cases h

theorem reads_oneOf {names : List String} (hread : ∀ name ∈ names, (read (.str name)).isSome) :
    (oneOf names).Reads read fun _ => True := by
  intro pointer v h
  unfold oneOf at h
  split at h
  · rename_i hany
    obtain ⟨name, hname, heq⟩ := List.any_eq_true.mp hany
    obtain ⟨x, hx⟩ := Option.isSome_iff_exists.mp (hread name hname)
    exact ⟨x, (of_decide_eq_true heq) ▸ hx, trivial⟩
  · cases h

/-- Where each member of a list can be read, so can the list. -/
theorem mapM_reads {β : Type} {read : β → Option α} {items : List β} (h : ∀ w ∈ items, ∃ x, read w = some x ∧ P x) :
    ∃ xs, items.mapM read = some xs ∧ ∀ x ∈ xs, P x := by
  induction items with
  | nil => exact ⟨[], rfl, by simp⟩
  | cons w rest ih =>
    obtain ⟨x, hx, hp⟩ := h w List.mem_cons_self
    obtain ⟨xs, hxs, hps⟩ := ih fun w hw => h w (List.mem_cons_of_mem _ hw)
    refine ⟨x :: xs, by simp [List.mapM_cons, hx, hxs], ?_⟩
    exact List.forall_mem_cons.mpr ⟨hp, hps⟩

theorem reads_listOf {item : Check} (hitem : item.Reads read P) :
    (listOf item).Reads (Decode.listOf read) fun xs => ∀ x ∈ xs, P x := by
  intro pointer v h
  cases v with
  | arr items =>
    suffices hall : ∃ xs, items.mapM read = some xs ∧ ∀ x ∈ xs, P x from hall
    refine mapM_reads fun w hw => ?_
    obtain ⟨i, hi, rfl⟩ := List.getElem_of_mem hw
    simp only [listOf, List.flatten_eq_nil_iff, List.mem_map] at h
    exact hitem _ _ (h _ ⟨(items[i], i), List.mk_mem_zipIdx_iff_getElem?.mpr (List.getElem?_eq_getElem hi), rfl⟩)
  | _ => cases h

theorem reads_mapOf {item : Check} (hitem : item.Reads read P) :
    (mapOf item).Reads (Decode.mapOf read) fun m => m.Ascending ∧ ∀ e ∈ m, P e.2 := by
  intro pointer v h
  cases v with
  | obj fields =>
    have hfields : ∀ e ∈ fields, ∃ d : String × α, ((read e.2).map fun w => (e.1, w)) = some d ∧ P d.2 := by
      intro e he
      obtain ⟨x, hx, hp⟩ := hitem _ e.2 (List.flatMap_eq_nil_iff.mp h e he)
      exact ⟨(e.1, x), by rw [hx]; rfl, hp⟩
    obtain ⟨m, hm, hp⟩ := mapM_reads hfields
    refine ⟨Assoc.sorted m, by simp [Decode.mapOf, Json.asObject?, hm], Assoc.ascending_sorted m, ?_⟩
    exact fun e he => hp e (Assoc.mem_sorted he)
  | _ => cases h

/-! ### Members of an object -/

/-- A value that passes the check of an object, as far as its members are concerned. -/
structure Admits (required : List String) (members : List (String × Check)) (v : Json) : Prop where
  isObject : v.asObject?.isSome
  present : ∀ key ∈ required, (v.get? key).isSome
  checked : ∀ key check, (key, check) ∈ members → ∀ w, v.get? key = some w → ∃ pointer, check pointer w = []

theorem admits_of_object {required : List String} {members : List (String × Check)}
    (h : object required members pointer v = []) : Admits required members v := by
  cases v with
  | obj fields =>
    obtain ⟨hmissing, hwrong⟩ := List.append_eq_nil_iff.mp h
    refine ⟨rfl, fun key hkey => ?_, fun key check hmem w hw => ?_⟩
    · have hnone := List.filter_eq_nil_iff.mp (List.map_eq_nil_iff.mp hmissing) key hkey
      simpa [Assoc.contains, Json.get?, Option.isSome_iff_ne_none] using hnone
    · have hcheck := List.flatMap_eq_nil_iff.mp hwrong (key, check) hmem
      have hget : Assoc.get? fields key = some w := hw
      simp only [hget] at hcheck
      exact ⟨_, hcheck⟩
  | _ => cases h

namespace Admits

variable {required : List String} {members : List (String × Check)} {check : Check}

theorem read_member (h : Admits required members v) (hcheck : check.Reads read P) {key : String}
    (hmem : (key, check) ∈ members) {w : Json} (hw : v.get? key = some w) : ∃ x, read w = some x ∧ P x := by
  obtain ⟨pointer, hpassed⟩ := h.checked key check hmem w hw
  exact hcheck pointer w hpassed

theorem read_required (h : Admits required members v) (key : String) (hcheck : check.Reads read P)
    (hmem : (key, check) ∈ members) (hkey : key ∈ required) : ∃ x, Decode.required read v key = some x ∧ P x := by
  obtain ⟨w, hw⟩ := Option.isSome_iff_exists.mp (h.present key hkey)
  obtain ⟨x, hx, hp⟩ := h.read_member hcheck hmem hw
  exact ⟨x, by simp [Decode.required, hw, hx], hp⟩

theorem read_withDefault (h : Admits required members v) (key : String) (default : α) (hcheck : check.Reads read P)
    (hmem : (key, check) ∈ members) (hdefault : P default) :
    ∃ x, Decode.withDefault default read v key = some x ∧ P x := by
  cases hw : v.get? key with
  | none => exact ⟨default, by simp [Decode.withDefault, hw], hdefault⟩
  | some w =>
    obtain ⟨x, hx, hp⟩ := h.read_member hcheck hmem hw
    exact ⟨x, by simp [Decode.withDefault, hw, hx], hp⟩

theorem read_nullable (h : Admits required members v) (key : String) (hcheck : check.Reads read P)
    (hmem : (key, check) ∈ members) : ∃ x, Decode.nullable read v key = some x ∧ ∀ y ∈ x, P y := by
  unfold Decode.nullable
  split
  · exact ⟨none, rfl, by simp⟩
  · exact ⟨none, rfl, by simp⟩
  · rename_i w _ hw
    obtain ⟨x, hx, hp⟩ := h.read_member hcheck hmem hw
    exact ⟨some x, by rw [hx]; rfl, by simpa using hp⟩

end Admits

/-! ### Records

Each check of the schema is matched with the reader of the same record, member by member. -/

theorem reads_type : anyText.Reads SemanticType.ofJson? SemanticType.Proper := by
  intro pointer v h
  obtain ⟨text, rfl, _⟩ := textWith_eq_nil h
  exact ⟨.parse text, rfl, SemanticType.proper_parse text⟩

theorem reads_policy : (oneOf ["fail_fast", "continue"]).Reads BatchPolicy.ofJson? fun _ => True :=
  reads_oneOf (by decide)

theorem reads_mode : (oneOf ["strict", "permissive"]).Reads Mode.ofJson? fun _ => True := reads_oneOf (by decide)

theorem reads_params : (object [] []).Reads Json.asObject? fun _ => True := by
  intro pointer v h
  obtain ⟨fields, hfields⟩ := Option.isSome_iff_exists.mp (admits_of_object h).isObject
  exact ⟨fields, hfields, trivial⟩

theorem reads_batch : batch.Reads Batch.ofJson? Batch.Sound := by
  intro pointer v h
  have hv := admits_of_object h
  obtain ⟨items, hitems, _⟩ := hv.read_required "items" reads_anyText (by simp) (by simp)
  obtain ⟨itemName, hname, hidentifier⟩ := hv.read_withDefault "as" "item" reads_identifierText (by simp) (by decide)
  obtain ⟨onError, honError, _⟩ := hv.read_withDefault "error_handling" .failFast reads_policy (by simp) trivial
  exact ⟨⟨items, itemName, onError⟩, by simp [Batch.ofJson?, hitems, hname, honError], ⟨hidentifier⟩⟩

theorem reads_step : step.Reads Step.ofJson? Step.Sound := by
  intro pointer v h
  have hv := admits_of_object h
  obtain ⟨id, hid, hidne⟩ := hv.read_required "id" reads_nonEmptyText (by simp) (by simp)
  obtain ⟨kind, hkind, hkindne⟩ := hv.read_required "type" reads_nonEmptyText (by simp) (by simp)
  obtain ⟨purpose, hpurpose, _⟩ := hv.read_nullable "purpose" reads_anyText (by simp)
  obtain ⟨params, hparams, _⟩ := hv.read_withDefault "params" [] reads_params (by simp) trivial
  obtain ⟨batch, hbatch, hsound⟩ := hv.read_nullable "batch" reads_batch (by simp)
  exact ⟨⟨id, kind, purpose, params, batch⟩, by simp [Step.ofJson?, hid, hkind, hpurpose, hparams, hbatch],
    ⟨hidne, hkindne, hsound⟩⟩

theorem reads_edge : edge.Reads Edge.ofJson? Edge.Sound := by
  intro pointer v h
  have hv := admits_of_object h
  obtain ⟨source, hsource, hsourcene⟩ := hv.read_required "from" reads_nonEmptyText (by simp) (by simp)
  obtain ⟨target, htarget, htargetne⟩ := hv.read_required "to" reads_nonEmptyText (by simp) (by simp)
  obtain ⟨label, hlabel, hlabelne⟩ := hv.read_nullable "action" reads_nonEmptyText (by simp)
  exact ⟨⟨source, target, label⟩, by simp [Edge.ofJson?, hsource, htarget, hlabel], ⟨hsourcene, htargetne, hlabelne⟩⟩

/-- A default is not checked at all, and null is no default. -/
theorem nullable_some (v : Json) (key : String) :
    ∃ x, Decode.nullable some v key = some x ∧ x ≠ some .null := by
  unfold Decode.nullable
  split
  · exact ⟨none, rfl, by simp⟩
  · exact ⟨none, rfl, by simp⟩
  · rename_i w hnull hw
    exact ⟨some w, rfl, by simpa using hnull⟩

theorem reads_input : input.Reads InputSpec.ofJson? InputSpec.Sound := by
  intro pointer v h
  have hv := admits_of_object h
  obtain ⟨type, htype, hproper⟩ := hv.read_withDefault "type" .any reads_type (by simp) SemanticType.proper_any
  obtain ⟨description, hdescription, _⟩ := hv.read_withDefault "description" "" reads_anyText (by simp) trivial
  obtain ⟨required, hrequired, _⟩ := hv.read_withDefault "required" true reads_boolean (by simp) trivial
  obtain ⟨default, hdefault, hne⟩ := nullable_some v "default"
  obtain ⟨stdin, hstdin, _⟩ := hv.read_withDefault "stdin" false reads_boolean (by simp) trivial
  refine ⟨⟨type, description, required, default, stdin⟩, ?_, ⟨hproper, hne⟩⟩
  simp [InputSpec.ofJson?, Option.isSome_iff_ne_none.mp hv.isObject, htype, hdescription, hrequired, hdefault, hstdin]

theorem reads_output : output.Reads OutputSpec.ofJson? OutputSpec.Sound := by
  intro pointer v h
  have hv := admits_of_object h
  obtain ⟨type, htype, hproper⟩ := hv.read_withDefault "type" .any reads_type (by simp) SemanticType.proper_any
  obtain ⟨description, hdescription, _⟩ := hv.read_withDefault "description" "" reads_anyText (by simp) trivial
  obtain ⟨source, hsource, _⟩ := hv.read_nullable "source" reads_anyText (by simp)
  refine ⟨⟨type, description, source⟩, ?_, ⟨hproper⟩⟩
  simp [OutputSpec.ofJson?, Option.isSome_iff_ne_none.mp hv.isObject, htype, hdescription, hsource]

theorem reads_document : document.Reads Document.ofJson? Document.Sound := by
  intro pointer v h
  have hv := admits_of_object h
  obtain ⟨version, hversion, _⟩ := hv.read_withDefault "ir_version" "0.1.0" reads_anyText (by simp) trivial
  obtain ⟨name, hname, _⟩ := hv.read_nullable "name" reads_anyText (by simp)
  obtain ⟨start, hstart, hstartne⟩ := hv.read_nullable "start_node" reads_nonEmptyText (by simp)
  obtain ⟨steps, hsteps, hstepsok⟩ := hv.read_withDefault "nodes" [] (reads_listOf reads_step) (by simp) (by simp)
  obtain ⟨edges, hedges, hedgesok⟩ := hv.read_withDefault "edges" [] (reads_listOf reads_edge) (by simp) (by simp)
  obtain ⟨inputs, hinputs, hinputsok⟩ :=
    hv.read_withDefault "inputs" [] (reads_mapOf reads_input) (by simp) ⟨.nil, by simp⟩
  obtain ⟨outputs, houtputs, houtputsok⟩ :=
    hv.read_withDefault "outputs" [] (reads_mapOf reads_output) (by simp) ⟨.nil, by simp⟩
  obtain ⟨mode, hmode, _⟩ := hv.read_withDefault "template_resolution_mode" .strict reads_mode (by simp) trivial
  refine ⟨⟨version, name, start, steps, edges, inputs, outputs, mode⟩, ?_,
    ⟨hstartne, hstepsok, hedgesok, hinputsok, houtputsok⟩⟩
  simp [Document.ofJson?, Option.isSome_iff_ne_none.mp hv.isObject, hversion, hname, hstart, hsteps, hedges, hinputs,
    houtputs, hmode]

end Schema

/-! ### Loading -/

namespace Document

variable {v : Json} {d : Document}

theorem checkIdentity_eq_error {fault : Fault} (h : d.checkIdentity = .error fault) :
    fault = .malformed d.identityBreaches := by
  unfold checkIdentity at h
  split at h
  · cases h
  · cases h
    rfl

theorem ofValue_of_violations (h : Schema.violations v ≠ []) :
    ofValue v = .error (.malformed ((Schema.violations v).map Schema.Violation.message)) := by
  unfold ofValue
  rw [if_neg (by simpa using h)]

theorem ofValue_of_read (h : Schema.violations v = []) (hread : ofJson? v = some d) :
    ofValue v = d.checkIdentity.map fun _ => d := by
  unfold ofValue
  simp only [h, List.isEmpty_nil, if_true, hread]
  cases d.checkIdentity <;> rfl

theorem ofValue_eq_ok_iff :
    ofValue v = .ok d ↔ Schema.violations v = [] ∧ ofJson? v = some d ∧ d.checkIdentity = .ok () := by
  constructor
  · intro h
    by_cases hv : Schema.violations v = []
    · obtain ⟨read, hread, _⟩ := Schema.reads_document "" v hv
      rw [ofValue_of_read hv hread] at h
      cases hidentity : read.checkIdentity with
      | error fault =>
        rw [hidentity] at h
        cases h
      | ok =>
        rw [hidentity] at h
        cases h
        exact ⟨hv, hread, hidentity⟩
    · rw [ofValue_of_violations hv] at h
      cases h
  · rintro ⟨hv, hread, hidentity⟩
    rw [ofValue_of_read hv hread, hidentity]
    rfl

theorem sound_of_ofValue (h : ofValue v = .ok d) : d.Sound := by
  obtain ⟨hv, hread, _⟩ := ofValue_eq_ok_iff.mp h
  obtain ⟨read, hread', hsound⟩ := Schema.reads_document "" v hv
  rw [hread'] at hread
  cases hread
  exact hsound

/-- A value that passes the schema can be read as a document, so loading a value gives a document or says what is
malformed; it is never at a loss to read the value. -/
theorem accepted_is_readable (v : Json) :
    (Schema.violations v = [] → ∃ d, ofJson? v = some d) ∧
      ((∃ d, ofValue v = .ok d) ∨ ∃ details, ofValue v = .error (.malformed details)) ∧
      ∀ problem, ofValue v ≠ .error (.jsonSyntax problem) := by
  have hread (hv : Schema.violations v = []) : ∃ d, ofJson? v = some d := by
    obtain ⟨d, hd, _⟩ := Schema.reads_document "" v hv
    exact ⟨d, hd⟩
  have hloaded : (∃ d, ofValue v = .ok d) ∨ ∃ details, ofValue v = .error (.malformed details) := by
    by_cases hv : Schema.violations v = []
    · obtain ⟨d, hd⟩ := hread hv
      rw [ofValue_of_read hv hd]
      cases hidentity : d.checkIdentity with
      | ok => exact .inl ⟨d, rfl⟩
      | error fault => exact .inr ⟨_, by rw [checkIdentity_eq_error hidentity]; rfl⟩
    · exact .inr ⟨_, ofValue_of_violations hv⟩
  refine ⟨hread, hloaded, fun problem h => ?_⟩
  rcases hloaded with ⟨d, hd⟩ | ⟨details, hd⟩
  · rw [hd] at h
    cases h
  · rw [hd] at h
    cases h

def tagging : Json := .obj
  [("nodes", .arr [.obj [("id", .str "tag"), ("type", .str "echo"), ("params", .obj [("text", .str "$\x7bitem\x7d")]),
      ("batch", .obj [("items", .str "$\x7btopics\x7d")]), ("color", .int 3)]]),
    ("inputs", .obj [("topics", .obj [("type", .str "List"), ("default", .null)])])]

/-- The schema asks neither for the name of an item nor for what to do about errors, and knows no colors. -/
theorem accepted_is_readable_tagging :
    Schema.violations tagging = [] ∧ ∃ d, ofJson? tagging = some d ∧
      d.steps.map Step.batch = [some ⟨"$\x7btopics\x7d", "item", .failFast⟩] := by
  have haccepted : Schema.violations tagging = [] := by decide +kernel
  obtain ⟨d, hd⟩ := (accepted_is_readable tagging).1 haccepted
  have hbatch : (ofJson? tagging).map (fun d => d.steps.map Step.batch) =
      some [some ⟨"$\x7btopics\x7d", "item", .failFast⟩] := by decide +kernel
  rw [hd] at hbatch
  exact ⟨haccepted, d, hd, Option.some.inj hbatch⟩

end Document

end Workflow
