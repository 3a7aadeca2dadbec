import Workflow.Proofs.History

/-! The default of an input on its way from the raw document to the values that a run starts from. It is taken over as
it is written, of whatever type, and bound wherever no parameter of that name is given. Only null is lost: the reader
takes it for no default. -/

namespace Workflow

/-! ### Reading -/

namespace Decode

variable {α : Type} {read : Json → Option α}

theorem last?_mapM {entries : Fields} {xs : Assoc α}
    (h : entries.mapM (fun e => (read e.2).map fun x => (e.1, x)) = some xs) (key : String) :
    Option.Rel (fun v x => read v = some x) (Assoc.last? entries key) (Assoc.last? xs key) := by
  induction entries generalizing xs with
  | nil =>
    cases h
    exact .none
  | cons e rest ih =>
    obtain ⟨k, v⟩ := e
    simp only [List.mapM_cons, Option.bind_eq_bind, Option.bind_eq_some_iff, Option.map_eq_some_iff] at h
    obtain ⟨_, ⟨x, hx, rfl⟩, later, hlater, heq⟩ := h
    cases heq
    have hrest := ih hlater
    rw [Assoc.last?_cons, Assoc.last?_cons]
    generalize Assoc.last? rest key = v?, Assoc.last? later key = x? at hrest
    cases hrest with
    | some hread => exact .some hread
    | none =>
      split
      · exact .some hx
      · exact .none

/-- Of the entries of a map the last one under a key is read. -/
theorem get?_mapOf {entries : Fields} {m : Assoc α} (h : mapOf read (.obj entries) = some m) {key : String}
    {entry : Json} (hentry : Assoc.last? entries key = some entry) :
    ∃ x, read entry = some x ∧ Assoc.get? m key = some x := by
  obtain ⟨xs, hxs, rfl⟩ := Option.map_eq_some_iff.mp h
  have hlast := last?_mapM hxs key
  rw [hentry] at hlast
  cases hlast' : Assoc.last? xs key with
  | none =>
    rw [hlast'] at hlast
    cases hlast
  | some x =>
    rw [hlast'] at hlast
    cases hlast with
    | some hread => exact ⟨x, hread, by rw [Assoc.get?_sorted, hlast']⟩

end Decode

/-- A default is read as it is written; null is read as no default. -/
theorem InputSpec.default_of_ofJson? {entry : Json} {spec : InputSpec} (h : ofJson? entry = some spec) {v : Json}
    (hv : entry.get? "default" = some v) : spec.default = if v = .null then none else some v := by
  unfold ofJson? at h
  split at h
  · cases h
  · simp only [Option.bind_eq_bind, Option.bind_eq_some_iff, Option.some.injEq] at h
    obtain ⟨_, _, _, _, _, _, default, hdefault, _, _, rfl⟩ := h
    unfold Decode.nullable at hdefault
    rw [hv] at hdefault
    split at hdefault
    · rename_i hnone
      cases hnone
    · rename_i hnull
      cases hnull
      cases hdefault
      rfl
    · rename_i w hne hw
      cases hw
      cases hdefault
      rw [if_neg fun hnull => hne (by rw [hnull])]

/-- The inputs of a document are those of the value that it is read from. -/
theorem Document.inputs_of_ofJson? {v : Json} {d : Document} (h : ofJson? v = some d) {inputs : Json}
    (hinputs : v.get? "inputs" = some inputs) : Decode.mapOf InputSpec.ofJson? inputs = some d.inputs := by
  unfold ofJson? at h
  split at h
  · cases h
  · simp only [Option.bind_eq_bind, Option.bind_eq_some_iff, Option.some.injEq] at h
    obtain ⟨_, _, _, _, _, _, _, _, _, _, read, hread, _, _, _, _, rfl⟩ := h
    unfold Decode.withDefault at hread
    rw [hinputs] at hread
    exact hread

/-! ### Binding -/

/-- One input: its default is added where the name has no value yet. -/
theorem get?_addDefaults_one (key : String) (spec : InputSpec) (params : Fields) (name : String) :
    Assoc.get? (addDefaults [(key, spec)] params) name =
      (Assoc.get? params name).or (if key = name then spec.default else none) := by
  simp only [addDefaults, List.foldl_cons, List.foldl_nil]
  split
  · rename_i hgiven
    obtain ⟨v, hv⟩ := Option.isSome_iff_exists.mp hgiven
    split
    · rename_i hname
      rw [← hname, hv, Option.some_or]
    · rw [Option.or_none]
  · rename_i hgiven
    have hnone : Assoc.get? params key = none := by simpa [Assoc.contains] using hgiven
    split
    · rename_i hdefault
      rw [hdefault, ite_self, Option.or_none]
    · rename_i v hdefault
      rw [Assoc.get?_put, hdefault]
      split
      · rename_i hname
        rw [← hname, hnone, Option.none_or]
      · rw [Option.or_none]

/-- A parameter is bound as it is given, any other input to its default. -/
theorem get?_addDefaults {inputs : Assoc InputSpec} (hn : (Assoc.keys inputs).Nodup) (params : Fields) (name : String) :
    Assoc.get? (addDefaults inputs params) name =
      (Assoc.get? params name).or ((Assoc.get? inputs name).bind InputSpec.default) := by
  induction inputs generalizing params with
  | nil => exact (Option.or_none).symm
  | cons e rest ih =>
    obtain ⟨key, spec⟩ := e
    obtain ⟨hnew, hrest⟩ := List.nodup_cons.mp hn
    rw [addDefaults_cons, ih hrest, get?_addDefaults_one, Option.or_assoc, Assoc.get?_cons]
    congr 1
    split
    · rename_i hname
      rw [← hname, Assoc.get?_eq_none_of_not_mem hnew, Option.bind_none, Option.or_none, Option.bind_some]
    · rw [Option.none_or]

theorem mem_missingInputs {inputs : Assoc InputSpec} {params : Fields} {name : String} :
    name ∈ missingInputs inputs params ↔
      ∃ spec, (name, spec) ∈ inputs ∧ name ∉ Assoc.keys params ∧ spec.default = none ∧ spec.required = true := by
  have hgiven : Assoc.contains params name = true ↔ name ∈ Assoc.keys params := Assoc.get?_isSome_iff params name
  unfold missingInputs
  rw [List.mem_map]
  constructor
  · rintro ⟨⟨key, spec⟩, hmem, rfl⟩
    obtain ⟨hmem, hlacks⟩ := List.mem_filter.mp hmem
    simp only [Bool.and_eq_true, Bool.not_eq_true', ← Bool.not_eq_true, hgiven, Option.isNone_iff_eq_none] at hlacks
    exact ⟨spec, hmem, hlacks.1.1, hlacks.1.2, hlacks.2⟩
  · rintro ⟨spec, hmem, habsent, hdefault, hrequired⟩
    refine ⟨(name, spec), List.mem_filter.mpr ⟨hmem, ?_⟩, rfl⟩
    simp only [Bool.and_eq_true, Bool.not_eq_true', ← Bool.not_eq_true, hgiven, Option.isNone_iff_eq_none]
    exact ⟨⟨habsent, hdefault⟩, hrequired⟩

theorem bindInputs_of_missing {inputs : Assoc InputSpec} {params : Fields} (h : missingInputs inputs params ≠ []) :
    bindInputs inputs params = .error (.missingInputs (missingInputs inputs params)) := by
  unfold bindInputs
  exact if_neg (by simpa using h)

theorem bindInputs_of_none_missing {inputs : Assoc InputSpec} {params : Fields} (h : missingInputs inputs params = []) :
    bindInputs inputs params = .ok (addDefaults inputs params) := by
  unfold bindInputs
  rw [h]
  rfl

namespace Document

/-- The default that a raw value declares for an input is the default of the input, unless it is null. -/
theorem default_of_ofValue {v : Json} {d : Document} (hload : ofValue v = .ok d) {entries : Fields}
    (hinputs : v.get? "inputs" = some (.obj entries)) {name : String} {entry : Json}
    (hentry : Assoc.last? entries name = some entry) {default : Json} (hdefault : entry.get? "default" = some default)
    (hnull : default ≠ .null) : ∃ spec, Assoc.get? d.inputs name = some spec ∧ spec.default = some default := by
  obtain ⟨_, hread, _⟩ := ofValue_eq_ok_iff.mp hload
  obtain ⟨spec, hspec, hget⟩ := Decode.get?_mapOf (inputs_of_ofJson? hread hinputs) hentry
  refine ⟨spec, hget, ?_⟩
  rw [InputSpec.default_of_ofJson? hspec hdefault, if_neg hnull]

/-- A default other than null is bound as it was declared wherever its input is not given. Binding can fail for other
inputs alone: those that are required, have no default and are not given. It is the same in a child, which receives the
document written and read again. -/
theorem defaults_are_bound {v : Json} {d : Document} (hload : ofValue v = .ok d) {entries : Fields}
    (hinputs : v.get? "inputs" = some (.obj entries)) {name : String} {entry : Json}
    (hentry : Assoc.last? entries name = some entry) {default : Json} (hdefault : entry.get? "default" = some default)
    (hnull : default ≠ .null) {params : Fields} (habsent : name ∉ Assoc.keys params) :
    ((∃ bindings, bindInputs d.inputs params = .ok bindings ∧ Assoc.get? bindings name = some default) ∨
        ∃ names, bindInputs d.inputs params = .error (.missingInputs names) ∧ names ≠ [] ∧ name ∉ names ∧
          ∀ other ∈ names, ∃ spec, (other, spec) ∈ d.inputs ∧ other ∉ Assoc.keys params ∧ spec.default = none ∧
            spec.required = true) ∧
      ofJson? d.toJson = some d := by
  obtain ⟨spec, hspec, hdeclared⟩ := default_of_ofValue hload hinputs hentry hdefault hnull
  have hsound := sound_of_ofValue hload
  have hn : (Assoc.keys d.inputs).Nodup := hsound.inputs.1.imp fun hlt => String.ne_of_lt hlt
  refine ⟨?_, (Schema.writes_document hsound).reads⟩
  by_cases hmissing : missingInputs d.inputs params = []
  · refine .inl ⟨_, bindInputs_of_none_missing hmissing, ?_⟩
    rw [get?_addDefaults hn, Assoc.get?_eq_none_of_not_mem habsent, hspec, Option.none_or, Option.bind_some, hdeclared]
  · refine .inr ⟨_, bindInputs_of_missing hmissing, hmissing, fun hmem => ?_, fun other => mem_missingInputs.mp⟩
    obtain ⟨found, hfound, _, hnone, _⟩ := mem_missingInputs.mp hmem
    rw [Assoc.get?_of_mem hn hfound] at hspec
    cases hspec
    rw [hnone] at hdeclared
    cases hdeclared

def defaulting (default : Json) : Json := .obj
  [("nodes", .arr [.obj [("id", .str "say"), ("type", .str "echo"), ("params", .obj [("v", .str "$\x7bx\x7d")])]]),
    ("inputs", .obj [("x", .obj [("default", default)])])]

theorem defaults_are_bound_list :
    ∃ d bindings, ofValue (defaulting (.arr [.null, .nat 1])) = .ok d ∧ bindInputs d.inputs [] = .ok bindings ∧
      Assoc.get? bindings "x" = some (.arr [.null, .nat 1]) := by
  have hbound : ((ofValue (defaulting (.arr [.null, .nat 1]))).toOption.any fun d =>
      (missingInputs d.inputs []).isEmpty) = true := by decide +kernel
  obtain ⟨d, hload, hbound⟩ := any_toOption.mp hbound
  let entry : Json := .obj [("default", .arr [.null, .nat 1])]
  have hinputs : (defaulting (.arr [.null, .nat 1])).get? "inputs" = some (.obj [("x", entry)]) := rfl
  have hentry : Assoc.last? [("x", entry)] "x" = some entry := rfl
  have habsent : "x" ∉ Assoc.keys ([] : Fields) := List.not_mem_nil
  obtain ⟨hbinds, _⟩ := defaults_are_bound hload hinputs hentry rfl (by decide) habsent
  rcases hbinds with ⟨bindings, hbinds, hget⟩ | ⟨names, hfails, _⟩
  · exact ⟨d, bindings, hload, hbinds, hget⟩
  · rw [bindInputs_of_none_missing (List.isEmpty_iff.mp hbound)] at hfails
    cases hfails

/-- A default of null is taken for none, so the input is missing. -/
theorem null_default_is_missing :
    ∃ d, ofValue (defaulting .null) = .ok d ∧ bindInputs d.inputs [] = .error (.missingInputs ["x"]) := by
  have hmissing : ((ofValue (defaulting .null)).toOption.any fun d => missingInputs d.inputs [] = ["x"]) = true := by
    decide +kernel
  obtain ⟨d, hload, hmissing⟩ := any_toOption.mp hmissing
  have hmissing : missingInputs d.inputs [] = ["x"] := of_decide_eq_true hmissing
  refine ⟨d, hload, ?_⟩
  rw [bindInputs_of_missing (by rw [hmissing]; simp), hmissing]

end Document

end Workflow
