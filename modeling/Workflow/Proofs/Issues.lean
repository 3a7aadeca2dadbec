import Workflow.Proofs.Lookups
import Workflow.Proofs.Parameters
import Workflow.Proofs.Referencing

/-! What a step says of its parameters. Each has at most one problem: a reference that finds nothing comes first, and
only where all are found does a type that does not fit. Strict mode stops at the first parameter with a problem and
leaves no warning; permissive mode warns of every problem and goes on with all parameters filled in. -/

namespace Workflow

open Template (Occurs simpleReference textRefs)

/-! ### Missing references -/

namespace Scope

variable (scope : Scope) {depth : Nat} {v : Json}

theorem map_unresolved {α : Type} (f : Unresolved → α) (g : Reference → α)
    (hfg : ∀ source r, f (scope.missing source r) = g r) (depth : Nat) (v : Json) :
    (scope.resolve depth v).unresolved.map f =
      ((refsWithin depth v).filter fun r => (scope.lookup? r).isNone).map g := by
  rw [unresolved_eq_flatMap, refsWithin, List.filter_flatMap, List.map_flatMap, List.map_flatMap]
  refine List.flatMap_congr fun e _ => ?_
  rw [missingIn, List.map_map]
  exact List.map_congr_left fun r _ => hfg e.2 r

theorem mem_refsWithin {r : Reference} : r ∈ refsWithin depth v ↔ Occurs r depth v := by
  -- in a scope that holds nothing every reference is missing
  let nowhere : Scope := ⟨[], []⟩
  have hmissing : (nowhere.resolve depth v).unresolved.map Unresolved.reference = refsWithin depth v := by
    rw [nowhere.map_unresolved Unresolved.reference id (fun _ _ => rfl), List.map_id]
    exact List.filter_eq_self.mpr fun _ _ => rfl
  rw [← hmissing, List.mem_map]
  constructor
  · rintro ⟨u, hu, rfl⟩
    exact (nowhere.occurs_of_unresolved hu).1
  · exact fun h => nowhere.unresolved_of_occurs h rfl

theorem ofExpr_of_mem_refsWithin {r : Reference} (h : r ∈ refsWithin depth v) : r = .ofExpr r.expr :=
  Template.ofExpr_of_mem_extractRefs (mem_extractRefs_of_refsWithin h)

/-- The references of a value that find nothing, each once, in the order in which they first occur. -/
structure ListsMissing (depth : Nat) (v : Json) (refs : List Reference) : Prop where
  nodup : refs.Nodup
  members : ∀ r, r ∈ refs ↔ Occurs r depth v ∧ scope.lookup? r = none
  in_order : refs.Pairwise fun r q => (refsWithin depth v).idxOf r < (refsWithin depth v).idxOf q

theorem listsMissing (depth : Nat) (v : Json) :
    scope.ListsMissing depth v ((refsWithin depth v).eraseDups.filter fun r => (scope.lookup? r).isNone) where
  nodup := (nodup_eraseDups _).filter _
  members r := by rw [List.mem_filter, List.mem_eraseDups, mem_refsWithin, Option.isNone_iff_eq_none]
  in_order := (eraseDups_in_order _).sublist List.filter_sublist

theorem missingPlaceholders_eq (depth : Nat) (v : Json) :
    missingPlaceholders (scope.resolve depth v).unresolved =
      ((refsWithin depth v).eraseDups.filter fun r => (scope.lookup? r).isNone).map Reference.placeholder := by
  rw [missingPlaceholders, scope.map_unresolved _ Reference.placeholder (fun _ _ => rfl), eraseDups_map,
    eraseDups_filter]
  intro r hr q hq h
  exact Reference.eq_of_placeholder_eq (ofExpr_of_mem_refsWithin (List.mem_filter.mp hr).1)
    (ofExpr_of_mem_refsWithin (List.mem_filter.mp hq).1) h

theorem joinedHints_eq (depth : Nat) (v : Json) :
    joinedHints (scope.resolve depth v).unresolved =
      Text.join "; " (((refsWithin depth v).filter fun r => (scope.lookup? r).isNone).map scope.hint) := by
  rw [joinedHints, scope.map_unresolved _ scope.hint fun _ _ => rfl]

/-- The first text of a value, down to a depth, that has a reference which finds nothing. -/
def FirstAmiss (depth : Nat) (v : Json) (text : String) : Prop :=
  ∃ before path after, v.textsWithin depth = before ++ (path, text) :: after ∧
    (∀ e ∈ before, ∀ r ∈ textRefs e.2, (scope.lookup? r).isSome) ∧ ∃ r ∈ textRefs text, scope.lookup? r = none

theorem firstAmiss_of_unresolved {first : Unresolved} {rest : List Unresolved}
    (h : (scope.resolve depth v).unresolved = first :: rest) : scope.FirstAmiss depth v first.source := by
  have hhead := congrArg List.head? h
  rw [unresolved_eq_flatMap, List.head?_flatMap, List.head?_cons, List.findSome?_eq_some_iff] at hhead
  obtain ⟨before, ⟨path, text⟩, after, htexts, hfirst, hbefore⟩ := hhead
  have hmem := List.mem_of_head? hfirst
  have hsource : first.source = text := by
    obtain ⟨r, _, rfl⟩ := List.mem_map.mp hmem
    rfl
  rw [hsource]
  refine ⟨before, path, after, htexts, fun e he r hr => ?_, first.reference, scope.mem_missingIn hmem⟩
  have hnone := List.map_eq_nil_iff.mp (List.head?_eq_none_iff.mp (hbefore e he))
  have hfound := List.filter_eq_nil_iff.mp hnone r hr
  rw [Bool.not_eq_true, Option.isNone_eq_false_iff] at hfound
  exact hfound

end Scope

/-! ### The problem with a parameter -/

theorem SemanticType.check_eq_error {type : SemanticType} {v : Json} {violation : TypeViolation}
    (h : type.check v = .error violation) :
    type.accepts v = false ∧ violation.expected = type.display ∧ violation.actual = v.typeName := by
  unfold check at h
  split at h
  · cases h
  · rename_i haccepts
    cases h
    exact ⟨Bool.eq_false_iff.mpr haccepts, rfl, rfl⟩

/-- What is found wrong with a parameter, if anything is. -/
structure ParamAccount (scope : Scope) (stepId : String) (declared : Assoc SemanticType) (depth : Nat) (key : String)
    (raw : Json) (issue? : Option Fault) : Prop where
  about : ∀ issue, issue? = some issue → issue.IsAbout stepId key
  unresolved : (∃ template names hint, issue? = some (.unresolvedTemplate stepId key template names hint)) ↔
    ∃ r, Occurs r depth raw ∧ scope.lookup? r = none
  /-- The problem names the missing references, quotes the first text that has one and hints at each occurrence. -/
  names : ∀ template names hint, issue? = some (.unresolvedTemplate stepId key template names hint) →
    (∃ refs, scope.ListsMissing depth raw refs ∧ names = refs.map Reference.placeholder) ∧
      scope.FirstAmiss depth raw template ∧
      hint = Text.join "; " (((Scope.refsWithin depth raw).filter fun r => (scope.lookup? r).isNone).map scope.hint)
  mismatched : ∀ template expected actual,
    (∃ hint, issue? = some (.typeMismatch stepId key template expected actual hint)) ↔
      raw = .str template ∧ ∃ r type v, simpleReference template = some r ∧ Assoc.get? declared key = some type ∧
        scope.lookup? r = some v ∧ type.accepts v = false ∧ expected = type.display ∧ actual = v.typeName

section
variable {scope : Scope} {stepId : String} {declared : Assoc SemanticType} {depth : Nat} {key : String} {raw : Json}

theorem paramIssue?_of_unresolved {r : Resolved} {first : Unresolved} {rest : List Unresolved}
    (h : r.unresolved = first :: rest) : paramIssue? stepId declared key raw r =
      some (.unresolvedTemplate stepId key first.source (missingPlaceholders r.unresolved)
        (joinedHints r.unresolved)) := by
  unfold paramIssue?
  simp only [h]

theorem paramIssue?_unresolved {r : Resolved} {template hint : String} {names : List String}
    (h : paramIssue? stepId declared key raw r = some (.unresolvedTemplate stepId key template names hint)) :
    ∃ first rest, r.unresolved = first :: rest ∧ template = first.source ∧
      names = missingPlaceholders r.unresolved ∧ hint = joinedHints r.unresolved := by
  cases hr : r.unresolved with
  | cons first rest =>
    rw [paramIssue?_of_unresolved hr, hr] at h
    cases h
    exact ⟨first, rest, rfl, rfl, rfl, rfl⟩
  | nil =>
    unfold paramIssue? at h
    rw [hr] at h
    simp only at h
    split at h
    · split at h
      · cases h
      · split at h <;> cases h
    · cases h

theorem paramIssue?_mismatch {r : Resolved} {template expected actual hint : String}
    (h : paramIssue? stepId declared key raw r = some (.typeMismatch stepId key template expected actual hint)) :
    r.unresolved = [] ∧ raw = .str template ∧ (simpleReference template).isSome ∧
      ∃ type, Assoc.get? declared key = some type ∧ type.check r.value = .error ⟨expected, actual, hint⟩ := by
  unfold paramIssue? at h
  split at h
  · cases h
  · rename_i hnil
    split at h
    · rename_i text type htype
      split at h
      · cases h
      · rename_i hsimple
        rw [Bool.not_eq_true, Option.isNone_eq_false_iff] at hsimple
        split at h
        · cases h
        · rename_i violation hcheck
          cases h
          exact ⟨hnil, rfl, hsimple, type, htype, hcheck⟩
    · cases h

theorem paramIssue?_of_mismatch {text : String} {r : Reference} {type : SemanticType} {v : Json}
    (hsimple : simpleReference text = some r) (htype : Assoc.get? declared key = some type)
    (hfound : scope.lookup? r = some v) (hrefused : type.accepts v = false) :
    ∃ hint, paramIssue? stepId declared key (.str text) (scope.resolve depth (.str text)) =
      some (.typeMismatch stepId key text type.display v.typeName hint) := by
  have hvalue : (scope.resolve depth (.str text)).value = v := by
    rw [scope.resolve_simpleReference depth hsimple, hfound]
    rfl
  have hcomplete : (scope.resolve depth (.str text)).unresolved = [] := by
    refine scope.resolve_isComplete_iff.mpr fun q hq => ?_
    obtain ⟨here⟩ := hq
    rw [Template.textRefs_of_simpleReference hsimple, List.mem_singleton] at here
    rw [here, hfound]
    rfl
  cases hcheck : type.check v with
  | ok _ =>
    rw [SemanticType.check_eq_ok_iff.mp hcheck] at hrefused
    cases hrefused
  | error violation =>
    obtain ⟨_, hexpected, hactual⟩ := SemanticType.check_eq_error hcheck
    refine ⟨violation.hint, ?_⟩
    unfold paramIssue?
    simp only [hcomplete, htype, hsimple, hvalue, hcheck, hexpected, hactual, Option.isNone_some, Bool.false_eq_true,
      if_false]

theorem paramIssue?_accounted : ParamAccount scope stepId declared depth key raw
    (paramIssue? stepId declared key raw (scope.resolve depth raw)) where
  about _ h := paramIssue?_isAbout h
  unresolved := by
    constructor
    · rintro ⟨template, names, hint, h⟩
      obtain ⟨first, rest, hcons, _⟩ := paramIssue?_unresolved h
      exact ⟨_, scope.occurs_of_unresolved (hcons ▸ List.mem_cons_self)⟩
    · rintro ⟨r, hr, hnone⟩
      obtain ⟨u, hu, _⟩ := scope.unresolved_of_occurs hr hnone
      obtain ⟨first, rest, hcons⟩ := List.exists_cons_of_ne_nil (List.ne_nil_of_mem hu)
      exact ⟨_, _, _, paramIssue?_of_unresolved hcons⟩
  names template names hint h := by
    obtain ⟨first, rest, hcons, rfl, rfl, rfl⟩ := paramIssue?_unresolved h
    exact ⟨⟨_, scope.listsMissing depth raw, scope.missingPlaceholders_eq depth raw⟩,
      scope.firstAmiss_of_unresolved hcons, scope.joinedHints_eq depth raw⟩
  mismatched template expected actual := by
    constructor
    · rintro ⟨hint, h⟩
      obtain ⟨hnil, rfl, hsimple, type, htype, hcheck⟩ := paramIssue?_mismatch h
      obtain ⟨r, hsimple⟩ := Option.isSome_iff_exists.mp hsimple
      obtain ⟨v, hfound⟩ := Option.isSome_iff_exists.mp
        (scope.resolve_isComplete_iff.mp hnil r (Template.occurs_of_simpleReference hsimple depth))
      rw [scope.resolve_simpleReference depth hsimple, hfound, Option.getD_some] at hcheck
      obtain ⟨hrefused, hexpected, hactual⟩ := SemanticType.check_eq_error hcheck
      exact ⟨rfl, r, type, v, hsimple, htype, hfound, hrefused, hexpected, hactual⟩
    · rintro ⟨rfl, r, type, v, hsimple, htype, hfound, hrefused, rfl, rfl⟩
      exact paramIssue?_of_mismatch hsimple htype hfound hrefused

end

/-! ### What the parameters come to -/

namespace Scope

variable (scope : Scope)

/-- What a text comes to: a single reference gives way to what it finds, whatever that is, and any other text is put
together. A reference that finds nothing stays as it is written. -/
def fill (text : String) : Json :=
  match simpleReference text with
  | some r => (scope.lookup? r).getD (.str r.placeholder)
  | none => .str (String.join ((Template.tokenize text).map scope.tokenText))

theorem resolveText_value (text : String) : (scope.resolveText text).value = scope.fill text := by
  unfold fill
  split
  · rename_i r hsimple
    have hvalue := scope.resolve_simpleReference 0 hsimple
    rw [((Template.simpleReference_iff text r).mp hsimple).2] at hvalue ⊢
    exact hvalue
  · rename_i hsimple
    exact scope.resolveText_of_pieces hsimple

theorem resolve_value_eq_fill (depth : Nat) (v : Json) :
    (scope.resolve depth v).value = v.mapTexts scope.fill depth := by
  rw [resolve_value]
  exact congrArg (v.mapTexts · depth) (funext scope.resolveText_value)

end Scope

/-- A call with all of its parameters filled in, and so many warnings more. -/
structure Call.FilledIn (call : Call) (templated : Fields) (depth : Nat) (warnings : List Warning) (inner : Call) :
    Prop where
  context : inner.context = call.context.warn warnings
  bindings : inner.bindings = call.bindings
  mode : inner.mode = call.mode
  present : ∀ key raw, (key, raw) ∈ templated →
    Assoc.get? inner.params key = some (raw.mapTexts call.scope.fill depth)
  others : ∀ key, key ∉ Assoc.keys templated → Assoc.get? inner.params key = Assoc.get? call.params key

theorem Call.filled_filledIn {templated : Fields} (hn : (Assoc.keys templated).Nodup) (call : Call) (depth : Nat)
    (warnings : List Warning) : call.FilledIn templated depth warnings (call.filled templated depth warnings) where
  context := rfl
  bindings := rfl
  mode := rfl
  present key raw hmem := by
    have hkeys : Assoc.keys (templated.map fun e => (e.1, (call.scope.resolve depth e.2).value)) =
        Assoc.keys templated := by
      rw [Assoc.keys, List.map_map]
      rfl
    have hvalue : Assoc.get? (templated.map fun e => (e.1, (call.scope.resolve depth e.2).value)) key =
        some (call.scope.resolve depth raw).value :=
      Assoc.get?_of_mem (hkeys ▸ hn) (List.mem_map.mpr ⟨(key, raw), hmem, rfl⟩)
    rw [Call.filled, Assoc.get?_putAll, Assoc.last?_eq_get? (hkeys ▸ hn), hvalue, Scope.resolve_value_eq_fill]
    rfl
  others key hkey := by
    rw [Call.filled, Assoc.get?_putAll, Assoc.last?_eq_none_of_not_mem, Option.none_or]
    rw [Assoc.keys, List.map_map]
    exact hkey

/-! ### The account of a step -/

/-- What the template layer does with a call, by what is found wrong with each parameter. -/
structure TemplateAccount (stepId : String) (templated : Fields) (declared : Assoc SemanticType) (depth : Nat)
    (inner : Layer) (call : Call) (issue? : String → Json → Option Fault) : Prop where
  each : ∀ key raw, (key, raw) ∈ templated →
    ParamAccount call.scope stepId declared depth key raw (issue? key raw)
  /-- Strict mode ends with the first problem and leaves the context, with its warnings, as it was. -/
  strict : call.mode = .strict → ∀ before key raw after issue, templated = before ++ (key, raw) :: after →
    (∀ e ∈ before, issue? e.1 e.2 = none) → issue? key raw = some issue →
      templateLayer stepId templated declared depth inner call = (.aborted issue, call.context)
  clean : (∀ e ∈ templated, issue? e.1 e.2 = none) →
    ∃ filled, call.FilledIn templated depth [] filled ∧
      templateLayer stepId templated declared depth inner call = inner filled
  permissive : call.mode = .permissive →
    ∃ filled, call.FilledIn templated depth
        ((templated.filterMap fun e => issue? e.1 e.2).map Warning.ofFault) filled ∧
      templateLayer stepId templated declared depth inner call = inner filled

theorem templateLayer_of_ok {stepId : String} {templated : Fields} {declared : Assoc SemanticType} {depth : Nat}
    {call filled : Call} (h : resolveParams stepId templated declared depth call = .ok filled) (inner : Layer) :
    templateLayer stepId templated declared depth inner call = inner filled := by
  rw [templateLayer, h]

/-- Each parameter has at most one problem. Strict mode aborts with the first of them and warns of nothing; permissive
mode warns of each and hands the call on with every parameter in it. -/
theorem params_are_accounted (stepId : String) {templated : Fields} (hn : (Assoc.keys templated).Nodup)
    (declared : Assoc SemanticType) (depth : Nat) (inner : Layer) (call : Call) :
    TemplateAccount stepId templated declared depth inner call
      fun key raw => paramIssue? stepId declared key raw (call.scope.resolve depth raw) where
  each _ _ _ := paramIssue?_accounted
  strict hmode before key raw after issue htemplated hbefore hissue := by
    have hissues : paramIssues stepId templated declared depth call.scope =
        issue :: paramIssues stepId after declared depth call.scope := by
      rw [paramIssues, htemplated, List.filterMap_append, List.filterMap_eq_nil_iff.mpr hbefore, List.nil_append]
      exact List.filterMap_cons_some hissue
    rw [templateLayer, resolveParams_strict hmode hissues]
  clean hnone := by
    have hissues : paramIssues stepId templated declared depth call.scope = [] := List.filterMap_eq_nil_iff.mpr hnone
    exact ⟨_, call.filled_filledIn hn depth [], templateLayer_of_ok (resolveParams_of_no_issues hissues) inner⟩
  permissive hmode :=
    ⟨_, call.filled_filledIn hn depth _, templateLayer_of_ok (resolveParams_permissive hmode) inner⟩

/-- A number stands where a text is declared, and two references find nothing, one of them twice. The call goes on with
both parameters and a warning for each. -/
theorem params_are_accounted_mismatch_and_missing :
    let templated : Fields :=
      [("count", .str "$\x7bn\x7d"),
        ("note", .arr [.str "$\x7by\x7d, $\x7bz\x7d", .str "$\x7by\x7d, $\x7bn\x7d"])]
    let declared : Assoc SemanticType := [("count", ⟨[.str]⟩)]
    let call : Call := ⟨.start [("n", .nat 1)] .empty, [], [], .permissive⟩
    let mismatch : Warning :=
      ⟨some "s", "WEAVE-041: Node 's' parameter 'count': '$\x7bn\x7d' resolved to int, expected str", .resolution,
        none, none⟩
    let missing : Warning :=
      ⟨some "s", "WEAVE-040: Node 's' parameter 'note': unresolved reference(s) $\x7by\x7d, $\x7bz\x7d in " ++
        "'$\x7by\x7d, $\x7bz\x7d'", .resolution, none, none⟩
    (Assoc.keys templated).Nodup ∧ ∀ inner : Layer, ∃ filled,
      call.FilledIn templated 1 [mismatch, missing] filled ∧
      Assoc.get? filled.params "count" = some (.nat 1) ∧
      Assoc.get? filled.params "note" = some (.arr [.str "$\x7by\x7d, $\x7bz\x7d", .str "$\x7by\x7d, 1"]) ∧
      templateLayer "s" templated declared 1 inner call = inner filled := by
  intro templated declared call mismatch missing
  have hn : (Assoc.keys templated).Nodup := by decide
  refine ⟨hn, fun inner => ?_⟩
  obtain ⟨filled, hfilled, hrun⟩ := (params_are_accounted "s" hn declared 1 inner call).permissive rfl
  have hwarnings : (templated.filterMap fun e => paramIssue? "s" declared e.1 e.2 (call.scope.resolve 1 e.2)).map
      Warning.ofFault = [mismatch, missing] := by
    decide +kernel
  have hcount := hfilled.present "count" _ List.mem_cons_self
  have hnote := hfilled.present "note" _ (List.mem_cons_of_mem _ List.mem_cons_self)
  refine ⟨filled, hwarnings ▸ hfilled, hcount.trans ?_, hnote.trans ?_, hrun⟩
  · decide +kernel
  · decide +kernel

end Workflow
