import Workflow.Proofs.Summaries
import Workflow.Proofs.Tokenizing

/-! What becomes of mapped outputs. A key of the mapping is read as a reference, over the outputs of the child first and
its data second, and a key that is none is not read at all. What is found is stored under the target of the entry, where
the last entry counts, and for an entry that finds nothing there is a warning. Only entries whose target is a text are
looked at; one with any other target is neither stored nor warned of. -/

namespace Workflow

theorem Assoc.last?_eq_some_iff {β : Type} {m : Assoc β} {key : String} {v : β} :
    last? m key = some v ↔ ∃ before after, m = before ++ (key, v) :: after ∧ key ∉ keys after := by
  induction m with
  | nil => simp
  | cons e rest ih =>
    obtain ⟨k, w⟩ := e
    rw [last?_cons]
    by_cases hlater : key ∈ keys rest
    · obtain ⟨u, hu⟩ := Option.isSome_iff_exists.mp ((last?_isSome_iff rest key).mpr hlater)
      rw [hu, Option.some_or, ← hu, ih]
      constructor
      · rintro ⟨before, after, rfl, hafter⟩
        exact ⟨(k, w) :: before, after, rfl, hafter⟩
      · rintro ⟨before, after, heq, hafter⟩
        cases before with
        | nil =>
          cases heq
          exact absurd hlater hafter
        | cons d before =>
          cases heq
          exact ⟨before, after, rfl, hafter⟩
    · rw [last?_eq_none_of_not_mem hlater, Option.none_or]
      constructor
      · intro h
        split at h
        · rename_i hkey
          cases h
          exact ⟨[], rest, by rw [hkey]; rfl, hlater⟩
        · cases h
      · rintro ⟨before, after, heq, hafter⟩
        cases before with
        | nil =>
          cases heq
          exact if_pos rfl
        | cons d before =>
          cases heq
          exact absurd (by simp [keys]) hlater

namespace Subworkflow

open Template (SpellsExpr simpleReference)

structure ReadsKey (outputs data : Fields) (childKey : String) : Prop where
  /-- The outputs come before the data. -/
  inside : SpellsExpr childKey.toList → ∀ r, r = Reference.ofExpr childKey →
    lookupKey ⟨outputs, data⟩ childKey =
      ((Assoc.get? outputs r.base).or (Assoc.get? data r.base)).bind fun root => (root.traverse r.path).toOption
  /-- There is no reference that could be looked up. -/
  outside : ¬ SpellsExpr childKey.toList →
    simpleReference ("$\x7b" ++ childKey ++ "\x7d") = none ∧ lookupKey ⟨outputs, data⟩ childKey = none

theorem readsKey (outputs data : Fields) (childKey : String) : ReadsKey outputs data childKey where
  inside hspelled r hr := by
    rw [lookupKey, (Template.simpleReference_written childKey r).mpr ⟨hspelled, hr⟩]
    rfl
  outside hspelled := by
    have hnone : simpleReference ("$\x7b" ++ childKey ++ "\x7d") = none := by
      rw [Option.eq_none_iff_forall_ne_some]
      exact fun r hr => hspelled ((Template.simpleReference_written childKey r).mp hr).1
    rw [lookupKey, hnone]
    exact ⟨rfl, rfl⟩

/-! ### Entries -/

/-- A warning of a step that names the key and the target of an entry. -/
structure TellsOfEntry (stepId childKey target : String) (w : Warning) : Prop where
  step : w.stepId = some stepId
  message : w.message = s!"Output mapping '{childKey}' -> '{target}' found nothing in the sub-workflow results"
  category : w.category = .execution
  plain : w.outputType = none ∧ w.nestedPath = none

theorem tellsOfEntry_iff {stepId childKey target : String} {w : Warning} :
    TellsOfEntry stepId childKey target w ↔ w = mappingWarning stepId childKey target := by
  constructor
  · rintro ⟨hstep, hmessage, hcategory, htype, hpath⟩
    cases w
    subst hstep hmessage hcategory htype hpath
    rfl
  · rintro rfl
    exact ⟨rfl, rfl, rfl, rfl, rfl⟩

/-- What the entries of a mapping come to, in a scope: the values that are stored and the warnings that are left. -/
structure MapsTo (stepId : String) (scope : Scope) (mapping values : Fields) (missing : List Warning) : Prop where
  /-- No entry with a text as target is lost. -/
  settled : ∀ childKey target, (childKey, .str target) ∈ mapping →
    ((lookupKey scope childKey).isSome ∧ (Assoc.get? values target).isSome) ∨
      (lookupKey scope childKey = none ∧ ∃ w ∈ missing, TellsOfEntry stepId childKey target w)
  /-- A target has what is found by the last of its entries that finds anything. -/
  stored : ∀ target v, Assoc.get? values target = some v ↔ ∃ before childKey after,
    mapping = before ++ (childKey, .str target) :: after ∧ lookupKey scope childKey = some v ∧
      ∀ later, (later, .str target) ∈ after → lookupKey scope later = none
  warned : ∀ w, w ∈ missing ↔ ∃ childKey target, (childKey, .str target) ∈ mapping ∧
    lookupKey scope childKey = none ∧ TellsOfEntry stepId childKey target w

def mapped? (scope : Scope) (e : String × Json) : Option (String × Json) :=
  e.2.asString?.bind fun target => (lookupKey scope e.1).map fun v => (target, v)

theorem mapped?_eq_some {scope : Scope} {e : String × Json} {target : String} {v : Json} :
    mapped? scope e = some (target, v) ↔ e.2 = .str target ∧ lookupKey scope e.1 = some v := by
  obtain ⟨childKey, w⟩ := e
  cases w with
  | str text =>
    simp only [mapped?, Json.asString?, Option.bind_some, Option.map_eq_some_iff, Prod.mk.injEq, Json.str.injEq]
    constructor
    · rintro ⟨u, hu, rfl, rfl⟩
      exact ⟨rfl, hu⟩
    · rintro ⟨rfl, hv⟩
      exact ⟨v, hv, rfl, rfl⟩
  | _ => simp [mapped?, Json.asString?]

theorem mem_keys_mapped {scope : Scope} {mapping : Fields} {target : String} :
    target ∈ Assoc.keys (mapping.filterMap (mapped? scope)) ↔
      ∃ childKey, (childKey, .str target) ∈ mapping ∧ (lookupKey scope childKey).isSome := by
  rw [Assoc.keys, List.mem_map]
  constructor
  · rintro ⟨⟨found, v⟩, hmem, rfl⟩
    obtain ⟨⟨childKey, w⟩, he, hmapped⟩ := List.mem_filterMap.mp hmem
    obtain ⟨rfl, hv⟩ := mapped?_eq_some.mp hmapped
    exact ⟨childKey, he, by rw [hv]; rfl⟩
  · rintro ⟨childKey, he, hsome⟩
    obtain ⟨v, hv⟩ := Option.isSome_iff_exists.mp hsome
    exact ⟨(target, v), List.mem_filterMap.mpr ⟨_, he, mapped?_eq_some.mpr ⟨rfl, hv⟩⟩, rfl⟩

variable (stepId : String) (scope : Scope) (mapping : Fields)

theorem get?_mapOutputs (target : String) :
    Assoc.get? (mapOutputs stepId scope mapping).1 target =
      Assoc.last? (mapping.filterMap (mapped? scope)) target := by
  have hvalues : (mapOutputs stepId scope mapping).1 = Assoc.ofList (mapping.filterMap (mapped? scope)) := by
    unfold mapOutputs mapped?
    simp only [List.filterMap_filterMap]
    refine congrArg Assoc.ofList (List.filterMap_congr fun e _ => ?_)
    cases e.2.asString? <;> rfl
  rw [hvalues, Assoc.ofList, Assoc.get?_putAll, Assoc.get?_nil, Option.or_none]

theorem mem_mapOutputs_missing {w : Warning} :
    w ∈ (mapOutputs stepId scope mapping).2 ↔ ∃ childKey target, (childKey, .str target) ∈ mapping ∧
      lookupKey scope childKey = none ∧ TellsOfEntry stepId childKey target w := by
  simp only [tellsOfEntry_iff]
  unfold mapOutputs
  simp only [List.filterMap_filterMap, List.mem_filterMap]
  constructor
  · rintro ⟨⟨childKey, v⟩, he, hw⟩
    cases v with
    | str target =>
      simp only [Json.asString?, Option.map_some, Option.bind_some] at hw
      split at hw
      · rename_i hnone
        exact ⟨childKey, target, he, Option.isNone_iff_eq_none.mp hnone, (Option.some.inj hw).symm⟩
      · cases hw
    | _ => cases hw
  · rintro ⟨childKey, target, he, hnone, rfl⟩
    refine ⟨_, he, ?_⟩
    simp only [Json.asString?, Option.map_some, Option.bind_some, hnone, Option.isNone_none, if_true]

theorem mapsTo_mapOutputs :
    MapsTo stepId scope mapping (mapOutputs stepId scope mapping).1 (mapOutputs stepId scope mapping).2 where
  settled childKey target he := by
    rw [get?_mapOutputs, Assoc.last?_isSome_iff, mem_keys_mapped]
    cases hv : lookupKey scope childKey with
    | some v => exact .inl ⟨rfl, childKey, he, by rw [hv]; rfl⟩
    | none =>
      have htold : TellsOfEntry stepId childKey target (mappingWarning stepId childKey target) :=
        tellsOfEntry_iff.mpr rfl
      exact .inr ⟨rfl, _, (mem_mapOutputs_missing stepId scope mapping).mpr ⟨childKey, target, he, hv, htold⟩, htold⟩
  stored target v := by
    rw [get?_mapOutputs, Assoc.last?_eq_some_iff]
    constructor
    · rintro ⟨earlier, later, heq, hlater⟩
      obtain ⟨before, rest, rfl, _, hrest⟩ := List.filterMap_eq_append_iff.mp heq
      obtain ⟨skipped, ⟨childKey, w⟩, after, rfl, _, hmapped, rfl⟩ := List.filterMap_eq_cons_iff.mp hrest
      obtain ⟨rfl, hv⟩ := mapped?_eq_some.mp hmapped
      refine ⟨before ++ skipped, childKey, after, (List.append_assoc _ _ _).symm, hv, fun other hother => ?_⟩
      by_contra hsome
      exact hlater (mem_keys_mapped.mpr ⟨other, hother, Option.isSome_iff_ne_none.mpr hsome⟩)
    · rintro ⟨before, childKey, after, rfl, hv, hafter⟩
      have hfirst : mapped? scope (childKey, .str target) = some (target, v) := mapped?_eq_some.mpr ⟨rfl, hv⟩
      refine ⟨before.filterMap (mapped? scope), after.filterMap (mapped? scope), ?_, fun hmem => ?_⟩
      · rw [List.filterMap_append, List.filterMap_cons_some hfirst]
      · obtain ⟨other, hother, hsome⟩ := mem_keys_mapped.mp hmem
        rw [hafter other hother] at hsome
        cases hsome
  warned _ := mem_mapOutputs_missing stepId scope mapping

end Subworkflow

/-! ### Steps -/

namespace Host

variable {host : Host} {p : Pipeline} {a : Call} {params : Fields} {c : Context} {child : Level}

/-- A step whose child has ended takes over what the child hands back. -/
theorem core_of_ended {run : Level → Report} (h : p.handed a = .ok (params, c))
    (hchild : host.child? p a = some (.ok child)) (hcandid : (run child).Candid)
    (hended : (run child).status ≠ .failed) :
    ∃ i, Subworkflow.invocation host.files p.site params c = .ok i ∧ ∀ context output,
      Subworkflow.finish p.stepId c i.toJson (Subworkflow.childResult (run child)) = (context, output) →
        p.core (host.unitOf run p) a = (.completed output.values (output.action.getD defaultAction), context) := by
  obtain ⟨hw, call, hc, hopened⟩ := child?_eq_some hchild
  obtain ⟨_, hc', rfl, rfl⟩ := Pipeline.handed_eq_ok h
  rw [hc] at hc'
  cases hc'
  rw [opened_eq] at hopened
  obtain ⟨i, hi, hopen⟩ := bind_eq_ok.mp hopened
  refine ⟨i, hi, fun context output hfinish => ?_⟩
  rw [core_of_invocation hw hc hi, hopen]
  simp only [conclude, Subworkflow.judge_of_candid hcandid hended, hfinish]

/-- An attempt that maps the outputs of its child completes, if the child did. Every entry whose target is a text is
either stored or warned of: its key is read over the outputs of the child and then over its data, and a key outside the
grammar of references is not read at all. -/
theorem mapped_outputs_are_settled (host : Host) (levels : Nat) (h : p.handed a = .ok (params, c)) {mapping : Fields}
    (hmapping : Subworkflow.objectParam params "output_mapping" = .ok mapping) (hne : mapping ≠ [])
    (hchild : host.child? p a = some (.ok child)) {report : Report} (hreport : report = host.runWithin levels child)
    (hended : report.status ≠ .failed) :
    ∃ values missing after,
      p.attempt (host.unitOf (host.runWithin levels) p) a = (.completed values defaultAction, after) ∧
      after.journal.warnings = c.journal.warnings ++ report.context.journal.warnings ++ missing ∧
      (isReserved p.stepId = false → Assoc.get? after.data p.stepId = some (.obj values)) ∧
      Subworkflow.MapsTo p.stepId ⟨report.outputs, report.context.data⟩ mapping values missing ∧
      ∀ childKey, Subworkflow.ReadsKey report.outputs report.context.data childKey := by
  subst hreport
  have hcandid := Report.candid_of_settled (host.runWithin_settled levels child)
  obtain ⟨i, hi, hcore⟩ := core_of_ended h hchild hcandid hended
  have hwritten : Subworkflow.memberObject i.toJson "output_mapping" = mapping :=
    Except.ok.inj ((Subworkflow.prepares_of_invocation hi).outputMapping.symm.trans hmapping)
  have hempty : ¬ mapping.isEmpty = true := fun hnil => hne (List.isEmpty_iff.mp hnil)
  obtain ⟨hwarnings, houtput⟩ :=
    Subworkflow.finish_childResult p.stepId c i.toJson (host.runWithin levels child)
  rcases hfinish : Subworkflow.finish p.stepId c i.toJson (Subworkflow.childResult (host.runWithin levels child))
    with ⟨context, output⟩
  have hmaps := Subworkflow.mapsTo_mapOutputs p.stepId
    ⟨(host.runWithin levels child).outputs, (host.runWithin levels child).context.data⟩ mapping
  simp only [hfinish, hwritten, if_neg hempty] at hwarnings houtput
  generalize Subworkflow.mapOutputs p.stepId _ mapping = mapped at hwarnings houtput hmaps
  subst houtput
  refine ⟨mapped.1, mapped.2, context.commit p.stepId mapped.1, ?_, ?_, fun hid => ?_, hmaps, fun childKey =>
    Subworkflow.readsKey _ _ childKey⟩
  · rw [Pipeline.attempt, namespaceLayer, hcore context _ hfinish]
    rfl
  · rw [Context.commit_journal, hwarnings]
  · rw [Context.get?_commit _ _ _ hid, if_pos rfl]

end Host

def relayPipeline (mapping : Fields) : Pipeline where
  site := ⟨"relay", .standard, none⟩
  implementation := .subworkflow
  literals :=
    [("workflow_ir", .obj [("nodes", .arr [.obj [("id", .str "count"), ("type", .str "echo"),
        ("params", .obj [("first", .int 1), ("second", .int 2)])]])]),
      ("output_mapping", .obj mapping)]
  templated := []
  declared := []
  batch := none

/-- Two entries find something for the same target, and the last of them counts, since what stands behind it finds
nothing. A key with a dollar sign is no reference. Of both keys that find nothing there is a warning. -/
theorem mapped_outputs_are_settled_relay :
    let p := relayPipeline [("count.first", .str "n"), ("$\x7bfirst\x7d", .str "text"), ("count.second", .str "n"),
      ("third", .str "n")]
    let call : Call := ⟨.start [] .empty, [], [], .strict⟩
    ∃ values after, p.attempt ((Host.mk .builtin .empty).unitOf ((Host.mk .builtin .empty).runWithin 1) p) call =
        (.completed values defaultAction, after) ∧
      Assoc.get? values "n" = some (.int 2) ∧
      ⟨"relay", "Output mapping '$\x7bfirst\x7d' -> 'text' found nothing in the sub-workflow results", .execution,
        none, none⟩ ∈ after.journal.warnings ∧
      ⟨"relay", "Output mapping 'third' -> 'n' found nothing in the sub-workflow results", .execution, none, none⟩ ∈
        after.journal.warnings := by
  intro p call
  let host : Host := ⟨.builtin, .empty⟩
  have hhanded : p.handed call = .ok (p.literals, call.context) := rfl
  have hopened : ((host.child? p call).any fun opened => opened.toOption.any fun child =>
      let report := host.runWithin 1 child
      let scope : Scope := ⟨report.outputs, report.context.data⟩
      decide (report.status ≠ .failed ∧ Subworkflow.lookupKey scope "count.second" = some (.int 2) ∧
        Subworkflow.lookupKey scope "third" = none)) = true := by
    decide +kernel
  obtain ⟨opened, hchild, hopened⟩ := (Option.any_eq_true _ _).mp hopened
  obtain ⟨child, rfl, hfacts⟩ := any_toOption.mp hopened
  obtain ⟨hended, hsecond, hthird⟩ := of_decide_eq_true hfacts
  obtain ⟨values, missing, after, hattempt, hwarnings, _, hmaps, hreads⟩ :=
    Host.mapped_outputs_are_settled host 1 hhanded rfl (List.cons_ne_nil _ _) hchild rfl hended
  have hdollar : ¬ Template.SpellsExpr "$\x7bfirst\x7d".toList := fun hspelled =>
    absurd hspelled.not_dollar (by decide)
  have hlost : ∀ w ∈ missing, w ∈ after.journal.warnings := fun w hw => by
    rw [hwarnings]
    exact List.mem_append_right _ hw
  refine ⟨values, after, hattempt, (hmaps.stored "n" _).mpr ?_, ?_, ?_⟩
  · refine ⟨[("count.first", .str "n"), ("$\x7bfirst\x7d", .str "text")], "count.second", [("third", .str "n")],
      rfl, hsecond, fun later hlater => ?_⟩
    cases List.mem_singleton.mp hlater
    exact hthird
  · exact hlost _ ((hmaps.warned _).mpr ⟨"$\x7bfirst\x7d", "text", by simp, ((hreads _).outside hdollar).2,
      rfl, rfl, rfl, rfl, rfl⟩)
  · exact hlost _ ((hmaps.warned _).mpr ⟨"third", "n", by simp, hthird, rfl, rfl, rfl, rfl, rfl⟩)

/-- The target is a number, so nothing is stored for the entry, and there is no warning of it. -/
theorem number_target_is_passed_over :
    let p := relayPipeline [("nope", .int 5)]
    let unit := (Host.mk .builtin .empty).unitOf ((Host.mk .builtin .empty).runWithin 1) p
    let ended := p.run unit (.start [] .empty) [] .strict
    ended.1 = .completed [] defaultAction ∧ ended.2.journal.warnings = [] := by
  decide +kernel

end Workflow
