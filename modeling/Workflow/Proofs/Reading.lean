import Workflow.Proofs.Namespaces

/-! What a reference to a step reads. What the step came to stands under its id as soon as it has ended, whatever the
id, as long as the id does not have the form of the names that belong to the run. References find it there, unless a
bound value of the same name comes first. -/

namespace Workflow

/-- What a step has under its id once it has come to an outcome. -/
def StepOutcome.value? : StepOutcome → Option Json
  | .completed values _ => some (.obj values)
  | .failed failure => some (.obj [("error", .str failure.message)])
  | .aborted _ => none

theorem Visit.Stored.get?_own {v : Visit} (h : v.Stored) (hid : isReserved v.stepId = false) {value : Json}
    (hvalue : v.outcome.value? = some value) : Assoc.get? v.after.data v.stepId = some value := by
  have hgoes : ∀ fault, v.outcome ≠ .aborted fault := by
    intro fault haborted
    rw [haborted] at hvalue
    cases hvalue
  rcases h.own_value hid hgoes with ⟨values, action, houtcome, hafter⟩ | ⟨failure, houtcome, hafter⟩
  all_goals
    rw [houtcome] at hvalue
    rw [hafter, ← hvalue]
    rfl

/-! ### Until another step is taken -/

/-- What a step leaves under a key is there when a later step is taken, if no step between them touches the key. -/
theorem Level.get?_before_later {level : Level} {units : UnitMaker} {taken between later : List Visit} {v w : Visit}
    (hv : (level.run units).visits = taken ++ v :: (between ++ w :: later)) {key : String}
    (hkept : ∀ u ∈ between, Assoc.get? u.after.data key = Assoc.get? u.before.data key) :
    Assoc.get? w.before.data key = Assoc.get? v.after.data key := by
  rcases level.run_cases units with ⟨_, _, hrun⟩ | ⟨_, walked, hrun, htrail⟩
  · rw [hrun] at hv
    exact absurd hv.symm (by simp [Report.failing])
  · rw [hrun, Walk.report_visits] at hv
    have htail := htrail.split hv
    generalize hrest : between ++ w :: later = rest at htail
    cases htail with
    | stop => exact absurd hrest (by simp)
    | go _ _ onward =>
      rcases onward.value_before hrest.symm (fun _ => False) fun u hu _ => hkept u hu with hbefore | ⟨_, _, hchange, _⟩
      · rw [hbefore, v.left_data.1]
      · exact hchange.elim

/-! ### References -/

/-- In the attempts of a step a name other than that of the item stands for what it stands for in the call. -/
theorem Pipeline.attempts_root? {p : Pipeline} {unit : LeafUnit} {call a : Call} (ha : a ∈ p.attempts unit call)
    {name : String} (hname : ∀ batch, p.batch = some batch → batch.itemName ≠ name) :
    a.scope.root? name = call.scope.root? name := by
  rcases mem_attempts ha with ⟨_, rfl⟩ | ⟨batch, item, hbatch, rfl⟩
  · rfl
  · have hbound : Assoc.get? (itemCall batch.itemName call item).bindings name = Assoc.get? call.bindings name := by
      rw [itemCall, Assoc.get?_put, if_neg (hname batch hbatch)]
    rw [Scope.root?, Call.scope, hbound]
    rfl

/-- A name that has a value in the data is read as that value, unless it is bound. -/
theorem Scope.lookup?_of_data {scope : Scope} {r : Reference} {value : Json}
    (h : Assoc.get? scope.data r.base = some value) :
    scope.lookup? r = (((Assoc.get? scope.bindings r.base).getD value).traverse r.path).toOption := by
  rw [lookup?, root?, h]
  cases Assoc.get? scope.bindings r.base <;> rfl

/-- What a step came to stands under its id: its output, or the message of its failure. It is what a reference to the
step reads, first of all in the call and in every attempt of the step that is taken next, unless the name is bound. -/
theorem Level.references_read_outcome {registry : Registry} {options : PlanOptions} {d : Document} {level : Level}
    {units : UnitMaker} (hbuild : Plan.build registry options d = .ok level.plan) {taken rest : List Visit} {v : Visit}
    (hv : (level.run units).visits = taken ++ v :: rest) (hid : isReserved v.stepId = false) {value : Json}
    (hvalue : v.outcome.value? = some value) :
    Assoc.get? v.after.data v.stepId = some value ∧
      ∀ r : Reference, r.base = v.stepId →
        let read := (((Assoc.get? level.bindings v.stepId).getD value).traverse r.path).toOption
        Scope.lookup? ⟨level.bindings, v.after.data⟩ r = read ∧
          ∀ between w later, rest = between ++ w :: later →
            (∀ u ∈ between, Assoc.get? u.after.data v.stepId = Assoc.get? u.before.data v.stepId) →
              ∀ p, level.plan.pipeline? w.stepId = some p →
                ∀ a ∈ level.call w :: p.attempts (units p.implementation p.site) (level.call w),
                  a.scope.lookup? r = read := by
  have hmem : v ∈ (level.run units).visits := hv ▸ List.mem_append_right _ List.mem_cons_self
  have hown : Assoc.get? v.after.data v.stepId = some value := by
    have hb : level.Built ⟨registry, .empty⟩ options.limits := ⟨options, d, rfl, hbuild⟩
    obtain ⟨p, c, _, _, hstored⟩ := visit_stores hb hmem
    exact hstored.get?_own hid hvalue
  refine ⟨hown, fun r hbase => ?_⟩
  rw [← hbase] at hown
  simp only [← hbase]
  refine ⟨Scope.lookup?_of_data hown, ?_⟩
  rintro between w later rfl hkept p hp a ha
  have hbefore : Assoc.get? (level.call w).scope.data r.base = some value :=
    (get?_before_later hv hkept).trans hown
  have hcall := Scope.lookup?_of_data hbefore
  rcases List.mem_cons.mp ha with rfl | ha
  · exact hcall
  · have hdeclared : r.base ∈ d.stepIds := hbase ▸ (visits_nodup hbuild units).2 v hmem
    obtain ⟨stages, hpassed, _⟩ := Plan.build_eq_ok_iff.mp hbuild
    obtain ⟨step, hstep, entry, _, _, rfl⟩ := Plan.pipeline?_eq_some hbuild hp
    have hroot : a.scope.root? r.base = (level.call w).scope.root? r.base :=
      Pipeline.attempts_root? ha fun batch hbatch => Document.itemName_ne hpassed.identity hstep hbatch hdeclared
    rw [Scope.lookup?, hroot]
    exact hcall

def readingDocument (stepId : String) : Document where
  version := "1"
  name := none
  start := none
  steps :=
    [⟨stepId, "echo", none, [("v", .nat 1)], none⟩,
      ⟨"tell", "echo", none, [("n", .str ("$\x7b" ++ stepId ++ ".v\x7d"))], none⟩]
  edges := [⟨stepId, "tell", none⟩]
  inputs := []
  outputs := []
  mode := .strict

theorem references_read_outcome_first :
    ∃ host : Host, ∃ plan, host.plan (readingDocument "first") [] {} = .ok plan ∧
      ∃ v w, (host.report (plan.top [])).visits = [v, w] ∧ isReserved v.stepId = false ∧
        v.outcome.value? = some (.obj [("v", .nat 1)]) ∧
        Assoc.get? v.after.data "first" = some (.obj [("v", .nat 1)]) ∧
        ((plan.top []).call w).scope.lookup? (.ofExpr "first.v") = some (.nat 1) := by
  let host : Host := ⟨.builtin, .empty⟩
  have hended : ((host.plan (readingDocument "first") [] {}).toOption.any fun plan =>
      ((host.report (plan.top [])).visits.map Visit.stepId = ["first", "tell"] &&
        (host.report (plan.top [])).visits.head?.any fun v =>
          v.outcome.value? = some (.obj [("v", .nat 1)])) &&
      (Assoc.get? (plan.top []).bindings "first").isNone && (plan.pipeline? "tell").isSome) = true := by
    decide +kernel
  obtain ⟨plan, hp, hended⟩ := any_toOption.mp hended
  simp only [Bool.and_eq_true, decide_eq_true_eq, Option.isNone_iff_eq_none, Option.isSome_iff_exists] at hended
  obtain ⟨⟨⟨hids, hvalue⟩, hfree⟩, pipeline, hpipeline⟩ := hended
  obtain ⟨v, last, hvisits, hv, hlast⟩ := List.map_eq_cons_iff.mp hids
  obtain ⟨w, _, rfl, hw, hnone⟩ := List.map_eq_cons_iff.mp hlast
  cases List.map_eq_nil_iff.mp hnone
  rw [hvisits] at hvalue
  have hvalue : v.outcome.value? = some (.obj [("v", .nat 1)]) := of_decide_eq_true hvalue
  have hid : isReserved v.stepId = false := by
    rw [hv]
    decide
  have hsplit : ((plan.top []).run (host.units plan.limits.maxDepth)).visits = [] ++ v :: [w] := hvisits
  have hbuild : Plan.build host.registry {} (readingDocument "first") = .ok (plan.top []).plan := hp
  obtain ⟨hown, hreads⟩ := Level.references_read_outcome hbuild hsplit hid hvalue
  obtain ⟨_, hlater⟩ := hreads (.ofExpr "first.v") (by rw [hv]; decide +kernel)
  have hread := hlater [] w [] rfl (fun u hu => absurd hu List.not_mem_nil) pipeline (hw ▸ hpipeline) _
    List.mem_cons_self
  rw [hv] at hown hread
  rw [hfree] at hread
  exact ⟨host, plan, hp, v, w, hvisits, hid, hvalue, hown, hread.trans (by decide +kernel)⟩

/-- An id of the form that belongs to the run is let pass as well, but nothing ever stands under it. -/
theorem reserved_id_holds_nothing :
    (Document.ofValue (readingDocument "__x__").toJson).toOption = some (readingDocument "__x__") ∧
      ∃ host : Host, ∃ plan, host.plan (readingDocument "__x__") [] {} = .ok plan ∧
        ∃ v w, (host.report (plan.top [])).visits = [v, w] ∧ v.stepId = "__x__" ∧
          v.outcome = .completed [("v", .nat 1)] defaultAction ∧ Assoc.get? v.after.data "__x__" = none ∧
          ((plan.top []).call w).scope.lookup? (.ofExpr "__x__.v") = none := by
  refine ⟨by decide +kernel, ⟨.builtin, .empty⟩, ?_⟩
  have hended : (((Host.mk .builtin .empty).plan (readingDocument "__x__") [] {}).toOption.any fun plan =>
      ((Host.mk .builtin .empty).report (plan.top [])).visits.map Visit.stepId = ["__x__", "tell"] &&
        ((Host.mk .builtin .empty).report (plan.top [])).visits.head?.any (fun v =>
          v.outcome = .completed [("v", .nat 1)] defaultAction && (Assoc.get? v.after.data "__x__").isNone) &&
        ((Host.mk .builtin .empty).report (plan.top [])).visits.getLast?.any (fun w =>
          (((plan.top []).call w).scope.lookup? (.ofExpr "__x__.v")).isNone)) = true := by
    decide +kernel
  obtain ⟨plan, hp, hended⟩ := any_toOption.mp hended
  simp only [Bool.and_eq_true, decide_eq_true_eq] at hended
  obtain ⟨⟨hids, hfirst⟩, hlast⟩ := hended
  obtain ⟨v, rest, hvisits, hid, hrest⟩ := List.map_eq_cons_iff.mp hids
  obtain ⟨w, _, rfl, _, hnil⟩ := List.map_eq_cons_iff.mp hrest
  cases List.map_eq_nil_iff.mp hnil
  rw [hvisits] at hfirst hlast
  simp only [List.head?_cons, Option.any_some, Bool.and_eq_true, decide_eq_true_eq, Option.isNone_iff_eq_none] at hfirst
  have hread : ((plan.top []).call w).scope.lookup? (.ofExpr "__x__.v") = none := Option.isNone_iff_eq_none.mp hlast
  exact ⟨plan, hp, v, w, hvisits, hid, hfirst.1, hfirst.2, hread⟩

end Workflow
