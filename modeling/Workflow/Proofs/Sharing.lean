import Workflow.Proofs.Scoping

/-! What a child in shared mode leaves alone. It runs on a copy of the data of its caller, but guards only the names of
its own document, and all its data is taken over in the end. So a name that the caller guards keeps its value only as
long as nothing below names it or gives an output under it. -/

namespace Workflow

/-! ### What a step leaves under a key -/

namespace Context

structure Leaves (key : String) (c c' : Context) : Prop where
  value : Assoc.get? c'.data key = Assoc.get? c.data key
  guarded : c'.guarded = c.guarded

theorem leaves_carried (key : String) : Carried (Leaves key) where
  refl _ := ⟨rfl, rfl⟩
  trans h h' := ⟨h'.value.trans h.value, h'.guarded.trans h.guarded⟩
  warn _ _ := ⟨rfl, rfl⟩

theorem KeepsData.leaves {c c' : Context} (h : KeepsData c c') (key : String) : Leaves key c c' :=
  ⟨by rw [h.data], h.guarded⟩

end Context

open Context (KeepsData Leaves leaves_carried)

/-- What a visit stores under a key that is not its own is what its output gives, and nothing if the key is guarded. -/
theorem Visit.Stored.leaves {v : Visit} (h : v.Stored) {key : String} (hkey : isReserved key = false)
    (hne : v.stepId ≠ key) (hfree : key ∈ v.before.guarded ∨ v.given key = none) : Leaves key v.before v.after := by
  refine ⟨?_, h.guarded⟩
  have hwrites : v.writes v.before.guarded key = none := by
    by_cases hguarded : key ∈ v.before.guarded
    · exact writes_of_guarded hguarded hne
    · rw [writes_of_free hguarded hne]
      exact hfree.resolve_left hguarded
  rw [h.get? hkey, hwrites, Option.none_or]

namespace Level

variable {host : Host} {limits : Limits} {level : Level} {units : UnitMaker}

theorem stepId_mem (hb : level.Built host limits) {v : Visit} (hv : v ∈ (level.run units).visits) :
    v.stepId ∈ level.plan.stepIds := by
  obtain ⟨options, d, _, hbuild⟩ := hb
  rw [Plan.stepIds_eq hbuild]
  exact (visits_nodup hbuild units).2 v hv

/-- A visit stores what it came to on top of what its one attempt leaves, or, for a batch, of what was before it. -/
theorem visit_stores (hb : level.Built host limits) {v : Visit} (hv : v ∈ (level.run units).visits) :
    ∃ p c, level.plan.pipeline? v.stepId = some p ∧
      (c = v.before ∨ p.batch = none ∧ c = (p.core (units p.implementation p.site) (level.call v)).2) ∧
      Visit.Stored { v with before := c } := by
  obtain ⟨p, hp, _⟩ := visit_eq hv
  obtain ⟨step, entry, hd⟩ := hb.declares hp
  obtain ⟨c, hc, hstores⟩ := p.layer_stores_core (units p.implementation p.site) (level.call v)
  rw [visit_layer hv hp, hd.stepId] at hstores
  exact ⟨_, c, hp, hc, hstores⟩

/-- A step leaves a key that is not its own, if its attempt does and if the key is guarded or its output does not give
it. -/
theorem visit_leaves (hb : level.Built host limits) {v : Visit} (hv : v ∈ (level.run units).visits) {key : String}
    (hkey : isReserved key = false) (hne : v.stepId ≠ key) (hfree : key ∈ v.before.guarded ∨ v.given key = none)
    (hcore : ∀ p, level.plan.pipeline? v.stepId = some p → p.batch = none →
      Leaves key v.before (p.core (units p.implementation p.site) (level.call v)).2) : Leaves key v.before v.after := by
  obtain ⟨p, c, hp, hc, hstored⟩ := visit_stores hb hv
  have hbefore : Leaves key v.before c := by
    rcases hc with rfl | ⟨hsingle, rfl⟩
    · exact (leaves_carried key).refl _
    · exact hcore p hp hsingle
  refine (leaves_carried key).trans hbefore (hstored.leaves hkey hne ?_)
  rw [hbefore.guarded]
  exact hfree

end Level

/-! ### Workflow steps -/

/-- The child that the step of a visit opens in shared mode. Items of a batch run on scratch copies, so what their
children do to the data is lost. -/
def Level.sharedChild? (host : Host) (level : Level) (v : Visit) : Option Level :=
  (level.plan.pipeline? v.stepId).bind fun p =>
    match p.batch, p.handed (level.call v), host.child? p (level.call v) with
    | none, .ok (params, _), some (.ok child) =>
      if Subworkflow.storageMode params = .ok .shared then some child else none
    | _, _, _ => none

/-- Neither a level nor a child in shared mode, its own or one of these, names a key, as a step, as an input or as a
parameter, or gives an output under it. -/
def Host.LeavesOut (host : Host) (key : String) : Nat → Level → Prop
  | 0, _ => True
  | levels + 1, level =>
    (key ∉ level.plan.stepIds ∧ key ∉ Assoc.keys level.plan.inputs ∧ key ∉ Assoc.keys level.params) ∧
      ∀ v ∈ (level.run (host.units levels)).visits,
        v.given key = none ∧ ∀ child ∈ level.sharedChild? host v, host.LeavesOut key levels child

instance Host.decidableLeavesOut (host : Host) (key : String) :
    (levels : Nat) → (level : Level) → Decidable (host.LeavesOut key levels level)
  | 0, _ => .isTrue trivial
  | levels + 1, level =>
    have : DecidablePred (host.LeavesOut key levels) := host.decidableLeavesOut key levels
    inferInstanceAs (Decidable (_ ∧ ∀ v ∈ (level.run (host.units levels)).visits,
      v.given key = none ∧ ∀ child ∈ level.sharedChild? host v, host.LeavesOut key levels child))

namespace Host

variable {host : Host} {run : Level → Report} {p : Pipeline} {a : Call} {key : String}

/-- An attempt of a workflow step in shared mode leaves under a key what its child leaves; in any other mode it touches
no data. -/
theorem subworkflow_leaves (hw : p.implementation = .subworkflow) (hkey : isReserved key = false)
    (hchild : ∀ params context, p.handed a = .ok (params, context) → Subworkflow.storageMode params = .ok .shared →
      ∀ child, host.child? p a = some (.ok child) →
        Assoc.get? (run child).context.data key = Assoc.get? child.context.data key) :
    Leaves key a.context (p.core (host.unitOf run p) a).2 := by
  refine Pipeline.core_keeps_of_phases (leaves_carried key) ?_
  intro params context prepared executed hhanded hprepared hexecuted
  obtain ⟨i, child, hi, rfl, hopened, hstart, rfl⟩ := child_of_executed hw hhanded hprepared hexecuted
  obtain ⟨hdata, hguarded⟩ :=
    Subworkflow.finish_data p.site.stepId context i.toJson (Subworkflow.childResult (run child))
  have hunit : ((host.unitOf run p).finalize context i.toJson (Subworkflow.childResult (run child))).1 =
      (Subworkflow.finish p.site.stepId context i.toJson (Subworkflow.childResult (run child))).1 := by
    rw [unitOf, hw]
    rfl
  rw [hunit]
  refine ⟨?_, hguarded⟩
  rw [hdata]
  split
  · rename_i hwritten
    have hprepares := Subworkflow.prepares_of_invocation hi
    have hmode := hprepares.mode
    obtain ⟨mapping, _, hcaller, _⟩ := hprepares.mapping
    rw [Subworkflow.shared_of_written hwritten] at hmode hcaller
    have hkept := hchild params context hhanded hmode child hopened
    rw [hstart, Context.get?_withoutReserved hkey, hcaller] at hkept
    rw [Context.get?_withoutReserved hkey]
    exact hkept
  · rfl

end Host

namespace Level

variable {host : Host} {limits : Limits} {level : Level} {run : Level → Report} {key : String}

theorem core_leaves (hreg : host.registry.Keeps KeepsData) (hb : level.Built host limits) {stepId : String}
    {p : Pipeline} (hp : level.plan.pipeline? stepId = some p) (hkey : isReserved key = false) {a : Call}
    (hchild : ∀ params context, p.handed a = .ok (params, context) → Subworkflow.storageMode params = .ok .shared →
      ∀ child, host.child? p a = some (.ok child) →
        Assoc.get? (run child).context.data key = Assoc.get? child.context.data key) :
    Leaves key a.context (p.core (host.unitOf run p) a).2 := by
  obtain ⟨step, entry, hd⟩ := hb.declares hp
  cases hw : p.implementation with
  | leaf make => exact (Pipeline.core_keeps KeepsData.carried (Host.unitOf_keeps_of_leaf hreg hd hw) a).leaves key
  | subworkflow => exact Host.subworkflow_leaves hw hkey hchild

/-- Binding inputs leaves a key that is neither an input nor a parameter. -/
theorem get?_enter_of_unbound (hbound : bindInputs level.plan.inputs level.params = .ok level.bindings)
    (hkey : isReserved key = false) (hinputs : key ∉ Assoc.keys level.plan.inputs)
    (hparams : key ∉ Assoc.keys level.params) :
    Assoc.get? (level.plan.enter level.context level.bindings).data key = Assoc.get? level.context.data key := by
  rw [Plan.get?_enter _ _ _ hkey, last?_bindings hbound hinputs, Assoc.last?_eq_none_of_not_mem hparams, Option.none_or]

theorem sharedChild?_of_child {v : Visit} {p : Pipeline} (hp : level.plan.pipeline? v.stepId = some p)
    (hsingle : p.batch = none) {params : Fields} {context : Context}
    (hhanded : p.handed (level.call v) = .ok (params, context))
    (hmode : Subworkflow.storageMode params = .ok .shared) {child : Level}
    (hchild : host.child? p (level.call v) = some (.ok child)) : level.sharedChild? host v = some child := by
  unfold sharedChild?
  simp only [hp, Option.bind_some, hsingle, hhanded, hchild, hmode, if_true]

/-- A step leaves a key that is not its own, if the child that it opens in shared mode does, and if the key is guarded or
its output does not give it. -/
theorem visit_leaves_of_child (hreg : host.registry.Keeps KeepsData) (hb : level.Built host limits) {v : Visit}
    (hv : v ∈ (level.run (host.unitsOver run)).visits) (hkey : isReserved key = false) (hne : v.stepId ≠ key)
    (hfree : key ∈ v.before.guarded ∨ v.given key = none)
    (hchild : ∀ child ∈ level.sharedChild? host v,
      Assoc.get? (run child).context.data key = Assoc.get? child.context.data key) : Leaves key v.before v.after := by
  refine visit_leaves hb hv hkey hne hfree fun p hp hsingle => ?_
  have hcore : Leaves key (level.call v).context (p.core (host.unitOf run p) (level.call v)).2 := by
    refine core_leaves hreg hb hp hkey fun params context hhanded hmode child hopened => hchild child ?_
    exact sharedChild?_of_child hp hsingle hhanded hmode hopened
  exact hcore

/-- One level: a key that nothing in it names or gives it leaves, if the children that it opens in shared mode do. -/
theorem run_leaves (hreg : host.registry.Keeps KeepsData) (hb : level.Built host limits) (hkey : isReserved key = false)
    (hids : key ∉ level.plan.stepIds) (hinputs : key ∉ Assoc.keys level.plan.inputs)
    (hparams : key ∉ Assoc.keys level.params)
    (hgiven : ∀ v ∈ (level.run (host.unitsOver run)).visits, v.given key = none)
    (hchildren : ∀ v ∈ (level.run (host.unitsOver run)).visits, ∀ child ∈ level.sharedChild? host v,
      Assoc.get? (run child).context.data key = Assoc.get? child.context.data key) :
    Assoc.get? (level.run (host.unitsOver run)).context.data key = Assoc.get? level.context.data key := by
  have hvisits : ∀ v ∈ (level.run (host.unitsOver run)).visits, Leaves key v.before v.after := by
    intro v hv
    refine visit_leaves_of_child hreg hb hv hkey ?_ (.inr (hgiven v hv)) (hchildren v hv)
    rintro rfl
    exact hids (stepId_mem hb hv)
  rcases level.run_cases (host.unitsOver run) with ⟨fault, _, hrun⟩ | ⟨hbound, w, hrun, htrail⟩
  · rw [hrun]
    rfl
  · rw [hrun, Walk.report_visits] at hvisits
    have hlast := (htrail.keeps (leaves_carried key) hvisits).1
    rw [hrun, Walk.report_data, hlast.value, get?_enter_of_unbound hbound hkey hinputs hparams]

/-- A child in shared mode is a level that an attempt of its step opens. -/
theorem opens_of_sharedChild? {v : Visit} (hv : v ∈ (level.run (host.unitsOver run)).visits) {child : Level}
    (hchild : child ∈ level.sharedChild? host v) : host.Opens run level child := by
  obtain ⟨p, hp, h⟩ := Option.bind_eq_some_iff.mp hchild
  split at h
  · rename_i hsingle _ hopened
    split at h
    · cases h
      refine ⟨v, hv, p, hp, level.call v, ?_, hopened⟩
      rw [Pipeline.attempts_single _ hsingle]
      exact List.mem_singleton_self _
    · cases h
  · cases h

end Level

/-- However many levels are left, a level leaves a key that neither it nor its children in shared mode name or give. -/
theorem Host.runWithin_leaves {host : Host} {limits : Limits} (hreg : host.registry.Keeps KeepsData) {key : String}
    (hkey : isReserved key = false) (levels : Nat) {level : Level} (hb : level.Built host limits)
    (hout : host.LeavesOut key levels level) :
    Assoc.get? (host.runWithin levels level).context.data key = Assoc.get? level.context.data key := by
  induction levels generalizing level with
  | zero => rfl
  | succ levels ih =>
    obtain ⟨⟨hids, hinputs, hparams⟩, hvisits⟩ := hout
    refine Level.run_leaves hreg hb hkey hids hinputs hparams (fun v hv => (hvisits v hv).1) ?_
    intro v hv child hchild
    exact ih ((Level.opens_of_sharedChild? hv hchild).built hb) ((hvisits v hv).2 child hchild)

/-! ### Guarded and reserved keys of a level -/

namespace Context

def Clean (c : Context) : Prop := ∀ key, isReserved key = true → Assoc.get? c.data key = none

theorem clean_withoutReserved {c : Context} (data : Fields) (h : c.data = withoutReserved data) : c.Clean := by
  intro key hkey
  rw [h]
  refine Assoc.get?_eq_none_of_not_mem fun hmem => ?_
  obtain ⟨e, he, rfl⟩ := List.mem_map.mp hmem
  have hfree := (List.mem_filter.mp he).2
  rw [hkey] at hfree
  cases hfree

theorem clean_kept : Kept fun c c' => c.Clean → c'.Clean where
  refl _ h := h
  trans h h' hc := h' (h hc)
  warn _ _ h := h
  insert c k v h key hkey := by
    unfold insert
    split
    · exact h key hkey
    · rename_i hfree
      rw [Assoc.get?_put, if_neg, h key hkey]
      rintro rfl
      exact hfree hkey
  noted _ _ _ h := h

end Context

theorem Registry.Keeps.mono {registry : Registry} {R S : Context → Context → Prop} (h : registry.Keeps R)
    (hle : ∀ c c', R c c' → S c c') : registry.Keeps S :=
  fun kind entry make hentry hmake site context prepared executed =>
    hle _ _ (h kind entry make hentry hmake site context prepared executed)

namespace Level

variable {host : Host} {limits : Limits} {level : Level} {run : Level → Report}

/-- A step is taken with the names of its document guarded. -/
theorem before_guarded (hreg : host.registry.Keeps KeepsData) (hb : level.Built host limits) {v : Visit}
    (hv : v ∈ (level.run (host.unitsOver run)).visits) :
    v.before.guarded = level.context.guarded ++ level.plan.stepIds ++ Assoc.keys level.plan.inputs := by
  have hvisits : ∀ v ∈ (level.run (host.unitsOver run)).visits, v.after.guarded = v.before.guarded :=
    fun v hv => hb.visits_keep Context.guarded_kept (fun _ _ => rfl) (hreg.mono fun _ _ h => h.guarded) hv
  rcases level.run_cases (host.unitsOver run) with ⟨fault, _, hrun⟩ | ⟨_, w, hrun, htrail⟩
  · rw [hrun] at hv
    exact absurd hv List.not_mem_nil
  · rw [hrun, Walk.report_visits] at hv hvisits
    rw [((htrail.keeps Context.guarded_kept.toCarried hvisits).2 v hv).1, Plan.enter_guarded]

theorem visit_clean (hreg : host.registry.Keeps KeepsData) (hb : level.Built host limits)
    (hclean : level.context.Clean) {v : Visit} (hv : v ∈ (level.run (host.unitsOver run)).visits) :
    v.before.Clean ∧ v.after.Clean := by
  have hvisits : ∀ v ∈ (level.run (host.unitsOver run)).visits, v.before.Clean → v.after.Clean := by
    intro v hv
    refine hb.visits_keep Context.clean_kept (fun _ data _ => Context.clean_withoutReserved data rfl) ?_ hv
    refine hreg.mono fun c c' h hc key hkey => ?_
    rw [h.data]
    exact hc key hkey
  have hbefore := ((run_keeps Context.clean_kept (fun _ _ h => h) hvisits).2 v hv).1 hclean
  exact ⟨hbefore, hvisits v hv hbefore⟩

/-- A step leaves what is under the id of any other step and under any input of its document, unless it opens a child in
shared mode that names the key, as a step, as an input or as a parameter, or gives an output under it, or that has such a
child itself. -/
theorem shared_child_leaves_guarded (hreg : host.registry.Keeps KeepsData) (hb : level.Built host limits)
    (hclean : level.context.Clean) (levels : Nat) {v : Visit} (hv : v ∈ (level.run (host.units levels)).visits)
    {key : String} (hdeclared : key ∈ level.plan.stepIds ∨ key ∈ Assoc.keys level.plan.inputs) (hne : key ≠ v.stepId)
    (hchild : ∀ child ∈ level.sharedChild? host v, host.LeavesOut key levels child) :
    Assoc.get? v.after.data key = Assoc.get? v.before.data key := by
  cases hkey : isReserved key with
  | true =>
    -- nothing ever stands under a reserved key
    obtain ⟨hbefore, hafter⟩ := visit_clean hreg hb hclean hv
    rw [hbefore key hkey, hafter key hkey]
  | false =>
    have hguarded : key ∈ v.before.guarded := by
      rw [before_guarded hreg hb hv]
      rcases hdeclared with hid | hinput
      · exact List.mem_append_left _ (List.mem_append_right _ hid)
      · exact List.mem_append_right _ hinput
    refine (visit_leaves_of_child hreg hb hv hkey (Ne.symm hne) (.inl hguarded) fun child hopened => ?_).value
    exact Host.runWithin_leaves hreg hkey levels ((opens_of_sharedChild? hv hopened).built hb) (hchild child hopened)

end Level

def givingDocument (name : String) : Document where
  version := "1"
  name := none
  start := none
  steps := [⟨"give", "echo", none, [(name, .int 2)], none⟩]
  edges := []
  inputs := []
  outputs := []
  mode := .strict

/-- Keeps a value in a step, and then runs a child in shared mode that gives an output under a name. -/
def lendingDocument (name : String) : Document where
  version := "1"
  name := none
  start := none
  steps :=
    [⟨"keep", "echo", none, [("value", .int 1)], none⟩,
      ⟨"lend", "workflow", none,
        [("workflow_ir", (givingDocument name).toJson), ("storage_mode", .str "shared")], none⟩]
  edges := [⟨"keep", "lend", none⟩]
  inputs := []
  outputs := []
  mode := .strict

theorem shared_child_leaves_guarded_lent :
    ∃ host : Host, ∃ plan, host.plan (lendingDocument "other") [] {} = .ok plan ∧ "keep" ∈ plan.stepIds ∧
      ∃ v ∈ (host.report (plan.top [])).visits, v.stepId = "lend" ∧
        (∃ child ∈ (plan.top []).sharedChild? host v, host.LeavesOut "keep" plan.limits.maxDepth child) ∧
        Assoc.get? v.before.data "keep" = some (.obj [("value", .int 1)]) ∧
        Assoc.get? v.after.data "keep" = some (.obj [("value", .int 1)]) ∧
        Assoc.get? v.after.data "other" = some (.int 2) := by
  let host : Host := ⟨.builtin, .empty⟩
  have hlent : ((host.plan (lendingDocument "other") [] {}).toOption.any fun plan =>
      plan.stepIds.contains "keep" && (host.report (plan.top [])).visits.any fun v =>
        v.stepId = "lend" && Assoc.get? v.before.data "keep" = some (.obj [("value", .int 1)]) &&
          Assoc.get? v.after.data "other" = some (.int 2) && ((plan.top []).sharedChild? host v).any fun child =>
            decide (host.LeavesOut "keep" plan.limits.maxDepth child)) = true := by decide +kernel
  obtain ⟨plan, hp, hlent⟩ := any_toOption.mp hlent
  simp only [Bool.and_eq_true, decide_eq_true_eq, List.any_eq_true, List.contains_iff_mem] at hlent
  obtain ⟨hkeep, v, hv, ⟨⟨hid, hbefore⟩, hother⟩, hchild⟩ := hlent
  obtain ⟨child, hopened, hleaves⟩ := (Option.any_eq_true _ _).mp hchild
  have hleaves : host.LeavesOut "keep" plan.limits.maxDepth child := of_decide_eq_true hleaves
  have hout : ∀ other ∈ (plan.top []).sharedChild? host v, host.LeavesOut "keep" plan.limits.maxDepth other := by
    intro other hother
    rw [hopened] at hother
    cases hother
    exact hleaves
  have hclean : (plan.top []).context.Clean := Context.clean_withoutReserved [] rfl
  have hkept := Level.shared_child_leaves_guarded (Registry.builtin_keeps KeepsData.refl) (Host.top_built hp) hclean
    plan.limits.maxDepth hv (.inl hkeep) (by rw [hid]; decide) hout
  exact ⟨host, plan, hp, hkeep, v, hv, hid, ⟨child, hopened, hleaves⟩, hbefore, hkept.trans hbefore, hother⟩

/-- The child overwrites what the caller keeps under the id of a step, although it has no step, input or parameter of that
name. -/
theorem shared_child_overwrites_guarded :
    ∃ host : Host, ∃ plan, host.plan (lendingDocument "keep") [] {} = .ok plan ∧ "keep" ∈ plan.stepIds ∧
      "keep" ∉ (givingDocument "keep").stepIds ∧ "keep" ∉ Assoc.keys (givingDocument "keep").inputs ∧
      ∃ v ∈ (host.report (plan.top [])).visits, v.stepId = "lend" ∧ v.outcome.exit? = some defaultAction ∧
        Assoc.get? v.before.data "keep" = some (.obj [("value", .int 1)]) ∧
        Assoc.get? v.after.data "keep" = some (.int 2) := by
  let host : Host := ⟨.builtin, .empty⟩
  have hlost : ((host.plan (lendingDocument "keep") [] {}).toOption.any fun plan =>
      plan.stepIds.contains "keep" && (host.report (plan.top [])).visits.any fun v =>
        v.stepId = "lend" && v.outcome.exit? = some defaultAction &&
          Assoc.get? v.before.data "keep" = some (.obj [("value", .int 1)]) &&
            Assoc.get? v.after.data "keep" = some (.int 2)) = true := by decide +kernel
  obtain ⟨plan, hp, hlost⟩ := any_toOption.mp hlost
  simp only [Bool.and_eq_true, decide_eq_true_eq, List.any_eq_true, List.contains_iff_mem] at hlost
  obtain ⟨hkeep, v, hv, ⟨⟨hid, hexit⟩, hbefore⟩, hafter⟩ := hlost
  exact ⟨host, plan, hp, hkeep, by decide, by decide, v, hv, hid, hexit, hbefore, hafter⟩

end Workflow
