import Workflow.Proofs.Sharing

/-! The check of references knows of a step the outputs that its interface declares. What stands under the id of a step
is what its layers stored there: its output, the summary of its batch, or the message of its failure. The check and the
data agree on the first of these alone. -/

namespace Workflow

open Context (KeepsData Leaves leaves_carried)

/-! ### Outputs of units -/

def LeafUnit.GivesOnly (declared : Interface) (unit : LeafUnit) : Prop :=
  ∀ params context prepared executed output, unit.prepare params context = .ok prepared →
    unit.attempt prepared = .ok executed → (unit.finalize context prepared executed).2 = .ok output →
      ∀ key ∈ Assoc.keys output.values, (declared.output? key).isSome

/-- The units of a level give what the interfaces of their kinds declare, where these declare anything. -/
def Host.GivesDeclared (host : Host) (run : Level → Report) : Prop :=
  ∀ kind entry, Assoc.get? host.registry kind = some entry → entry.interface.outputs ≠ [] →
    ∀ site, (host.unitsOver run entry.implementation site).GivesOnly entry.interface

theorem LeafUnit.delay_givesOnly (timeout : Nat) : (delay timeout).GivesOnly Registry.delayEntry.interface := by
  intro params context prepared executed output _ hexecuted hfinal key hkey
  rw [attempt_eq_execute fun _ _ => rfl] at hexecuted
  simp only [delay, ofExecute] at hexecuted hfinal
  obtain ⟨ms, _, hslept⟩ := bind_eq_ok.mp hexecuted
  split at hslept
  · cases hslept
  · cases hslept
    cases hfinal
    rw [List.mem_singleton.mp hkey]
    rfl

/-- Of the units that every registry begins with only the one that waits declares an output. -/
theorem Host.builtin_givesDeclared (files : FileTree) (run : Level → Report) :
    (Host.mk .builtin files).GivesDeclared run := by
  intro kind entry hentry hdeclares site
  rcases Registry.builtin_cases hentry with rfl | rfl | rfl | rfl
  · exact absurd rfl hdeclares
  · exact absurd rfl hdeclares
  · exact LeafUnit.delay_givesOnly site.limits.timeout
  · exact absurd rfl hdeclares

/-! ### What a step comes to -/

theorem leafLayer_eq_completed {stepId : String} {unit : LeafUnit} {literals : Fields} {call : Call} {values : Fields}
    {action : String} (h : (leafLayer stepId unit literals call).1 = .completed values action) :
    ∃ prepared executed output, unit.prepare (Assoc.putAll literals call.params) call.context = .ok prepared ∧
      unit.attempt prepared = .ok executed ∧ (unit.finalize call.context prepared executed).2 = .ok output ∧
        values = output.values := by
  have hfault (cause : UnitFault) : StepOutcome.ofUnitFault stepId cause ≠ .completed values action := by
    cases cause <;> exact StepOutcome.noConfusion
  unfold leafLayer at h
  simp only at h
  split at h
  · exact absurd h (hfault _)
  · rename_i prepared hprepared
    split at h
    · exact absurd h (hfault _)
    · rename_i executed hexecuted
      split at h
      · exact absurd h (hfault _)
      · rename_i context output hfinal
        cases h
        exact ⟨prepared, executed, output, hprepared, hexecuted, by rw [hfinal], rfl⟩

def summaryKeys : List String := ["results", "count", "success_count", "error_count", "errors", "errors_truncated"]

theorem mem_summaryKeys {runs : List ItemRun} {maxErrors : Nat} {key : String}
    (h : key ∈ Assoc.keys (batchValues runs maxErrors)) : key ∈ summaryKeys := by
  unfold batchValues at h
  simp only at h
  rw [Assoc.keys, List.map_append, List.mem_append] at h
  rcases h with h | h
  · exact List.mem_append_left ["errors_truncated"] h
  · split at h
    · exact List.mem_append_right ["results", "count", "success_count", "error_count", "errors"] h
    · exact absurd h List.not_mem_nil

theorem batchLayer_eq_completed {stepId : String} {batch : Batch} {maxErrors : Nat} {inner : Layer} {call : Call}
    {values : Fields} {action : String} (h : (batchLayer stepId batch maxErrors inner call).1 = .completed values action) :
    ∃ runs, values = batchValues runs maxErrors := by
  unfold batchLayer at h
  split at h
  · cases h
  · simp only at h
    split at h
    · cases h
    · cases h
    · cases h
      exact ⟨_, rfl⟩

/-- A step that completed has the output of its unit, or the summary of its batch. -/
theorem Pipeline.keys_of_completed {p : Pipeline} {unit : LeafUnit} {call : Call} {values : Fields} {action : String}
    {declared : Interface} (hunit : unit.GivesOnly declared) (h : (p.layer unit call).1 = .completed values action)
    {key : String} (hkey : key ∈ Assoc.keys values) :
    (declared.output? key).isSome ∨ p.batch.isSome ∧ key ∈ summaryKeys := by
  obtain ⟨_, _, heq⟩ := layer_eq p unit call
  rw [heq] at h
  cases hb : p.batch with
  | some batch =>
    rw [body_batch unit hb] at h
    obtain ⟨runs, rfl⟩ := batchLayer_eq_completed h
    exact .inr ⟨rfl, mem_summaryKeys hkey⟩
  | none =>
    rw [body_single unit hb, attempt_outcome] at h
    cases hc : p.leafCall call with
    | error fault =>
      rw [core_of_leafCall_error unit hc] at h
      cases h
    | ok inner =>
      rw [core_of_leafCall_ok unit hc] at h
      obtain ⟨_, _, output, hprepared, hexecuted, hfinal, rfl⟩ := leafLayer_eq_completed h
      exact .inl (hunit _ _ _ _ output hprepared hexecuted hfinal key hkey)

/-! ### What stands under the id of a step -/

/-- What is under a key when a step is taken was there from the beginning, or was left by one of the steps that may have
changed it. -/
theorem Trail.value_before {plan : Plan} {first last : Context} {visits : List Visit} {ending : WalkEnd}
    (h : Trail plan first visits ending last) {taken rest : List Visit} {v : Visit} (hv : visits = taken ++ v :: rest)
    {key : String} (changes : Visit → Prop)
    (hkept : ∀ w ∈ taken, ¬changes w → Assoc.get? w.after.data key = Assoc.get? w.before.data key) :
    Assoc.get? v.before.data key = Assoc.get? first.data key ∨
      ∃ u ∈ taken, changes u ∧ Assoc.get? v.before.data key = Assoc.get? u.after.data key := by
  induction taken generalizing first visits with
  | nil =>
    rw [List.nil_append] at hv
    subst hv
    cases h with
    | stop henter _ _ => exact .inl (by rw [henter])
    | go henter _ _ => exact .inl (by rw [henter])
  | cons w taken ih =>
    cases h with
    | cut => simp at hv
    | stop => simp at hv
    | go henter _ onward =>
      rw [List.cons_append] at hv
      obtain ⟨hw, hrest⟩ := List.cons.inj hv
      rw [hw] at henter onward
      rcases ih onward hrest fun u hu => hkept u (List.mem_cons_of_mem w hu) with hbefore | ⟨u, hu, hchange, hbefore⟩
      · rw [w.left_data.1] at hbefore
        by_cases hchange : changes w
        · exact .inr ⟨w, List.mem_cons_self, hchange, hbefore⟩
        · rw [hkept w List.mem_cons_self hchange, henter] at hbefore
          exact .inl hbefore
      · exact .inr ⟨u, List.mem_cons_of_mem w hu, hchange, hbefore⟩

/-- A step that stored what it came to has left its output or its failure under its id. -/
theorem Visit.Stored.own_value {v : Visit} (h : v.Stored) (hid : isReserved v.stepId = false)
    (hgoes : ∀ fault, v.outcome ≠ .aborted fault) :
    (∃ values action, v.outcome = .completed values action ∧
        Assoc.get? v.after.data v.stepId = some (.obj values)) ∨
      ∃ failure, v.outcome = .failed failure ∧
        Assoc.get? v.after.data v.stepId = some (.obj [("error", .str failure.message)]) := by
  have hafter := h.get? hid
  unfold writes at hafter
  cases ho : v.outcome with
  | completed values action =>
    simp only [ho, if_true, Option.some_or] at hafter
    exact .inl ⟨values, action, rfl, hafter⟩
  | failed failure =>
    simp only [ho, if_true, Option.some_or] at hafter
    exact .inr ⟨failure, rfl, hafter⟩
  | aborted fault => exact absurd ho (hgoes fault)

namespace Level

variable {host : Host} {limits : Limits} {level : Level} {run : Level → Report}

/-- Steps that have another step after them did not abort. -/
theorem goes_of_taken {units : UnitMaker} {taken rest : List Visit} {v : Visit}
    (hv : (level.run units).visits = taken ++ v :: rest) {u : Visit} (hu : u ∈ taken) :
    ∀ fault, u.outcome ≠ .aborted fault := by
  have hpairs : (level.run units).visits.Pairwise _ :=
    visits_pairwise (R := fun _ _ => True) ⟨fun _ => trivial, fun _ _ => trivial, fun _ _ => trivial⟩ fun _ _ => trivial
  rw [hv, List.pairwise_append] at hpairs
  exact (hpairs.2.2 u hu v List.mem_cons_self).1

theorem not_reserved_of_value (hreg : host.registry.Keeps KeepsData) (hb : level.Built host limits)
    (hclean : level.context.Clean) {v : Visit} (hv : v ∈ (level.run (host.unitsOver run)).visits) {key : String}
    {value : Json} (h : Assoc.get? v.before.data key = some value) : isReserved key = false := by
  cases hkey : isReserved key with
  | false => rfl
  | true =>
    rw [(visit_clean hreg hb hclean hv).1 key hkey] at h
    cases h

/-- A step leaves what is under the id of another, unless it opens a child in shared mode. -/
theorem leaves_other_step (hreg : host.registry.Keeps KeepsData) (hb : level.Built host limits) {v : Visit}
    (hv : v ∈ (level.run (host.unitsOver run)).visits) {stepId : String} (hid : isReserved stepId = false)
    (hdeclared : stepId ∈ level.plan.stepIds) (hne : v.stepId ≠ stepId) (hnone : level.sharedChild? host v = none) :
    Assoc.get? v.after.data stepId = Assoc.get? v.before.data stepId := by
  have hguarded : stepId ∈ v.before.guarded := by
    rw [before_guarded hreg hb hv]
    exact List.mem_append_left _ (List.mem_append_right _ hdeclared)
  refine (visit_leaves_of_child hreg hb hv hid hne (.inl hguarded) fun child hchild => ?_).value
  rw [hnone] at hchild
  cases hchild

/-- No child in shared mode of another step has changed what is under the id of a step. -/
def NotOverwritten (host : Host) (level : Level) (taken : List Visit) (stepId : String) : Prop :=
  ∀ w ∈ taken, w.stepId ≠ stepId → (level.sharedChild? host w).isSome →
    Assoc.get? w.after.data stepId = Assoc.get? w.before.data stepId

/-- Nothing is under the id of a step from the beginning: it is neither an input nor a parameter, nor in the data that
the level starts on. -/
structure StartsWithout (level : Level) (stepId : String) : Prop where
  inputs : stepId ∉ Assoc.keys level.plan.inputs
  params : stepId ∉ Assoc.keys level.params
  data : stepId ∉ Assoc.keys level.context.data

instance (level : Level) (stepId : String) : Decidable (level.StartsWithout stepId) :=
  decidable_of_iff
    (stepId ∉ Assoc.keys level.plan.inputs ∧ stepId ∉ Assoc.keys level.params ∧
      stepId ∉ Assoc.keys level.context.data)
    ⟨fun ⟨hinputs, hparams, hdata⟩ => ⟨hinputs, hparams, hdata⟩, fun h => ⟨h.inputs, h.params, h.data⟩⟩

theorem StartsWithout.enter {stepId : String} (h : level.StartsWithout stepId) (hid : isReserved stepId = false)
    (hbound : bindInputs level.plan.inputs level.params = .ok level.bindings) :
    Assoc.get? (level.plan.enter level.context level.bindings).data stepId = none := by
  rw [get?_enter_of_unbound hbound hid h.inputs h.params, Assoc.get?_eq_none_of_not_mem h.data]

/-- What stands under the id of a step, if not from the beginning, is what the step left there. -/
theorem value_of_own_step (hreg : host.registry.Keeps KeepsData) (hb : level.Built host limits)
    {taken rest : List Visit} {v : Visit} (hv : (level.run (host.unitsOver run)).visits = taken ++ v :: rest)
    {stepId : String} (hid : isReserved stepId = false) (hdeclared : stepId ∈ level.plan.stepIds)
    (hstart : level.StartsWithout stepId) (hshared : level.NotOverwritten host taken stepId) {value : Json}
    (hvalue : Assoc.get? v.before.data stepId = some value) :
    ∃ u ∈ taken, u.stepId = stepId ∧ Assoc.get? u.after.data stepId = some value := by
  have hkept : ∀ w ∈ taken, w.stepId ≠ stepId →
      Assoc.get? w.after.data stepId = Assoc.get? w.before.data stepId := by
    intro w hw hne
    cases hchild : level.sharedChild? host w with
    | some child => exact hshared w hw hne (by rw [hchild]; rfl)
    | none => exact leaves_other_step hreg hb (hv ▸ List.mem_append_left _ hw) hid hdeclared hne hchild
  rcases level.run_cases (host.unitsOver run) with ⟨_, _, hrun⟩ | ⟨hbound, w, hrun, htrail⟩
  · rw [hrun] at hv
    exact absurd hv.symm (by simp [Report.failing])
  · rw [hrun, Walk.report_visits] at hv
    rcases htrail.value_before hv (fun w => w.stepId = stepId) hkept with hfirst | ⟨u, hu, hown, hbefore⟩
    · rw [hstart.enter hid hbound, hvalue] at hfirst
      cases hfirst
    · exact ⟨u, hu, hown, by rw [← hbefore, hvalue]⟩

end Level

/-- A key that a step puts under its id besides its output: in the summary of its batch, or with the message of its
failure. -/
def StepOutcome.Adds (p : Pipeline) (key : String) : StepOutcome → Prop
  | .completed .. => p.batch.isSome ∧ key ∈ summaryKeys
  | .failed _ => key = "error"
  | .aborted _ => False

instance (p : Pipeline) (key : String) : (outcome : StepOutcome) → Decidable (outcome.Adds p key)
  | .completed .. => inferInstanceAs (Decidable (p.batch.isSome ∧ key ∈ summaryKeys))
  | .failed _ => inferInstanceAs (Decidable (key = "error"))
  | .aborted _ => inferInstanceAs (Decidable False)

/-- What a step left under its id has declared keys and the keys that the step adds. -/
theorem Level.keys_of_own_step {host : Host} {level : Level} {run : Level → Report} {options : PlanOptions}
    {d : Document} (hgives : host.GivesDeclared run) (hbuild : Plan.build host.registry options d = .ok level.plan)
    {u : Visit} (hu : u ∈ (level.run (host.unitsOver run)).visits) (hgoes : ∀ fault, u.outcome ≠ .aborted fault)
    (hid : isReserved u.stepId = false) {fields : Fields}
    (hvalue : Assoc.get? u.after.data u.stepId = some (.obj fields)) {key : String} (hkey : key ∈ Assoc.keys fields) :
    ∃ step ∈ d.steps, ∃ entry, step.id = u.stepId ∧ Assoc.get? host.registry step.kind = some entry ∧
      ((∃ p, level.plan.pipeline? u.stepId = some p ∧ u.outcome.Adds p key) ∨
        (entry.interface.outputs ≠ [] → (entry.interface.output? key).isSome)) := by
  obtain ⟨p, c, hp, _, hstored⟩ := visit_stores ⟨options, d, rfl, hbuild⟩ hu
  obtain ⟨step, hstep, entry, hown, hkind, heq⟩ := Plan.pipeline?_eq_some hbuild hp
  refine ⟨step, hstep, entry, hown, hkind, ?_⟩
  rcases hstored.own_value hid hgoes with ⟨values, action, houtcome, hleft⟩ | ⟨failure, houtcome, hleft⟩
  · have houtcome : u.outcome = .completed values action := houtcome
    obtain ⟨rfl⟩ : fields = values := by simpa using hvalue.symm.trans hleft
    rw [houtcome]
    by_cases hdeclares : entry.interface.outputs = []
    · exact .inr fun hne => absurd hdeclares hne
    · have hlayer : p.layer (host.unitOf run p) (level.call u) = (u.outcome, u.after) := visit_layer hu hp
      have hcompleted : (p.layer (host.unitOf run p) (level.call u)).1 = .completed fields action := by
        rw [hlayer, houtcome]
      have hunit : (host.unitOf run p).GivesOnly entry.interface := by
        rw [heq]
        exact hgives step.kind entry hkind hdeclares _
      rcases Pipeline.keys_of_completed hunit hcompleted hkey with hgiven | hadded
      · exact .inr fun _ => hgiven
      · exact .inl ⟨p, hp, hadded⟩
  · have houtcome : u.outcome = .failed failure := houtcome
    obtain ⟨rfl⟩ : fields = [("error", .str failure.message)] := by simpa using hvalue.symm.trans hleft
    rw [houtcome]
    exact .inl ⟨p, hp, List.mem_singleton.mp hkey⟩

/-! ### The check -/

namespace Plan

variable {registry : Registry} {options : PlanOptions} {d : Document} {stages : Stages} {step : Step}
  {entry : RegistryEntry}

/-- The check knows a step by the interface of its kind. -/
theorem Stages.Passed.interface_eq (h : stages.Passed registry options d) (hstep : step ∈ d.steps)
    (hkind : Assoc.get? registry step.kind = some entry) {source : Interface}
    (hsource : Assoc.get? stages.interfaces step.id = some source) : source = entry.interface := by
  obtain ⟨hsteps, hentries⟩ := mapM_resolveKind h.kinds
  obtain ⟨⟨other, found⟩, hmem, heq⟩ := List.mem_map.mp (Assoc.mem_of_get? hsource)
  obtain ⟨hid, rfl⟩ := Prod.mk.inj heq
  have hother : other ∈ d.steps := by
    rw [← hsteps]
    exact List.mem_map_of_mem hmem
  have hsame : other = step := List.inj_on_of_nodup_map (Document.stepIds_nodup h.identity) hother hstep hid
  have hfound := hentries _ hmem
  rw [hsame, hkind] at hfound
  cases hfound
  rfl

/-- A reference to a declared output, or to a step that declares none, is let pass without a word. -/
theorem settleAccess_of_declared (h : stages.Passed registry options d) (hstep : step ∈ d.steps)
    (hkind : Assoc.get? registry step.kind = some entry) {r : Reference} (hbase : r.base = step.id) {key : String}
    (hpath : r.path = [.field key])
    (hdeclared : entry.interface.outputs ≠ [] → (entry.interface.output? key).isSome) (mode : Mode) (reader : String)
    (warnings : List Warning) : settleAccess mode stages.interfaces reader warnings r = .ok warnings := by
  unfold settleAccess
  split
  · rfl
  · rename_i source hsource
    rw [hbase] at hsource
    cases h.interface_eq hstep hkind hsource
    split
    · rfl
    · rename_i hempty
      obtain ⟨output, houtput⟩ := Option.isSome_iff_exists.mp (hdeclared fun hnone => hempty (by rw [hnone]; rfl))
      have hclean : checkAccess reader r entry.interface = .clean := by
        unfold checkAccess
        simp only [hpath, houtput]
      rw [hclean]

end Plan

/-- The check sees what a step stores as its output: a reference to a key that stands under the id of a step when another
step is taken is let pass there without a word, in either mode. This leaves out the keys that a step adds to its output,
and what a child in shared mode wrote in place of it. -/
theorem Level.stored_outputs_pass_check {host : Host} {level : Level} {run : Level → Report} {options : PlanOptions}
    {d : Document} (hreg : host.registry.Keeps KeepsData) (hgives : host.GivesDeclared run)
    (hbuild : Plan.build host.registry options d = .ok level.plan) (hclean : level.context.Clean)
    {taken rest : List Visit} {v : Visit} (hv : (level.run (host.unitsOver run)).visits = taken ++ v :: rest)
    {stepId : String} (hdeclared : stepId ∈ d.stepIds) (hstart : level.StartsWithout stepId)
    (hshared : level.NotOverwritten host taken stepId) {fields : Fields}
    (hvalue : Assoc.get? v.before.data stepId = some (.obj fields)) {key : String} (hkey : key ∈ Assoc.keys fields)
    (hadds : ∀ u ∈ taken, u.stepId = stepId → ∀ p, level.plan.pipeline? stepId = some p → ¬u.outcome.Adds p key) :
    ∃ stages : Plan.Stages, stages.Passed host.registry options d ∧ level.plan = stages.plan options d ∧
      ∀ r : Reference, r.base = stepId → r.path = [.field key] → ∀ mode warnings,
        Plan.settleAccess mode stages.interfaces v.stepId warnings r = .ok warnings := by
  have hb : level.Built host options.limits := ⟨options, d, rfl, hbuild⟩
  obtain ⟨stages, hpassed, hplan⟩ := Plan.build_eq_ok_iff.mp hbuild
  refine ⟨stages, hpassed, hplan, fun r hbase hpath mode warnings => ?_⟩
  have hid := not_reserved_of_value hreg hb hclean (hv ▸ List.mem_append_right _ List.mem_cons_self) hvalue
  rw [← Plan.stepIds_eq hbuild] at hdeclared
  obtain ⟨u, hu, rfl, hleft⟩ := value_of_own_step hreg hb hv hid hdeclared hstart hshared hvalue
  have hvisited : u ∈ (level.run (host.unitsOver run)).visits := hv ▸ List.mem_append_left _ hu
  obtain ⟨step, hstep, entry, hown, hkind, hkeys⟩ :=
    keys_of_own_step hgives hbuild hvisited (goes_of_taken hv hu) hid hleft hkey
  have hoffered : entry.interface.outputs ≠ [] → (entry.interface.output? key).isSome := by
    refine hkeys.resolve_left ?_
    rintro ⟨p, hp, hadded⟩
    exact hadds u hu rfl p hp hadded
  exact Plan.settleAccess_of_declared hpassed hstep hkind (hbase.trans hown.symm) hpath hoffered mode v.stepId warnings

/-- Takes a nap, or one for each item of a batch, and tells what is under a key of it. -/
def napDocument (batch : Option Batch) (key : String) : Document where
  version := "1"
  name := none
  start := none
  steps :=
    [⟨"nap", "delay", none, [("ms", .nat 5)], batch⟩,
      ⟨"tell", "echo", none, [("text", .str ("$\x7bnap." ++ key ++ "\x7d"))], none⟩]
  edges := [⟨"nap", "tell", none⟩]
  inputs := []
  outputs := []
  mode := .permissive

theorem stored_outputs_pass_check_nap :
    ∃ host : Host, ∃ plan, host.plan (napDocument none "slept_ms") [] {} = .ok plan ∧
      ∃ v ∈ (host.report (plan.top [])).visits, v.stepId = "tell" ∧
        Assoc.get? v.before.data "nap" = some (.obj [("slept_ms", .nat 5)]) ∧
          ∃ stages : Plan.Stages, stages.Passed host.registry {} (napDocument none "slept_ms") ∧
            plan = stages.plan {} (napDocument none "slept_ms") ∧ ∀ mode warnings,
              Plan.settleAccess mode stages.interfaces "tell" warnings (.ofExpr "nap.slept_ms") = .ok warnings := by
  let host : Host := ⟨.builtin, .empty⟩
  have hnapped : ((host.plan (napDocument none "slept_ms") [] {}).toOption.any fun plan =>
      decide ((plan.top []).StartsWithout "nap") &&
        (host.report (plan.top [])).visits.map Visit.stepId = ["nap", "tell"] &&
        (host.report (plan.top [])).visits.all fun w =>
          if w.stepId = "nap" then (plan.pipeline? "nap").all fun p => !decide (w.outcome.Adds p "slept_ms")
          else Assoc.get? w.before.data "nap" = some (.obj [("slept_ms", .nat 5)])) = true := by
    decide +kernel
  obtain ⟨plan, hp, hnapped⟩ := any_toOption.mp hnapped
  simp only [Bool.and_eq_true, decide_eq_true_eq] at hnapped
  obtain ⟨⟨hstart, hids⟩, hall⟩ := hnapped
  obtain ⟨u, last, hvisits, hu, hlast⟩ := List.map_eq_cons_iff.mp hids
  obtain ⟨v, _, rfl, hv, hnone⟩ := List.map_eq_cons_iff.mp hlast
  cases List.map_eq_nil_iff.mp hnone
  rw [hvisits] at hall
  simp only [List.all_cons, List.all_nil, hu, hv, if_true, String.reduceEq, if_false, Bool.and_true,
    Bool.and_eq_true, decide_eq_true_eq] at hall
  obtain ⟨hadds, hvalue⟩ := hall
  have hbuild : Plan.build host.registry {} (napDocument none "slept_ms") = .ok (plan.top []).plan := hp
  have hclean : (plan.top []).context.Clean := Context.clean_withoutReserved [] rfl
  have hsplit : ((plan.top []).run (host.unitsOver (host.runWithin plan.limits.maxDepth))).visits = [u] ++ v :: [] :=
    hvisits
  have hkept : (plan.top []).NotOverwritten host [u] "nap" := by
    intro w hw hne _
    rw [List.mem_singleton.mp hw] at hne
    exact absurd hu hne
  have hplain : ∀ w ∈ [u], w.stepId = "nap" → ∀ p, plan.pipeline? "nap" = some p →
      ¬w.outcome.Adds p "slept_ms" := by
    intro w hw _ p hpipeline
    rw [List.mem_singleton.mp hw]
    simpa [hpipeline] using hadds
  obtain ⟨stages, hpassed, hplan, hsilent⟩ :=
    Level.stored_outputs_pass_check (Registry.builtin_keeps KeepsData.refl) (Host.builtin_givesDeclared .empty _)
      hbuild hclean hsplit (by decide) hstart hkept hvalue List.mem_cons_self hplain
  rw [hv] at hsilent
  refine ⟨host, plan, hp, v, ?_, hv, hvalue, stages, hpassed, hplan, hsilent (.ofExpr "nap.slept_ms") ?_ ?_⟩
  · rw [hvisits]
    exact List.mem_of_getLast? rfl
  · decide +kernel
  · decide +kernel

/-- The check misses what a batch stores: it warns of a key that is there. -/
theorem batch_summary_is_undeclared :
    ∃ host : Host, ∃ plan, host.plan (napDocument (some ⟨"[1, 2]", "item", .failFast⟩) "count") [] {} = .ok plan ∧
      (∃ v ∈ (host.report (plan.top [])).visits, v.stepId = "tell" ∧
        (Assoc.get? v.before.data "nap").bind (Json.get? · "count") = some (.nat 2)) ∧
      .ofFault (.undeclaredOutput "tell" "$\x7bnap.count\x7d" "nap" "count" "Declared outputs of 'nap': slept_ms") ∈
        plan.warnings := by
  let host : Host := ⟨.builtin, .empty⟩
  let d : Document := napDocument (some ⟨"[1, 2]", "item", .failFast⟩) "count"
  have hmissed : ((host.plan d [] {}).toOption.any fun plan =>
      ((host.report (plan.top [])).visits.any fun v =>
        v.stepId = "tell" && (Assoc.get? v.before.data "nap").bind (Json.get? · "count") = some (.nat 2)) &&
      plan.warnings.contains (.ofFault
        (.undeclaredOutput "tell" "$\x7bnap.count\x7d" "nap" "count" "Declared outputs of 'nap': slept_ms"))) =
        true := by
    decide +kernel
  obtain ⟨plan, hp, hmissed⟩ := any_toOption.mp hmissed
  simp only [Bool.and_eq_true, decide_eq_true_eq, List.any_eq_true, List.contains_iff_mem] at hmissed
  exact ⟨host, plan, hp, hmissed⟩

end Workflow
