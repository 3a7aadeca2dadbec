import Workflow.Proofs.Trail

/-! The data of a run is its history. Each step writes what it came to, under its own id and, where no step or input is
in the way, under the names of its output; the last write under a key is what is there in the end. -/

namespace Workflow

/-! ### Writes -/

namespace Context

structure KeepsData (c c' : Context) : Prop where
  data : c'.data = c.data
  guarded : c'.guarded = c.guarded

namespace KeepsData

theorem refl (c : Context) : KeepsData c c := ⟨rfl, rfl⟩

theorem carried : Carried KeepsData where
  refl := refl
  trans h h' := ⟨h'.data.trans h.data, h'.guarded.trans h.guarded⟩
  warn _ _ := ⟨rfl, rfl⟩

variable {c c' : Context}

theorem insert (h : KeepsData c c') (key : String) (v : Json) : KeepsData (c.insert key v) (c'.insert key v) := by
  unfold Context.insert
  split
  · exact h
  · exact ⟨by rw [h.data], h.guarded⟩

theorem copy (h : KeepsData c c') (stepId : String) (entries : Fields) :
    KeepsData (c.copy stepId entries) (c'.copy stepId entries) := by
  induction entries generalizing c c' with
  | nil => exact h
  | cons e rest ih =>
    have hguard : c'.isGuarded e.1 = c.isGuarded e.1 := by rw [isGuarded, isGuarded, h.guarded]
    rw [copy_cons, copy_cons, hguard]
    split
    · exact ih h
    · exact ih (h.insert e.1 e.2)

theorem commit (h : KeepsData c c') (stepId : String) (values : Fields) :
    KeepsData (c.commit stepId values) (c'.commit stepId values) :=
  (h.insert stepId _).copy stepId values

end KeepsData

theorem insert_guarded (c : Context) (key : String) (v : Json) : (c.insert key v).guarded = c.guarded := by
  unfold insert
  split <;> rfl

theorem guarded_kept : Kept fun c c' => c'.guarded = c.guarded where
  refl _ := rfl
  trans h h' := h'.trans h
  warn _ _ := rfl
  insert := insert_guarded
  noted _ _ _ := rfl

theorem get?_insert (c : Context) (k : String) (v : Json) {key : String} (hkey : isReserved key = false) :
    Assoc.get? (c.insert k v).data key = if k = key then some v else Assoc.get? c.data key := by
  unfold insert
  split
  · rename_i hk
    rw [if_neg]
    rintro rfl
    rw [hkey] at hk
    cases hk
  · exact Assoc.get?_put _ _ _ _

theorem get?_insertAll (c : Context) (entries : Fields) {key : String} (hkey : isReserved key = false) :
    Assoc.get? (c.insertAll entries).data key = (Assoc.last? entries key).or (Assoc.get? c.data key) := by
  unfold insertAll
  induction entries generalizing c with
  | nil => rfl
  | cons e rest ih =>
    rw [List.foldl_cons, ih, get?_insert _ _ _ hkey, Assoc.last?_cons, Option.or_assoc]
    split <;> rfl

/-- Of the entries that are copied, the last one under a free key counts. -/
theorem get?_copy (c : Context) (stepId : String) (entries : Fields) {key : String} (hkey : isReserved key = false) :
    Assoc.get? (c.copy stepId entries).data key =
      if stepId = key ∨ key ∈ c.guarded then Assoc.get? c.data key
      else (Assoc.last? entries key).or (Assoc.get? c.data key) := by
  induction entries generalizing c with
  | nil => split <;> rfl
  | cons e rest ih =>
    obtain ⟨k, v⟩ := e
    rw [copy_cons, Assoc.last?_cons, Option.or_assoc]
    split
    · rename_i hskip
      rw [ih]
      split
      · rfl
      · rename_i hfree
        rw [if_neg, Option.none_or]
        rintro rfl
        simp only [isGuarded, hkey, Bool.false_or, Bool.or_eq_true, decide_eq_true_eq, List.contains_iff_mem] at hskip
        exact hfree (hskip.imp_left Eq.symm)
    · rename_i hput
      rw [ih, insert_guarded, get?_insert _ _ _ hkey]
      split
      · rename_i hkept
        rw [if_neg]
        rintro rfl
        simp only [isGuarded, hkey, Bool.false_or, Bool.or_eq_true, decide_eq_true_eq, List.contains_iff_mem] at hput
        exact hput (hkept.imp_left Eq.symm)
      · split <;> rfl

/-- The id of a step is written whatever guards it; any other key only if it is free. -/
theorem get?_commit (c : Context) (stepId : String) (values : Fields) {key : String} (hkey : isReserved key = false) :
    Assoc.get? (c.commit stepId values).data key =
      if stepId = key then some (.obj values)
      else if key ∈ c.guarded then Assoc.get? c.data key
      else (Assoc.last? values key).or (Assoc.get? c.data key) := by
  rw [commit, get?_copy _ _ _ hkey, insert_guarded, get?_insert _ _ _ hkey]
  by_cases hid : stepId = key
  · simp [hid]
  · simp [hid]

end Context

def StepOutcome.store (stepId : String) (c : Context) : StepOutcome → Context
  | .completed values _ => c.commit stepId values
  | .failed failure => c.insert stepId (errorValue failure.message)
  | .aborted _ => c

open Context (KeepsData)

theorem Context.KeepsData.store {c c' : Context} (h : KeepsData c c') (stepId : String) (outcome : StepOutcome) :
    KeepsData (outcome.store stepId c) (outcome.store stepId c') := by
  cases outcome with
  | completed values action => exact h.commit stepId values
  | failed failure => exact h.insert stepId _
  | aborted fault => exact h

/-- A batch stores what it came to and nothing of its items. -/
theorem batchLayer_stores (stepId : String) (batch : Batch) (maxErrors : Nat) (inner : Layer) (call : Call) :
    KeepsData ((batchLayer stepId batch maxErrors inner call).1.store stepId call.context)
      (batchLayer stepId batch maxErrors inner call).2 := by
  unfold batchLayer
  split
  · exact KeepsData.refl _
  · rename_i items warnings _
    have hitems : KeepsData call.context ((call.context.setWarnings warnings).warn
        ((runItems (runItem inner batch.itemName call) batch.onError items).flatMap ItemRun.warnings)) := ⟨rfl, rfl⟩
    simp only
    split
    · exact hitems.insert _ _
    · exact hitems
    · refine KeepsData.commit ?_ _ _
      split
      · exact ⟨rfl, rfl⟩
      · exact hitems

namespace Pipeline

variable {p : Pipeline} {unit : LeafUnit} {call : Call}

/-- A step stores what it came to on top of what its one attempt leaves; a batch, whose items leave nothing, does so on
top of what it was called with. -/
theorem layer_stores_core (p : Pipeline) (unit : LeafUnit) (call : Call) :
    ∃ c, (c = call.context ∨ p.batch = none ∧ c = (p.core unit call).2) ∧
      KeepsData ((p.layer unit call).1.store p.stepId c) (p.layer unit call).2 := by
  obtain ⟨journal, _, heq⟩ := layer_eq p unit call
  rw [heq]
  cases hb : p.batch with
  | none =>
    refine ⟨(p.core unit call).2, .inr ⟨rfl, rfl⟩, ?_⟩
    rw [body_single unit hb, attempt, namespaceLayer]
    split
    all_goals
      rename_i hcore
      rw [hcore]
      exact ⟨rfl, rfl⟩
  | some batch =>
    refine ⟨call.context, .inl rfl, ?_⟩
    rw [body_batch unit hb]
    have hstores := batchLayer_stores p.stepId batch p.site.limits.maxBatchErrors (p.attempt unit) call
    exact ⟨hstores.data, hstores.guarded⟩

/-- A step whose unit writes nothing stores what it came to. -/
theorem layer_stores (h : ∀ a ∈ p.attempts unit call, KeepsData a.context (p.core unit a).2) :
    KeepsData ((p.layer unit call).1.store p.stepId call.context) (p.layer unit call).2 := by
  obtain ⟨c, rfl | ⟨hb, rfl⟩, hstores⟩ := p.layer_stores_core unit call
  · exact hstores
  · rw [attempts_single unit hb] at h
    exact KeepsData.carried.trans ((h call (List.mem_singleton_self call)).store _ _) hstores

end Pipeline

/-! ### Histories -/

namespace Visit

def writes (guarded : List String) (v : Visit) (key : String) : Option Json :=
  match v.outcome with
  | .completed values _ =>
    if v.stepId = key then some (.obj values)
    else if key ∈ guarded then none
    else Assoc.last? values key
  | .failed failure => if v.stepId = key then some (.obj [("error", .str failure.message)]) else none
  | .aborted _ => none

def Stored (v : Visit) : Prop := KeepsData (v.outcome.store v.stepId v.before) v.after

theorem Stored.guarded {v : Visit} (h : v.Stored) : v.after.guarded = v.before.guarded := by
  have hstore : (v.outcome.store v.stepId v.before).guarded = v.before.guarded := by
    cases v.outcome with
    | completed values action => exact Context.guarded_kept.commit _ _ _
    | failed failure => exact Context.insert_guarded _ _ _
    | aborted fault => rfl
  exact (KeepsData.guarded h).trans hstore

theorem Stored.get? {v : Visit} (h : v.Stored) {key : String} (hkey : isReserved key = false) :
    Assoc.get? v.after.data key = (v.writes v.before.guarded key).or (Assoc.get? v.before.data key) := by
  rw [KeepsData.data h, writes]
  cases v.outcome with
  | completed values action =>
    simp only [StepOutcome.store, Context.get?_commit _ _ _ hkey]
    split
    · rfl
    · split <;> rfl
  | failed failure =>
    simp only [StepOutcome.store, Context.get?_insert _ _ _ hkey, errorValue_eq]
    split <;> rfl
  | aborted fault => rfl

/-- Nobody else writes under a key that a step or an input keeps for itself. -/
theorem writes_of_guarded {guarded : List String} {v : Visit} {key : String} (hg : key ∈ guarded)
    (hne : v.stepId ≠ key) : v.writes guarded key = none := by
  rw [writes]
  cases v.outcome with
  | completed values action => simp only [if_neg hne, if_pos hg]
  | failed failure => exact if_neg hne
  | aborted fault => rfl

def given (v : Visit) (key : String) : Option Json :=
  match v.outcome with
  | .completed values _ => Assoc.last? values key
  | _ => none

theorem writes_of_free {guarded : List String} {v : Visit} {key : String} (hg : key ∉ guarded) (hne : v.stepId ≠ key) :
    v.writes guarded key = v.given key := by
  rw [writes, given]
  cases v.outcome with
  | completed values action => simp only [if_neg hne, if_neg hg]
  | failed failure => exact if_neg hne
  | aborted fault => rfl

theorem left_data (v : Visit) : v.left.data = v.after.data ∧ v.left.guarded = v.after.guarded := by
  rw [left]
  split <;> exact ⟨rfl, rfl⟩

end Visit

/-- What is under a key in the end was written last, or was there from the beginning. -/
theorem Trail.get?_last {plan : Plan} {first last : Context} {visits : List Visit} {ending : WalkEnd}
    (h : Trail plan first visits ending last) (hstored : ∀ v ∈ visits, v.Stored) {key : String}
    (hkey : isReserved key = false) :
    Assoc.get? last.data key =
      (visits.reverse.findSome? fun v => v.writes first.guarded key).or (Assoc.get? first.data key) := by
  induction h with
  | cut c fault => rfl
  | @stop v first last ending henter hf hleave =>
    subst henter hleave
    rw [List.reverse_singleton, List.findSome?_singleton]
    exact (hstored v (List.mem_singleton_self v)).get? hkey
  | @go v rest first last ending next henter hf onward ih =>
    subst henter
    have hv := hstored v List.mem_cons_self
    have hrest := ih fun w hw => hstored w (List.mem_cons_of_mem v hw)
    rw [v.left_data.1, v.left_data.2, hv.guarded, hv.get? hkey] at hrest
    rw [hrest, List.reverse_cons, List.findSome?_append, List.findSome?_singleton, Option.or_assoc]

/-! ### Workflow steps -/

namespace Subworkflow

/-- Taking over what a child hands back touches the data in shared mode only. -/
theorem finish_data (stepId : String) (context : Context) (prepared executed : Json) :
    (finish stepId context prepared executed).1.data =
        (if prepared.get? "storage_mode" = some (.str "shared") then
          Context.withoutReserved (memberObject executed "data") else context.data) ∧
      (finish stepId context prepared executed).1.guarded = context.guarded := by
  unfold finish
  simp only
  split <;> split <;> exact ⟨rfl, rfl⟩

/-- Only in shared mode does a child touch the data of its caller. -/
theorem unit_keepsData {files : FileTree} {child : Invocation → Except UnitFault Json} {site : Site} {params : Fields}
    {context : Context} {prepared : Json} (hmode : storageMode params ≠ .ok .shared)
    (hprepared : (unit files child site).prepare params context = .ok prepared) (executed : Json) :
    KeepsData context ((unit files child site).finalize context prepared executed).1 := by
  simp only [unit, Except.map] at hprepared
  split at hprepared
  · cases hprepared
  · rename_i i hi
    cases hprepared
    have hwritten := unshared_of_invocation hmode hi
    obtain ⟨hdata, hguarded⟩ := finish_data site.stepId context i.toJson executed
    rw [if_neg hwritten] at hdata
    exact ⟨hdata, hguarded⟩

end Subworkflow

namespace Level

variable {host : Host} {limits : Limits} {level : Level} {run : Level → Report}

/-- No workflow step of a level is run in shared mode. -/
def NeverShares (host : Host) (run : Level → Report) (level : Level) : Prop :=
  ∀ v ∈ (level.run (host.unitsOver run)).visits, ∀ p, level.plan.pipeline? v.stepId = some p →
    p.implementation = .subworkflow → ∀ a ∈ p.attempts (host.unitOf run p) (level.call v),
      ∀ params context, p.handed a = .ok (params, context) → Subworkflow.storageMode params ≠ .ok .shared

theorem visit_stored (hreg : host.registry.Keeps KeepsData) (hb : level.Built host limits)
    (hshare : level.NeverShares host run) {v : Visit} (hv : v ∈ (level.run (host.unitsOver run)).visits) :
    v.Stored := by
  obtain ⟨p, hp, _⟩ := visit_eq hv
  obtain ⟨step, entry, hd⟩ := hb.declares hp
  have hattempts : ∀ a ∈ p.attempts (host.unitOf run p) (level.call v),
      KeepsData a.context (p.core (host.unitOf run p) a).2 := by
    intro a ha
    cases hw : p.implementation with
    | leaf make =>
      refine Pipeline.core_keeps KeepsData.carried ?_ a
      exact Host.unitOf_keeps_of_leaf hreg hd hw
    | subworkflow =>
      refine Pipeline.core_keeps_of_phases KeepsData.carried ?_
      intro params context prepared executed hhanded hprepared _
      have hmode := hshare v hv p hp hw a ha params context hhanded
      rw [Host.unitOf, hw] at hprepared ⊢
      exact Subworkflow.unit_keepsData hmode hprepared executed
  have hstored := Pipeline.layer_stores hattempts
  have hlayer : p.layer (host.unitOf run p) (level.call v) = (v.outcome, v.after) := visit_layer hv hp
  rw [hlayer, hd.stepId] at hstored
  exact hstored

end Level

/-! ### The final data -/

theorem Plan.enter_guarded (plan : Plan) (context : Context) (bindings : Fields) :
    (plan.enter context bindings).guarded = context.guarded ++ plan.stepIds ++ Assoc.keys plan.inputs := by
  exact Context.guarded_kept.insertAll _ bindings

theorem Plan.get?_enter (plan : Plan) (context : Context) (bindings : Fields) {key : String}
    (hkey : isReserved key = false) :
    Assoc.get? (plan.enter context bindings).data key =
      (Assoc.last? bindings key).or (Assoc.get? context.data key) :=
  Context.get?_insertAll _ bindings hkey

theorem addDefaults_cons (e : String × InputSpec) (rest : Assoc InputSpec) (params : Fields) :
    addDefaults (e :: rest) params = addDefaults rest (addDefaults [e] params) := rfl

/-- Binding leaves what is given as it is and adds, after it, defaults of inputs that are not given. -/
theorem addDefaults_eq_append (inputs : Assoc InputSpec) (params : Fields) :
    ∃ added : Fields, addDefaults inputs params = params ++ added ∧ ∀ key ∈ Assoc.keys added, key ∈ Assoc.keys inputs := by
  induction inputs generalizing params with
  | nil => exact ⟨[], (List.append_nil params).symm, fun key hkey => absurd hkey List.not_mem_nil⟩
  | cons e rest ih =>
    have hfirst : ∃ added : Fields, addDefaults [e] params = params ++ added ∧ ∀ key ∈ Assoc.keys added, key = e.1 := by
      simp only [addDefaults, List.foldl_cons, List.foldl_nil]
      split
      · exact ⟨[], (List.append_nil params).symm, fun key hkey => absurd hkey List.not_mem_nil⟩
      · rename_i hnew
        split
        · exact ⟨[], (List.append_nil params).symm, fun key hkey => absurd hkey List.not_mem_nil⟩
        · rename_i v _
          rw [Assoc.contains, Assoc.get?_isSome_iff] at hnew
          exact ⟨[(e.1, v)], Assoc.put_eq_append hnew v, fun key hkey => List.mem_singleton.mp hkey⟩
    obtain ⟨first, hfirst, hkey⟩ := hfirst
    obtain ⟨added, hadded, hkeys⟩ := ih (params ++ first)
    refine ⟨first ++ added, ?_, fun key hmem => ?_⟩
    · rw [addDefaults_cons, hfirst, hadded, List.append_assoc]
    · rw [Assoc.keys, List.map_append, List.mem_append] at hmem
      rcases hmem with hmem | hmem
      · rw [hkey key hmem]
        exact List.mem_cons_self
      · exact List.mem_cons_of_mem _ (hkeys key hmem)

theorem last?_addDefaults {inputs : Assoc InputSpec} {key : String} (hkey : key ∉ Assoc.keys inputs) (params : Fields) :
    Assoc.last? (addDefaults inputs params) key = Assoc.last? params key := by
  obtain ⟨added, hadded, hkeys⟩ := addDefaults_eq_append inputs params
  have hnone : Assoc.get? added.reverse key = none :=
    Assoc.last?_eq_none_of_not_mem fun hmem => hkey (hkeys key hmem)
  rw [hadded, Assoc.last?, List.reverse_append, Assoc.get?_append, hnone, Option.none_or]
  rfl

theorem bindInputs_eq_ok {inputs : Assoc InputSpec} {params bindings : Fields}
    (h : bindInputs inputs params = .ok bindings) :
    missingInputs inputs params = [] ∧ bindings = addDefaults inputs params := by
  unfold bindInputs at h
  simp only at h
  split at h
  · rename_i hempty
    cases h
    exact ⟨List.isEmpty_iff.mp hempty, rfl⟩
  · cases h

/-- Binding adds nothing but declared inputs. -/
theorem last?_bindings {inputs : Assoc InputSpec} {params bindings : Fields}
    (h : bindInputs inputs params = .ok bindings) {key : String} (hkey : key ∉ Assoc.keys inputs) :
    Assoc.last? bindings key = Assoc.last? params key := by
  rw [(bindInputs_eq_ok h).2]
  exact last?_addDefaults hkey params

theorem Walk.report_data (w : Walk) (plan : Plan) (bindings : Fields) :
    (w.report plan bindings).context.data = w.context.data := by
  unfold report
  split <;> rfl

/-- What is exported of a context under a key of its own is its data. -/
theorem Context.get?_shared (c : Context) {key : String} (hkey : isReserved key = false) :
    Assoc.get? c.shared key = Assoc.get? c.data key := by
  unfold shared
  rw [Assoc.get?_putAll]
  have hnone : ∀ entries : Fields, (∀ e ∈ entries, isReserved e.1 = true) → Assoc.last? entries key = none := by
    intro entries hentries
    refine Assoc.last?_eq_none_of_not_mem fun hmem => ?_
    obtain ⟨e, he, rfl⟩ := List.mem_map.mp hmem
    rw [hentries e he] at hkey
    cases hkey
  rw [hnone, Option.none_or]
  simp only [List.mem_cons, List.not_mem_nil, or_false, forall_eq_or_imp, forall_eq]
  decide

theorem Level.visits_nodup {registry : Registry} {options : PlanOptions} {d : Document} {level : Level}
    (hb : Plan.build registry options d = .ok level.plan) (units : UnitMaker) :
    ((level.run units).visits.map Visit.stepId).Nodup ∧ ∀ v ∈ (level.run units).visits, v.stepId ∈ d.stepIds := by
  obtain ⟨order, _, hperm, hedges⟩ := Plan.exists_order hb
  have hstart := Plan.start_mem hb
  have hchain : (level.run units).visits.IsChain (LeadsTo d) ∧
      ∀ v ∈ (level.run units).visits, v.stepId ∈ d.stepIds := by
    rw [visits_eq]
    cases bindInputs level.plan.inputs level.params with
    | error fault => exact ⟨.nil, by simp⟩
    | ok bindings => exact ⟨walk_chain hb units bindings _ hstart _, walk_declared hb hstart⟩
  refine ⟨?_, hchain.2⟩
  have hrising : ((level.run units).visits.map fun v => order.idxOf v.stepId).Pairwise (· < ·) := by
    rw [← List.isChain_iff_pairwise]
    refine List.isChain_map_of_isChain _ ?_ hchain.1
    rintro v w ⟨e, he, hsource, _, htarget⟩
    rw [← hsource, ← htarget]
    exact hedges e he
  exact (nodup_of_rising (fun v hv => hperm.mem_iff.mpr (hchain.2 v hv)) hrising).1

/-- What is under a key in the end, told from what the steps came to: the output or the failure of the step of that id;
for an id without either, and for an input, what was bound; for any other key what was given last. -/
structure FinalValue (d : Document) (params bindings : Fields) (visits : List Visit) (key : String)
    (value? : Option Json) : Prop where
  completed : ∀ v ∈ visits, v.stepId = key → ∀ values action, v.outcome = .completed values action →
    value? = some (.obj values)
  failed : ∀ v ∈ visits, v.stepId = key → ∀ failure, v.outcome = .failed failure →
    value? = some (.obj [("error", .str failure.message)])
  kept : key ∈ d.stepIds ∨ key ∈ Assoc.keys d.inputs →
    (∀ v ∈ visits, v.stepId = key → ∃ fault, v.outcome = .aborted fault) → value? = Assoc.last? bindings key
  given : key ∉ d.stepIds → key ∉ Assoc.keys d.inputs →
    value? = (visits.reverse.findSome? fun v => v.given key).or (Assoc.last? params key)

/-- A step that wrote under its own id did so last, since no later step has that id. -/
theorem findSome?_writes_of_own {guarded : List String} {visits : List Visit}
    (hnodup : (visits.map Visit.stepId).Nodup) {v : Visit} (hv : v ∈ visits) (hguarded : v.stepId ∈ guarded)
    {value : Json} (hwrites : v.writes guarded v.stepId = some value) :
    (visits.reverse.findSome? fun w => w.writes guarded v.stepId) = some value := by
  obtain ⟨before, rest, rfl⟩ := List.append_of_mem hv
  have hrest : rest.reverse.findSome? (fun w => w.writes guarded v.stepId) = none := by
    rw [List.findSome?_eq_none_iff]
    intro w hw
    refine Visit.writes_of_guarded hguarded fun heq => ?_
    rw [List.map_append, List.map_cons, List.nodup_append] at hnodup
    refine (List.nodup_cons.mp hnodup.2.1).1 ?_
    rw [← heq]
    exact List.mem_map_of_mem (List.mem_reverse.mp hw)
  rw [List.reverse_append, List.reverse_cons, List.append_assoc, List.findSome?_append, hrest, List.singleton_append,
    List.findSome?_cons, hwrites]
  rfl

theorem finalValue_of_writes (guarded : List String) {d : Document} {params bindings : Fields} {visits : List Visit}
    {key : String} {value? : Option Json} (hguarded : ∀ k, k ∈ guarded ↔ k ∈ d.stepIds ∨ k ∈ Assoc.keys d.inputs)
    (hnodup : (visits.map Visit.stepId).Nodup) (hdeclared : ∀ v ∈ visits, v.stepId ∈ d.stepIds)
    (hbound : key ∉ Assoc.keys d.inputs → Assoc.last? bindings key = Assoc.last? params key)
    (h : value? = (visits.reverse.findSome? fun v => v.writes guarded key).or (Assoc.last? bindings key)) :
    FinalValue d params bindings visits key value? := by
  have hown : ∀ v ∈ visits, v.stepId = key → ∀ value, v.writes guarded v.stepId = some value → value? = some value := by
    rintro v hv rfl value hwrites
    rw [h, findSome?_writes_of_own hnodup hv ((hguarded _).mpr (.inl (hdeclared v hv))) hwrites]
    rfl
  refine ⟨?_, ?_, ?_, ?_⟩
  · intro v hv hid values action houtcome
    refine hown v hv hid _ ?_
    rw [Visit.writes, houtcome]
    exact if_pos rfl
  · intro v hv hid failure houtcome
    refine hown v hv hid _ ?_
    rw [Visit.writes, houtcome]
    exact if_pos rfl
  · intro hkey hnone
    have hwrites : visits.reverse.findSome? (fun v => v.writes guarded key) = none := by
      rw [List.findSome?_eq_none_iff]
      intro v hv
      by_cases hid : v.stepId = key
      · obtain ⟨fault, houtcome⟩ := hnone v (List.mem_reverse.mp hv) hid
        rw [Visit.writes, houtcome]
      · exact Visit.writes_of_guarded ((hguarded key).mpr hkey) hid
    rw [h, hwrites, Option.none_or]
  · intro hstep hinput
    have hfree : key ∉ guarded := fun hmem => ((hguarded key).mp hmem).elim hstep hinput
    have hgiven : ∀ v ∈ visits.reverse, v.writes guarded key = v.given key := by
      intro v hv
      refine Visit.writes_of_free hfree fun hid => hstep ?_
      rw [← hid]
      exact hdeclared v (List.mem_reverse.mp hv)
    rw [h, hbound hinput, ← List.head?_filterMap, ← List.head?_filterMap, List.filterMap_congr hgiven]

/-- The history of a run determines its final data, key by key, however the run ends. -/
theorem Host.history_determines_data (host : Host) (hreg : host.registry.Keeps KeepsData) {d : Document}
    {params : Fields} {options : PlanOptions} {plan : Plan} (hplan : host.plan d params options = .ok plan)
    {bindings : Fields} (hbind : bindInputs d.inputs params = .ok bindings)
    (hshare : (plan.top params).NeverShares host (host.runWithin plan.limits.maxDepth)) {key : String}
    (hkey : isReserved key = false) :
    FinalValue d params bindings (host.report (plan.top params)).visits key
      (Assoc.get? (host.run d params options).shared key) := by
  have hrun : (host.run d params options).shared = (host.report (plan.top params)).context.shared := by
    rw [run, hplan]
    rfl
  have hstored : ∀ v ∈ (host.report (plan.top params)).visits, v.Stored := by
    rw [report_top]
    exact fun v hv => Level.visit_stored hreg (top_built hplan) hshare hv
  obtain ⟨hnodup, hdeclared⟩ := Level.visits_nodup (show Plan.build _ _ d = .ok (plan.top params).plan from hplan)
    (host.unitsOver (host.runWithin plan.limits.maxDepth))
  rw [← report_top] at hnodup hdeclared
  have hinputs : plan.inputs = d.inputs := Plan.inputs_eq hplan
  have hids : plan.stepIds = d.stepIds := Plan.stepIds_eq hplan
  rw [hrun, Context.get?_shared _ hkey]
  rcases (plan.top params).run_cases (host.unitsOver (host.runWithin plan.limits.maxDepth)) with
    ⟨fault, hmissing, _⟩ | ⟨hbound, w, hwalk, htrail⟩
  · rw [Plan.top, hinputs, hbind] at hmissing
    cases hmissing
  · have hbindings : (plan.top params).bindings = bindings := by
      rw [Plan.top, hinputs, hbind] at hbound
      cases hbound
      rfl
    rw [hbindings] at hwalk htrail
    rw [report_top, hwalk, Walk.report_visits] at hstored hnodup hdeclared ⊢
    have hlast := htrail.get?_last hstored hkey
    have hguarded : ((plan.top params).plan.enter (plan.top params).context bindings).guarded =
        d.stepIds ++ Assoc.keys d.inputs := by
      rw [Plan.enter_guarded, Plan.top, hinputs, hids]
      rfl
    have hfirst : Assoc.get? ((plan.top params).plan.enter (plan.top params).context bindings).data key =
        Assoc.last? bindings key := by
      rw [Plan.get?_enter _ _ _ hkey]
      exact Option.or_none
    rw [hguarded, hfirst] at hlast
    rw [Walk.report_data]
    exact finalValue_of_writes (d.stepIds ++ Assoc.keys d.inputs) (fun k => List.mem_append) hnodup hdeclared
      (last?_bindings hbind) hlast

def helloDocument : Document where
  version := "1"
  name := none
  start := none
  steps := [⟨"say", "echo", none, [("text", .str "hello $\x7bname\x7d")], none⟩]
  edges := []
  inputs := []
  outputs := []
  mode := .strict

/-- Has a step whose output names other steps, itself and an input, a workflow step, and a step that fails. -/
def ledgerDocument : Document where
  version := "1"
  name := none
  start := none
  steps :=
    [⟨"enter", "echo", none,
        [("enter", .int 1), ("close", .int 2), ("limit", .int 3), ("note", .str "first")], none⟩,
      ⟨"greet", "workflow", none,
        [("workflow_ir", helloDocument.toJson), ("param_mapping", .obj [("name", .str "$\x7bnote\x7d")]),
          ("output_mapping", .obj [("say.text", .str "greeting")])], none⟩,
      ⟨"close", "fail", none, [("message", .str "locked")], none⟩,
      ⟨"reopen", "echo", none, [("note", .str "second")], none⟩]
  edges := [⟨"enter", "greet", none⟩, ⟨"greet", "close", none⟩, ⟨"close", "reopen", some "error"⟩]
  inputs := [("limit", ⟨.parse "int", "", false, some (.int 10), false⟩)]
  outputs := []
  mode := .strict

theorem history_determines_ledger :
    ∃ host : Host, ∃ plan bindings, host.plan ledgerDocument [("note", .str "given")] {} = .ok plan ∧
      bindInputs ledgerDocument.inputs [("note", .str "given")] = .ok bindings ∧
      (plan.top [("note", .str "given")]).NeverShares host (host.runWithin plan.limits.maxDepth) ∧
      (∀ key, isReserved key = false →
        FinalValue ledgerDocument [("note", .str "given")] bindings
          (host.report (plan.top [("note", .str "given")])).visits key
          (Assoc.get? (host.run ledgerDocument [("note", .str "given")] {}).shared key)) ∧
      Assoc.get? (host.run ledgerDocument [("note", .str "given")] {}).shared "note" = some (.str "second") ∧
      Assoc.get? (host.run ledgerDocument [("note", .str "given")] {}).shared "close" =
        some (.obj [("error", .str "locked")]) ∧
      Assoc.get? (host.run ledgerDocument [("note", .str "given")] {}).shared "limit" = some (.int 10) := by
  let host : Host := ⟨.builtin, .empty⟩
  let params : Fields := [("note", .str "given")]
  have hreg : host.registry.Keeps KeepsData := Registry.builtin_keeps KeepsData.refl
  have hbind : bindInputs ledgerDocument.inputs params = .ok [("note", .str "given"), ("limit", .int 10)] := rfl
  have hmapped : ((host.plan ledgerDocument params {}).toOption.any fun plan =>
      ((plan.top params).run (host.units plan.limits.maxDepth)).visits.all fun v =>
        (plan.pipeline? v.stepId).all fun p =>
          (p.attempts (host.unitOf (host.runWithin plan.limits.maxDepth) p) ((plan.top params).call v)).all fun a =>
            (p.handed a).toOption.all fun given =>
              (Subworkflow.storageMode given.1).toOption != some .shared) = true := by decide +kernel
  cases hp : host.plan ledgerDocument params {} with
  | error fault =>
    rw [hp] at hmapped
    cases hmapped
  | ok plan =>
    rw [hp] at hmapped
    have hshare : (plan.top params).NeverShares host (host.runWithin plan.limits.maxDepth) := by
      intro v hv p hpipeline _ a ha given context hgiven hshared
      have hall := List.all_eq_true.mp hmapped v hv
      have hpipeline' : plan.pipeline? v.stepId = some p := hpipeline
      rw [hpipeline'] at hall
      have hone := List.all_eq_true.mp hall a ha
      rw [hgiven] at hone
      simp [Except.toOption, hshared] at hone
    exact ⟨host, plan, _, hp, hbind, hshare,
      fun key hkey => Host.history_determines_data host hreg hp hbind hshare hkey, by decide +kernel, by decide +kernel,
      by decide +kernel⟩

end Workflow
