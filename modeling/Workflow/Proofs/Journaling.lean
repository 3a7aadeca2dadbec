import Workflow.Proofs.History

/-! What the journal of a run says. Nothing but the outermost layer of a step notes anything of a step, and it does so
once, when all that happens below has happened: what is exported is the list of the steps that were taken. -/

namespace Workflow

/-! ### Notes -/

def Journal.notes (j : Journal) : Journal := { j with warnings := [] }

/-- Nothing has been noted of any step since. Notes are exported under reserved keys, which are documented to be the
run's own, so this is assumed of units of other makes as well. -/
def Context.KeepsNotes (c c' : Context) : Prop := c'.journal.notes = c.journal.notes

open Context (KeepsNotes)

theorem Context.keepsNotes_written : Written KeepsNotes where
  refl _ := rfl
  trans h h' := h'.trans h
  warn _ _ := rfl
  insert c key v := by
    unfold KeepsNotes insert
    split <;> rfl

namespace Journal

def record (j : Journal) (stepId : String) : StepOutcome → Journal
  | .completed values _ => (j.recordTiming stepId 0).recordCompletion stepId (!values.isEmpty)
  | _ => j.recordTiming stepId 0

theorem record_notes (j : Journal) (stepId : String) (outcome : StepOutcome) :
    (j.record stepId outcome).notes = j.notes.record stepId outcome := by
  cases outcome <;> rfl

end Journal

theorem instrumentedLayer_journal (stepId : String) (inner : Layer) (call : Call) :
    (instrumentedLayer stepId inner call).2.journal =
      (inner call).2.journal.record stepId (instrumentedLayer stepId inner call).1 := by
  unfold instrumentedLayer Journal.record
  rfl

/-! ### Steps -/

/-- A visit has left one note, of its own step, of what the step came to. -/
def Visit.Noted (v : Visit) : Prop :=
  v.after.journal.notes = (v.before.journal.record v.stepId v.outcome).notes

namespace Level

variable {host : Host} {limits : Limits} {level : Level} {run : Level → Report}

/-- The journals of items are dropped and those of children stay with them, so neither shows in the note of a step. -/
theorem visit_noted (hreg : host.registry.Keeps KeepsNotes) (hb : level.Built host limits) {v : Visit}
    (hv : v ∈ (level.run (host.unitsOver run)).visits) : v.Noted := by
  obtain ⟨p, hp, _⟩ := visit_eq hv
  obtain ⟨step, entry, hd⟩ := hb.declares hp
  have hR := Context.keepsNotes_written
  have hbody : KeepsNotes v.before (p.body (host.unitOf run p) (level.call v)).2 :=
    Pipeline.body_keeps hR fun a _ => hb.core_keeps hR.toCarried (fun _ _ => rfl) hreg hp a
  have hjournal := instrumentedLayer_journal p.stepId (p.body (host.unitOf run p)) (level.call v)
  have hlayer : instrumentedLayer p.stepId (p.body (host.unitOf run p)) (level.call v) = (v.outcome, v.after) :=
    visit_layer hv hp
  rw [hlayer, hd.stepId] at hjournal
  calc v.after.journal.notes
      = ((p.body (host.unitOf run p) (level.call v)).2.journal.record v.stepId v.outcome).notes := by rw [hjournal]
    _ = (v.before.journal.record v.stepId v.outcome).notes := by
      rw [Journal.record_notes, Journal.record_notes, hbody]

end Level

/-! ### Runs -/

namespace Journal

def recordAll (j : Journal) (visits : List Visit) : Journal :=
  visits.foldl (fun j v => j.record v.stepId v.outcome) j

end Journal

theorem Visit.left_notes (v : Visit) : v.left.journal.notes = v.after.journal.notes :=
  Context.keepsNotes_written.left v

theorem Trail.notes {plan : Plan} {first last : Context} {visits : List Visit} {ending : WalkEnd}
    (h : Trail plan first visits ending last) (hnoted : ∀ v ∈ visits, v.Noted) :
    last.journal.notes = first.journal.notes.recordAll visits := by
  induction h with
  | cut c fault => rfl
  | @stop v first last ending henter hf hleave =>
    subst henter hleave
    rw [hnoted v (List.mem_singleton_self v), Journal.record_notes]
    rfl
  | @go v rest first last ending next henter hf onward ih =>
    subst henter
    have hv : v.after.journal.notes = v.before.journal.notes.record v.stepId v.outcome :=
      (hnoted v List.mem_cons_self).trans (Journal.record_notes _ _ _)
    rw [ih fun w hw => hnoted w (List.mem_cons_of_mem v hw), v.left_notes, hv]
    rfl

/-- The journal at the end of a level tells of its visits and nothing else, also when inputs are missing. -/
theorem Level.run_notes {level : Level} {units : UnitMaker} (hnoted : ∀ v ∈ (level.run units).visits, v.Noted) :
    (level.run units).context.journal.notes = level.context.journal.notes.recordAll (level.run units).visits := by
  have hR := Context.keepsNotes_written
  rcases level.run_cases units with ⟨fault, _, hrun⟩ | ⟨_, w, hrun, htrail⟩
  · rw [hrun]
    rfl
  · rw [hrun, Walk.report_visits] at hnoted ⊢
    have henter : KeepsNotes level.context (level.plan.enter level.context level.bindings) :=
      hR.enter (fun _ _ => rfl) level.plan level.context level.bindings
    have hreport : KeepsNotes w.context (w.report level.plan level.bindings).context :=
      w.report_keeps hR.toCarried level.plan level.bindings
    rw [hreport, htrail.notes hnoted, henter]

/-! ### What the notes say -/

def Visit.completion? (v : Visit) : Option (String × Fields) :=
  match v.outcome with
  | .completed values _ => some (v.stepId, values)
  | _ => none

/-- The steps that completed, in the order they were taken, each with its output. -/
def completions (visits : List Visit) : Assoc Fields := visits.filterMap Visit.completion?

theorem keys_completions_sublist (visits : List Visit) :
    (Assoc.keys (completions visits)).Sublist (visits.map Visit.stepId) := by
  unfold completions
  induction visits with
  | nil => exact .slnil
  | cons v rest ih =>
    rw [List.filterMap_cons]
    unfold Visit.completion?
    cases v.outcome with
    | completed values action => exact ih.cons_cons v.stepId
    | failed failure => exact ih.cons v.stepId
    | aborted fault => exact ih.cons v.stepId

namespace Journal

/-- The journal that tells of each visit once. -/
def telling (visits : List Visit) : Journal where
  completed := Assoc.keys (completions visits)
  cacheHits := (completions visits).map fun e => (e.1, .bool false)
  modified := (completions visits).map fun e => (e.1, .bool (!e.2.isEmpty))
  timings := visits.map fun v => (v.stepId, .nat 0)
  warnings := []

/-- A note of a step that has none yet comes after all others. -/
theorem telling_record {visits : List Visit} {v : Visit} (hnew : v.stepId ∉ visits.map Visit.stepId) :
    (telling visits).record v.stepId v.outcome = telling (visits ++ [v]) := by
  have hdone : v.stepId ∉ Assoc.keys (completions visits) := fun hmem =>
    hnew ((keys_completions_sublist visits).subset hmem)
  have htimed : (telling visits).recordTiming v.stepId 0 =
      { telling visits with timings := (visits ++ [v]).map fun v => (v.stepId, .nat 0) } := by
    have hkeys : v.stepId ∉ Assoc.keys (telling visits).timings := by
      rw [telling, Assoc.keys, List.map_map]
      exact hnew
    rw [recordTiming, Assoc.put_eq_append hkeys, List.map_append]
    rfl
  have hcompletions : completions (visits ++ [v]) = completions visits ++ v.completion?.toList := by
    unfold completions
    rw [List.filterMap_append]
    cases h : v.completion? <;> simp [h]
  unfold record
  rw [htimed]
  unfold Visit.completion? at hcompletions
  cases hv : v.outcome with
  | completed values action =>
    have hput (f : String × Fields → Json) :
        Assoc.put v.stepId (f (v.stepId, values)) ((completions visits).map fun e => (e.1, f e)) =
          (completions (visits ++ [v])).map fun e => (e.1, f e) := by
      have hkeys : v.stepId ∉ Assoc.keys ((completions visits).map fun e => (e.1, f e)) := by
        rw [Assoc.keys, List.map_map]
        exact hdone
      rw [Assoc.put_eq_append hkeys, hcompletions, hv, List.map_append]
      rfl
    have hkeys : Assoc.keys (completions (visits ++ [v])) = Assoc.keys (completions visits) ++ [v.stepId] := by
      rw [hcompletions, hv, Assoc.keys, List.map_append]
      rfl
    simp only [recordCompletion, telling, hkeys, ← hput]
  | _ =>
    rw [hv] at hcompletions
    simp only [telling, hcompletions, Option.toList_none, List.append_nil]

/-- Where no step is taken twice the notes of all visits tell of each once. The induction is on the last visit, since
notes are added at the end. -/
theorem recordAll_eq_telling {visits : List Visit} (hnodup : (visits.map Visit.stepId).Nodup) :
    empty.recordAll visits = telling visits := by
  induction visits using List.reverseRecOn with
  | nil => rfl
  | append_singleton visits v ih =>
    rw [List.map_append, List.nodup_append] at hnodup
    obtain ⟨hbefore, _, hnew⟩ := hnodup
    have hfresh : v.stepId ∉ visits.map Visit.stepId := fun hmem => hnew _ hmem _ List.mem_cons_self rfl
    have hfold : empty.recordAll (visits ++ [v]) = (empty.recordAll visits).record v.stepId v.outcome :=
      List.foldl_append
    rw [hfold, ih hbefore, telling_record hfresh]

end Journal

/-! ### The steps of the record -/

/-- The step of the outermost level whose end an entry tells of. -/
def Entry.taken? : Entry → Option Visit
  | ⟨0, .ended v⟩ => some v
  | _ => none

namespace Host

variable {host : Host} {run : Level → Report} {record : Level → List Entry} {level : Level}

theorem taken?_childEntries {p : Pipeline} {a : Call} :
    ∀ e ∈ host.childEntries record p a, e.taken? = none := by
  intro e he
  rcases mem_childEntries.mp he with ⟨_, _, inner, _, rfl⟩ | ⟨_, _, rfl⟩
  · rfl
  · rfl

/-- Of all that is recorded of a step, only its end tells of a step of the level: no attempt and nothing below does. -/
theorem taken?_visitEntries {p : Pipeline} {v : Visit} (hp : level.plan.pipeline? v.stepId = some p) :
    (host.visitEntries run record level v).filterMap Entry.taken? = [v] := by
  have hattempts : ((p.attempts (host.unitOf run p) (level.call v)).flatMap
      (host.attemptEntries run record p)).filterMap Entry.taken? = [] := by
    rw [List.filterMap_eq_nil_iff]
    intro e he
    obtain ⟨a, _, he⟩ := List.mem_flatMap.mp he
    rcases List.mem_append.mp he with he | he
    · exact taken?_childEntries e he
    · rw [List.mem_singleton.mp he]
      rfl
  simp only [visitEntries, hp, List.filterMap_append, hattempts]
  rfl

theorem taken?_levelEntries :
    (host.levelEntries run record level).filterMap Entry.taken? = (level.run (host.unitsOver run)).visits := by
  have hvisits : (level.run (host.unitsOver run)).visits.flatMap
      (fun v => (host.visitEntries run record level v).filterMap Entry.taken?) =
        (level.run (host.unitsOver run)).visits.flatMap fun v => [v] := by
    refine List.flatMap_congr fun v hv => ?_
    obtain ⟨p, hp, _⟩ := Level.visit_eq hv
    exact taken?_visitEntries hp
  rw [List.flatMap_singleton', ← List.filterMap_flatMap] at hvisits
  exact hvisits

/-- The steps that a run takes are those whose end the record tells of at the outermost level. -/
theorem taken_of_record (host : Host) (level : Level) :
    (host.record level).filterMap Entry.taken? = (host.report level).visits :=
  taken?_levelEntries

end Host

/-! ### The exported journal -/

/-- What is exported says of each step that was taken, and of no other, what became of it. -/
structure Truthful (d : Document) (visits : List Visit) (shared : Fields) : Prop where
  declared : ∀ v ∈ visits, v.stepId ∈ d.stepIds
  takenOnce : (visits.map Visit.stepId).Nodup
  completedOnce : (Assoc.keys (completions visits)).Nodup
  completed : Assoc.get? shared "__completed_nodes__" = some (.strs (Assoc.keys (completions visits)))
  cacheHits : Assoc.get? shared "__cache_hits__" =
    some (.obj ((completions visits).map fun e => (e.1, .bool false)))
  modified : Assoc.get? shared "__modified_nodes__" =
    some (.obj ((completions visits).map fun e => (e.1, .bool (!e.2.isEmpty))))
  timed : ∃ timings, Assoc.get? shared "__node_timings_ms__" = some (.obj timings) ∧
    Assoc.keys timings = visits.map Visit.stepId

/-- The journal is exported under keys of its own, whatever the data. -/
theorem Context.shared_journal (c : Context) :
    Assoc.get? c.shared "__completed_nodes__" = some (.strs c.journal.completed) ∧
      Assoc.get? c.shared "__cache_hits__" = some (.obj c.journal.cacheHits) ∧
      Assoc.get? c.shared "__modified_nodes__" = some (.obj c.journal.modified) ∧
      Assoc.get? c.shared "__node_timings_ms__" = some (.obj c.journal.timings) := by
  simp only [shared, Assoc.get?_putAll]
  exact ⟨rfl, rfl, rfl, rfl⟩

theorem Context.truthful_of_notes {c : Context} {d : Document} {visits : List Visit}
    (hdeclared : ∀ v ∈ visits, v.stepId ∈ d.stepIds) (honce : (visits.map Visit.stepId).Nodup)
    (hnotes : c.journal.notes = .telling visits) : Truthful d visits c.shared := by
  obtain ⟨hcompleted, hhits, hmodified, htimings⟩ := c.shared_journal
  have hread : ∀ field : Journal → Json, field c.journal.notes = field (.telling visits) :=
    fun field => congrArg field hnotes
  refine ⟨hdeclared, honce, honce.sublist (keys_completions_sublist visits), ?_, ?_, ?_, _, htimings, ?_⟩
  · exact hcompleted.trans (congrArg some (hread fun j => .strs j.completed))
  · exact hhits.trans (congrArg some (hread fun j => .obj j.cacheHits))
  · exact hmodified.trans (congrArg some (hread fun j => .obj j.modified))
  · have htold : c.journal.timings = visits.map fun v => (v.stepId, Json.nat 0) :=
      Json.obj.inj (hread fun j => .obj j.timings)
    rw [htold, Assoc.keys, List.map_map]
    rfl

/-- The exported journal of a run is the list of its own steps: whatever happened below them, in items or in children,
and however the run has ended, each step is told of once and as it came out. -/
theorem Host.journal_is_truthful (host : Host) (hreg : host.registry.Keeps KeepsNotes) {d : Document} {params : Fields}
    {options : PlanOptions} {plan : Plan} (hplan : host.plan d params options = .ok plan) :
    Truthful d ((host.record (plan.top params)).filterMap Entry.taken?) (host.run d params options).shared := by
  obtain ⟨hnodup, hdeclared⟩ := Level.visits_nodup (show Plan.build _ _ d = .ok (plan.top params).plan from hplan)
    (host.unitsOver (host.runWithin plan.limits.maxDepth))
  have hnotes : (host.report (plan.top params)).context.journal.notes =
      .telling (host.report (plan.top params)).visits := by
    rw [report_top, Level.run_notes fun v hv => Level.visit_noted hreg (top_built hplan) hv]
    exact Journal.recordAll_eq_telling hnodup
  rw [run_of_plan hplan, taken_of_record]
  rw [← report_top] at hnodup hdeclared
  exact Context.truthful_of_notes hdeclared hnodup hnotes

/-- Has a batch, a child that its caller shares all data with, a step whose failure is caught, a step that gives nothing
and, at the end, a failure that is not caught. -/
def auditedDocument : Document where
  version := "1"
  name := none
  start := none
  steps :=
    [⟨"each", "echo", none, [("text", .str "${item}")], some ⟨"${names}", "item", .carryOn⟩⟩,
      ⟨"greet", "workflow", none,
        [("workflow_ir", helloDocument.toJson), ("param_mapping", .obj [("name", .str "all")]),
          ("storage_mode", .str "shared")], none⟩,
      ⟨"close", "fail", none, [], none⟩, ⟨"rest", "echo", none, [], none⟩, ⟨"last", "fail", none, [], none⟩]
  edges := [⟨"each", "greet", none⟩, ⟨"greet", "close", none⟩, ⟨"close", "rest", some "error"⟩, ⟨"rest", "last", none⟩]
  inputs := []
  outputs := []
  mode := .strict

theorem journal_is_truthful_audited :
    ∃ host : Host, ∃ plan, host.plan auditedDocument [("names", .arr [.str "a", .str "b"])] {} = .ok plan ∧
      Truthful auditedDocument
        ((host.record (plan.top [("names", .arr [.str "a", .str "b"])])).filterMap Entry.taken?)
        (host.run auditedDocument [("names", .arr [.str "a", .str "b"])] {}).shared ∧
      Assoc.get? (host.run auditedDocument [("names", .arr [.str "a", .str "b"])] {}).shared "__modified_nodes__" =
        some (.obj [("each", .bool true), ("greet", .bool false), ("rest", .bool false)]) ∧
      Assoc.get? (host.run auditedDocument [("names", .arr [.str "a", .str "b"])] {}).shared "__node_timings_ms__" =
        some (.obj [("each", .nat 0), ("greet", .nat 0), ("close", .nat 0), ("rest", .nat 0), ("last", .nat 0)]) := by
  let host : Host := ⟨.builtin, .empty⟩
  let params : Fields := [("names", .arr [.str "a", .str "b"])]
  have hreg : host.registry.Keeps KeepsNotes := Registry.builtin_keeps Context.keepsNotes_written.refl
  have haccepted : ((host.plan auditedDocument params {}).toOption.any fun _ => true) = true := by decide +kernel
  obtain ⟨plan, hplan, _⟩ := any_toOption.mp haccepted
  exact ⟨host, plan, hplan, host.journal_is_truthful hreg hplan, by decide +kernel, by decide +kernel⟩

end Workflow
