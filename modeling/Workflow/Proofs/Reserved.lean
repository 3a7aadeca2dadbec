import Workflow.Proofs.Sharing

/-! Reserved keys cannot be forged. Whatever is done to a context through its operations, no reserved key gets into its
data, so those that are exported are the ones laid over it: the journal of the run and its frame. -/

namespace Workflow

/-! ### Contexts that can be reached -/

namespace Context

/-- What a context lets be done to it, in any order and any number of times. Nothing among it moves the frame. -/
inductive Reaches (c : Context) : Context → Prop where
  | refl : Reaches c c
  | scratch {d : Context} (h : Reaches c d) : Reaches c d.scratch
  | guardKeys {d : Context} (h : Reaches c d) (keys : List String) : Reaches c (d.guardKeys keys)
  | insert {d : Context} (h : Reaches c d) (key : String) (v : Json) : Reaches c (d.insert key v)
  | remove {d : Context} (h : Reaches c d) (key : String) : Reaches c (d.remove key)
  | replaceData {d : Context} (h : Reaches c d) (data : Fields) : Reaches c (d.replaceData data)
  | noted {d : Context} (h : Reaches c d) (journal : Journal) : Reaches c { d with journal := journal }

theorem Reaches.trans {a b c : Context} (h : Reaches a b) (h' : Reaches b c) : Reaches a c := by
  induction h' with
  | refl => exact h
  | scratch _ ih => exact ih.scratch
  | guardKeys _ keys ih => exact ih.guardKeys keys
  | insert _ key v ih => exact ih.insert key v
  | remove _ key ih => exact ih.remove key
  | replaceData _ data ih => exact ih.replaceData data
  | noted _ journal ih => exact ih.noted journal

theorem reaches_kept : Kept Reaches where
  refl _ := .refl
  trans := .trans
  warn c warnings := Reaches.refl.noted (c.journal.warn warnings)
  insert _ key v := Reaches.refl.insert key v
  noted _ journal _ := Reaches.refl.noted journal

theorem Reaches.frame {c d : Context} (h : Reaches c d) : d.frame = c.frame := by
  induction h with
  | refl => rfl
  | insert _ key v ih => rw [insert_frame, ih]
  | _ => assumption

theorem clean_iff {c : Context} : c.Clean ↔ ∀ key ∈ Assoc.keys c.data, isReserved key = false := by
  constructor
  · intro h key hmem
    by_contra hkey
    rw [Bool.not_eq_false] at hkey
    rw [← Assoc.get?_isSome_iff, h key hkey] at hmem
    cases hmem
  · intro h key hkey
    refine Assoc.get?_eq_none_of_not_mem fun hmem => ?_
    rw [h key hmem] at hkey
    cases hkey

/-- No operation lets a reserved key into clean data. -/
theorem Reaches.clean {c d : Context} (h : Reaches c d) (hc : c.Clean) : d.Clean := by
  induction h with
  | refl => exact hc
  | insert _ key v ih => exact clean_kept.insert _ key v ih
  | @remove d _ key ih =>
    rw [clean_iff] at ih ⊢
    intro k hk
    obtain ⟨e, he, rfl⟩ := List.mem_map.mp hk
    exact ih e.1 (List.mem_map_of_mem (Assoc.mem_swapRemove he))
  | replaceData _ data _ => exact clean_withoutReserved data rfl
  | _ => assumption

/-- A context that was made for a frame, with whatever data, and has been worked on since. -/
def Made (c : Context) : Prop := ∃ data frame, (start data frame).Reaches c

theorem made_start (data : Fields) (frame : CallFrame) : (start data frame).Made := ⟨data, frame, .refl⟩

theorem Made.reaches {c d : Context} (hc : c.Made) (h : c.Reaches d) : d.Made := by
  obtain ⟨data, frame, hstart⟩ := hc
  exact ⟨data, frame, hstart.trans h⟩

theorem Made.clean {c : Context} (h : c.Made) : c.Clean := by
  obtain ⟨data, frame, hstart⟩ := h
  exact hstart.clean (clean_withoutReserved data rfl)

/-- The reserved entries of an exported context: its own journal and its own frame. -/
def overlay (c : Context) : Fields :=
  [("__completed_nodes__", .strs c.journal.completed), ("__cache_hits__", .obj c.journal.cacheHits),
    ("__modified_nodes__", .obj c.journal.modified), ("__node_timings_ms__", .obj c.journal.timings),
    ("__workflow_depth__", .nat c.frame.depth), ("__workflow_stack__", .strs c.frame.stack)]

theorem reserved_of_overlay (c : Context) : ∀ key ∈ Assoc.keys c.overlay, isReserved key = true := by
  unfold overlay
  simp only [Assoc.keys, List.map_cons, List.map_nil, List.mem_cons, List.not_mem_nil, or_false, forall_eq_or_imp,
    forall_eq]
  decide

/-- What is laid over clean data hides nothing of it. -/
theorem Clean.shared_eq {c : Context} (h : c.Clean) : c.shared = c.data ++ c.overlay := by
  show Assoc.putAll c.data c.overlay = c.data ++ c.overlay
  refine Assoc.putAll_eq_append_of_new ?_ ?_
  · unfold overlay
    simp only [Assoc.keys, List.map_cons, List.map_nil]
    decide
  · intro key hkey hmem
    have hreserved := c.reserved_of_overlay key hkey
    rw [clean_iff.mp h key hmem] at hreserved
    cases hreserved

theorem Clean.reserved_shared {c : Context} (h : c.Clean) : c.shared.filter (fun e => isReserved e.1) = c.overlay := by
  have hdata : c.data.filter (fun e => isReserved e.1) = [] := by
    rw [List.filter_eq_nil_iff]
    intro e he
    rw [clean_iff.mp h e.1 (List.mem_map_of_mem he)]
    exact Bool.false_ne_true
  have hoverlay : c.overlay.filter (fun e => isReserved e.1) = c.overlay := by
    rw [List.filter_eq_self]
    exact fun e he => c.reserved_of_overlay e.1 (List.mem_map_of_mem he)
  rw [h.shared_eq, List.filter_append, hdata, hoverlay, List.nil_append]

end Context

open Context (Reaches reaches_kept)

/-- Nothing has been forged in a context, and nothing can be by what is made of several operations: storing output,
binding inputs, running a batch over whatever layer and taking over what a child hands back. -/
structure Context.Unforged (c : Context) : Prop where
  clean : c.Clean
  commit : ∀ stepId values, (c.commit stepId values).Made
  enter : ∀ (plan : Plan) bindings, (plan.enter c bindings).Made
  batch : ∀ stepId batch maxErrors inner params bindings mode,
    (batchLayer stepId batch maxErrors inner ⟨c, params, bindings, mode⟩).2.Made
  finish : ∀ stepId prepared executed, (Subworkflow.finish stepId c prepared executed).1.Made

theorem Context.Made.unforged {c : Context} (h : c.Made) : c.Unforged where
  clean := h.clean
  commit stepId values := h.reaches (reaches_kept.commit c stepId values)
  enter plan bindings := h.reaches (reaches_kept.enter (fun _ keys => Reaches.refl.guardKeys keys) plan c bindings)
  batch stepId batch maxErrors inner params bindings mode :=
    h.reaches (Pipeline.batchLayer_keeps reaches_kept.toWritten stepId batch maxErrors inner ⟨c, params, bindings, mode⟩)
  finish stepId prepared executed :=
    h.reaches (Subworkflow.finish_keeps reaches_kept.toCarried (fun _ data => Reaches.refl.replaceData data) stepId c
      prepared executed)

/-! ### Contexts along a run -/

namespace Level

variable {host : Host} {limits : Limits} {level : Level} {run : Level → Report}

theorem reaches (hreg : host.registry.Keeps Reaches) (hb : level.Built host limits) :
    level.context.Reaches (level.run (host.unitsOver run)).context ∧
      ∀ v ∈ (level.run (host.unitsOver run)).visits,
        level.context.Reaches v.before ∧ level.context.Reaches v.after := by
  have hvisits : ∀ v ∈ (level.run (host.unitsOver run)).visits, v.before.Reaches v.after :=
    fun v hv => hb.visits_keep reaches_kept (fun _ data => Reaches.refl.replaceData data) hreg hv
  obtain ⟨hend, hall⟩ := run_keeps reaches_kept (fun _ keys => Reaches.refl.guardKeys keys) hvisits
  exact ⟨hend, fun v hv => ⟨(hall v hv).1, (hall v hv).1.trans (hvisits v hv)⟩⟩

/-- An attempt of a step begins in the context of the step or, for an item of a batch, in a copy of it. -/
theorem attempt_reaches (hreg : host.registry.Keeps Reaches) (hb : level.Built host limits) {v : Visit}
    (hv : v ∈ (level.run (host.unitsOver run)).visits) {p : Pipeline} (hp : level.plan.pipeline? v.stepId = some p)
    {a : Call} (ha : a ∈ p.attempts (host.unitOf run p) (level.call v)) :
    level.context.Reaches a.context ∧ level.context.Reaches (p.attempt (host.unitOf run p) a).2 := by
  have hbefore : level.context.Reaches v.before := ((reaches hreg hb).2 v hv).1
  have hcall : level.context.Reaches a.context := by
    rcases Pipeline.mem_attempts ha with ⟨_, rfl⟩ | ⟨batch, item, _, rfl⟩
    · exact hbefore
    · exact hbefore.scratch
  have hcore : a.context.Reaches (p.core (host.unitOf run p) a).2 :=
    hb.core_keeps reaches_kept.toCarried (fun _ data => Reaches.refl.replaceData data) hreg hp a
  exact ⟨hcall, (hcall.trans hcore).trans (Pipeline.core_attempt reaches_kept.toWritten a)⟩

end Level

namespace Host

variable {host : Host} {limits : Limits} {level child : Level} {run : Level → Report}

theorem Opens.made (h : host.Opens run level child) : child.context.Made := by
  obtain ⟨v, _, p, _, a, _, hchild⟩ := h
  obtain ⟨_, call, _, hopened⟩ := child?_eq_some hchild
  rw [opened_eq] at hopened
  obtain ⟨i, _, hopen⟩ := bind_eq_ok.mp hopened
  rw [Subworkflow.openLevel_context hopen]
  exact Context.made_start i.data i.frame

/-- At every level of a run, each context that a step, an item or a child begins or ends in is one that was made. -/
theorem made_of_recordWithin (hreg : host.registry.Keeps Reaches) (levels : Nat) (hb : level.Built host limits)
    (hmade : level.context.Made) :
    ∀ e ∈ host.recordWithin levels level, ∀ c ∈ e.event.contexts, c.Made := by
  induction levels generalizing level with
  | zero => exact fun e he => absurd he List.not_mem_nil
  | succ levels ih =>
    intro e he c hc
    rcases levelEntries_cases he with rfl | ⟨v, hv, rfl | ⟨p, hp, a, ha, he⟩⟩
    · rw [List.mem_singleton.mp hc]
      exact hmade
    · obtain ⟨hbefore, hafter⟩ := (Level.reaches hreg hb).2 v hv
      rcases List.mem_pair.mp hc with rfl | rfl
      · exact hmade.reaches hbefore
      · exact hmade.reaches hafter
    · obtain ⟨hcall, hafter⟩ := Level.attempt_reaches hreg hb hv hp ha
      rcases List.mem_append.mp he with he | he
      · rcases mem_childEntries.mp he with ⟨child, hchild, inner, hinner, rfl⟩ | ⟨fault, _, rfl⟩
        · have hopens : host.Opens (host.runWithin levels) level child := ⟨v, hv, p, hp, a, ha, hchild⟩
          exact ih (hopens.built hb) hopens.made inner hinner c hc
        · exact absurd hc List.not_mem_nil
      · rw [List.mem_singleton.mp he] at hc
        rcases List.mem_pair.mp hc with rfl | rfl
        · exact hmade.reaches hcall
        · exact hmade.reaches hafter

/-- Whatever names parameters, outputs, mappings and children bring along: a reserved key never gets into the data of a
context, at any level, and the reserved entries of what a run exports are those of its own journal and frame. A run that
never started exports nothing. -/
theorem reserved_keys_are_own (host : Host) (hreg : host.registry.Keeps Reaches) (d : Document) (params : Fields)
    (options : PlanOptions) :
    (∀ c : Context, c.Made → c.Unforged) ∧
      match host.plan d params options with
      | .error _ => (host.run d params options).shared = []
      | .ok plan =>
        (∀ e ∈ host.record (plan.top params), ∀ c ∈ e.event.contexts, c.Made) ∧
          (host.report (plan.top params)).context.Made ∧
          (host.run d params options).shared.filter (fun e => isReserved e.1) =
            let journal := (host.report (plan.top params)).context.journal
            [("__completed_nodes__", .strs journal.completed), ("__cache_hits__", .obj journal.cacheHits),
              ("__modified_nodes__", .obj journal.modified), ("__node_timings_ms__", .obj journal.timings),
              ("__workflow_depth__", .nat 0), ("__workflow_stack__", .strs [plan.identity])] := by
  refine ⟨fun c hc => hc.unforged, ?_⟩
  cases hp : host.plan d params options with
  | error fault =>
    unfold run
    rw [hp]
    rfl
  | ok plan =>
    have hb := top_built hp
    have hmade : (plan.top params).context.Made := Context.made_start [] (.root plan.identity)
    have hend : (plan.top params).context.Reaches (host.report (plan.top params)).context := (Level.reaches hreg hb).1
    have hlast := hmade.reaches hend
    refine ⟨made_of_recordWithin hreg _ hb hmade, hlast, ?_⟩
    have hframe : (host.report (plan.top params)).context.frame = .root plan.identity := hend.frame
    have hshared : (host.run d params options).shared = (host.report (plan.top params)).context.shared := by
      rw [run_of_plan hp]
      rfl
    rw [hshared, hlast.clean.reserved_shared, Context.overlay, hframe]
    rfl

end Host

/-- A child that says where it stands and what has been noted. -/
def forgedDocument : Document where
  version := "1"
  name := none
  start := none
  steps := [⟨"say", "echo", none, [("__node_timings_ms__", .null), ("text", .str "hello")], none⟩]
  edges := []
  inputs := []
  outputs := [("__workflow_stack__", ⟨.any, "", some "${say.text}"⟩)]
  mode := .strict

/-- Gives reserved names as output, hands such names to a child through a prefix that is cut off, and takes them from a
child that it shares all data with. -/
def forgingDocument : Document where
  version := "1"
  name := "forgery"
  start := none
  steps :=
    [⟨"forge", "echo", none, [("__completed_nodes__", .strs []), ("x__cache_hits__", .null)], none⟩,
      ⟨"scoped", "workflow", none,
        [("workflow_ir", forgedDocument.toJson), ("storage_mode", .str "scoped"), ("scope_prefix", .str "x"),
          ("output_mapping", .obj [("say.text", .str "__modified_nodes__")])], none⟩,
      ⟨"shared", "workflow", none,
        [("workflow_ir", forgedDocument.toJson), ("storage_mode", .str "shared"),
          ("param_mapping", .obj [("__workflow_depth__", .nat 7)])], none⟩]
  edges := [⟨"forge", "scoped", none⟩, ⟨"scoped", "shared", none⟩]
  inputs := []
  outputs := []
  mode := .strict

theorem reserved_keys_are_own_forging :
    ∃ host : Host, ∃ plan, host.plan forgingDocument [("__workflow_stack__", .strs ["elsewhere"])] {} = .ok plan ∧
      (∀ c : Context, c.Made → c.Unforged) ∧
      (∀ e ∈ host.record (plan.top [("__workflow_stack__", .strs ["elsewhere"])]), ∀ c ∈ e.event.contexts, c.Made) ∧
      (host.run forgingDocument [("__workflow_stack__", .strs ["elsewhere"])] {}).shared.filter
          (fun e => isReserved e.1) =
        [("__completed_nodes__", .strs ["forge", "scoped", "shared"]),
          ("__cache_hits__", .obj [("forge", .bool false), ("scoped", .bool false), ("shared", .bool false)]),
          ("__modified_nodes__", .obj [("forge", .bool true), ("scoped", .bool true), ("shared", .bool true)]),
          ("__node_timings_ms__", .obj [("forge", .nat 0), ("scoped", .nat 0), ("shared", .nat 0)]),
          ("__workflow_depth__", .nat 0), ("__workflow_stack__", .strs ["forgery"])] := by
  let host : Host := ⟨.builtin, .empty⟩
  let params : Fields := [("__workflow_stack__", .strs ["elsewhere"])]
  have haccepted : ((host.plan forgingDocument params {}).toOption.any fun _ => true) = true := by decide +kernel
  obtain ⟨plan, hp, _⟩ := any_toOption.mp haccepted
  have hown := Host.reserved_keys_are_own host (Registry.builtin_keeps reaches_kept.refl) forgingDocument params {}
  rw [hp] at hown
  obtain ⟨hunforged, hmade, _⟩ := hown
  exact ⟨host, plan, hp, hunforged, hmade, by decide +kernel⟩

end Workflow
