import Workflow.Proofs.Parameters
import Workflow.Proofs.Recording

/-! What a child can tell of its caller. Unless the step is run in shared mode, the data of the caller reaches a child
only as far as its storage mode lets it through, and the caller learns of the child only by values and warnings; two
callers that differ in the rest get the same child and the same from it. -/

namespace Workflow

/-! ### The data that a child starts from -/

theorem Assoc.mem_of_mem_ofList {β : Type} {entries : List (String × β)} {e : String × β} (h : e ∈ ofList entries) :
    e ∈ entries := by
  have hdistinct : (keys (ofList entries)).Nodup := @nodup_keys_putAll _ [] List.nodup_nil entries
  have hget : get? (ofList entries) e.1 = some e.2 := get?_of_mem hdistinct h
  rw [ofList, get?_putAll, get?_nil, Option.or_none] at hget
  exact List.mem_reverse.mp (mem_of_get? hget)

theorem Text.after?_eq_some {start text rest : String} : after? start text = some rest ↔ text = start ++ rest := by
  unfold after?
  constructor
  · intro h
    split at h
    · rename_i hstarts
      obtain ⟨tail, htail⟩ := List.isPrefixOf_iff_prefix.mp hstarts
      cases h
      apply String.toList_injective
      simp [← htail]
    · cases h
  · rintro rfl
    simp

namespace StorageMode

/-- The entries of the caller that a child is let see. -/
def visible (mode : StorageMode) (start : String) (caller : Fields) : Fields :=
  match mode with
  | .mapped | .isolated => []
  | .scoped => caller.filter fun e => start.toList.isPrefixOf e.1.toList
  | .shared => caller

def below (start : String) (caller : Fields) : List (String × Json) :=
  caller.filterMap fun e => ((Text.after? start e.1).filter fun rest => !rest.isEmpty).map fun rest => (rest, e.2)

theorem childData_visible (mode : StorageMode) (caller mapping : Fields) (start : String) :
    mode.childData (mode.visible start caller) mapping start = mode.childData caller mapping start := by
  match mode with
  | .mapped | .isolated | .shared => rfl
  | .scoped =>
    simp only [childData, visible, List.filterMap_filter]
    congr 1
    refine List.filterMap_congr fun e _ => ?_
    split
    · rfl
    · rename_i hstarts
      simp [Text.after?, hstarts]

theorem mem_below {start : String} {caller : Fields} {key : String} {v : Json} :
    (key, v) ∈ below start caller ↔ key ≠ "" ∧ (start ++ key, v) ∈ caller := by
  simp only [below, List.mem_filterMap, Option.map_eq_some_iff, Option.filter_eq_some_iff, Text.after?_eq_some]
  constructor
  · rintro ⟨⟨k, w⟩, hmem, rest, ⟨hsplit, hne⟩, heq⟩
    cases heq
    cases hsplit
    exact ⟨by simpa using hne, hmem⟩
  · rintro ⟨hne, hmem⟩
    exact ⟨_, hmem, key, ⟨rfl, by simpa using hne⟩, rfl⟩

/-- Cutting the prefix off neither merges two keys nor hides one behind another. -/
theorem last?_below (start : String) (caller : Fields) {key : String} (hne : key ≠ "") :
    Assoc.last? (below start caller) key = Assoc.last? caller (start ++ key) := by
  induction caller with
  | nil => rfl
  | cons e rest ih =>
    obtain ⟨k, v⟩ := e
    rw [Assoc.last?_cons, ← ih]
    by_cases hk : k = start ++ key
    · have hafter : Text.after? start k = some key := Text.after?_eq_some.mpr hk
      rw [below, List.filterMap_cons_some (by simp [hafter, hne]; rfl), Assoc.last?_cons, if_pos rfl, if_pos hk]
      rfl
    · rw [if_neg hk, Option.or_none, below, List.filterMap_cons]
      split
      · rfl
      · rename_i stripped hstripped
        obtain ⟨tail, htail, rfl⟩ := Option.map_eq_some_iff.mp hstripped
        have hsplit : k = start ++ tail := Text.after?_eq_some.mp (Option.filter_eq_some_iff.mp htail).1
        have htailne : tail ≠ key := fun heq => hk (heq ▸ hsplit)
        rw [Assoc.last?_cons, if_neg htailne, Option.or_none]
        rfl

structure Confines (mode : StorageMode) (start : String) (caller mapping data : Fields) : Prop where
  ofMapped : mode = .mapped → ∀ e ∈ data, e ∈ mapping
  ofIsolated : mode = .isolated → data = []
  ofScoped : mode = .scoped → ∀ key v, (key, v) ∈ data → key ≠ "" ∧ (start ++ key, v) ∈ caller
  /-- Nothing below the prefix is lost, either. -/
  whole : mode = .scoped → (Assoc.keys caller).Nodup → ∀ key, key ≠ "" → isReserved key = false →
    Assoc.get? data key = Assoc.get? caller (start ++ key)

theorem confines_childData (mode : StorageMode) (start : String) (caller mapping : Fields) :
    mode.Confines start caller mapping (Context.withoutReserved (mode.childData caller mapping start)) := by
  refine ⟨?_, ?_, ?_, ?_⟩
  · rintro rfl e he
    exact (List.mem_filter.mp he).1
  · rintro rfl
    rfl
  · rintro rfl key v hmem
    exact mem_below.mp (Assoc.mem_of_mem_ofList (List.mem_filter.mp hmem).1)
  · rintro rfl hdistinct key hne hkey
    calc Assoc.get? (Context.withoutReserved (Assoc.ofList (below start caller))) key
      _ = Assoc.get? (Assoc.ofList (below start caller)) key := Context.get?_withoutReserved hkey
      _ = Assoc.last? (below start caller) key := by
        rw [Assoc.ofList, Assoc.get?_putAll, Assoc.get?_nil, Option.or_none]
      _ = Assoc.last? caller (start ++ key) := last?_below start caller hne
      _ = Assoc.get? caller (start ++ key) := Assoc.last?_eq_get? hdistinct _

end StorageMode

/-! ### What a step prepares, and what it makes of its child -/

namespace Subworkflow

/-- Nothing of the caller but its frame and the visible part of its data goes into what is prepared. -/
theorem invocation_congr {files : FileTree} {site : Site} {params : Fields} {context context' : Context}
    (hframe : context'.frame = context.frame)
    (hdata : ∀ mode, storageMode params = .ok mode →
      mode.visible (scopePrefix site params) context'.data = mode.visible (scopePrefix site params) context.data) :
    invocation files site params context' = invocation files site params context := by
  unfold invocation
  cases hmode : storageMode params with
  | error fault => rfl
  | ok mode =>
    have hchild (mapping : Fields) : mode.childData context'.data mapping (scopePrefix site params) =
        mode.childData context.data mapping (scopePrefix site params) := by
      rw [← mode.childData_visible, hdata mode hmode, mode.childData_visible]
    simp only [bind, Except.bind, hframe, hchild]

/-- Unless it is written that everything is shared, taking over what the child hands back only adds warnings. -/
theorem finish_eq_warn (stepId : String) {prepared : Json} (executed : Json)
    (h : prepared.get? "storage_mode" ≠ some (.str "shared")) :
    ∃ warnings output, ∀ context, finish stepId context prepared executed = (context.warn warnings, output) := by
  unfold finish
  simp only [if_neg h]
  split
  · exact ⟨_, _, fun context => rfl⟩
  · exact ⟨_, _, fun context => by rw [Context.warn_warn]⟩

end Subworkflow

namespace Host

variable {host : Host} {run : Level → Report} {p : Pipeline} {a a' call call' : Call} {child : Level}

theorem conclude_eq_warn {prepared : Json} (report : Report)
    (h : prepared.get? "storage_mode" ≠ some (.str "shared")) :
    ∃ outcome warnings, ∀ call, conclude p call prepared child report = (outcome, call.context.warn warnings) := by
  unfold conclude
  cases Subworkflow.judge child.plan.identity report with
  | error fault => exact ⟨.ofUnitFault p.stepId fault, [], fun call => by simp only [Context.warn_nil]⟩
  | ok executed =>
    obtain ⟨warnings, output, hfinish⟩ := Subworkflow.finish_eq_warn p.stepId executed h
    refine ⟨.completed output.values (output.action.getD defaultAction), warnings, fun call => ?_⟩
    simp only [hfinish]

/-- Two calls with the same invocation come to the same, each on its own context. -/
theorem core_of_same_invocation (hw : p.implementation = .subworkflow) (hc : p.leafCall a = .ok call)
    (hc' : p.leafCall a' = .ok call')
    (hshare : Subworkflow.storageMode (Assoc.putAll p.literals call.params) ≠ .ok .shared)
    (hsame : Subworkflow.invocation host.files p.site (Assoc.putAll p.literals call'.params) call'.context =
      Subworkflow.invocation host.files p.site (Assoc.putAll p.literals call.params) call.context) :
    ∃ outcome warnings, p.core (host.unitOf run p) a = (outcome, call.context.warn warnings) ∧
      p.core (host.unitOf run p) a' = (outcome, call'.context.warn warnings) := by
  cases hi : Subworkflow.invocation host.files p.site (Assoc.putAll p.literals call.params) call.context with
  | error fault =>
    refine ⟨.ofUnitFault p.stepId fault, [], ?_, ?_⟩
    · rw [core_of_invocation_error hw hc hi, Context.warn_nil]
    · rw [core_of_invocation_error hw hc' (hsame.trans hi), Context.warn_nil]
  | ok i =>
    have hwritten := Subworkflow.unshared_of_invocation hshare hi
    rw [core_of_invocation hw hc hi, core_of_invocation hw hc' (hsame.trans hi)]
    cases Subworkflow.openLevel host.registry p.site i with
    | error fault =>
      refine ⟨.ofUnitFault p.stepId fault, [], ?_, ?_⟩
      · simp only [Context.warn_nil]
      · simp only [Context.warn_nil]
    | ok child =>
      obtain ⟨outcome, warnings, hconclude⟩ := conclude_eq_warn (run child) hwritten
      exact ⟨outcome, warnings, hconclude call, hconclude call'⟩

/-- The child of a call starts from what its storage mode lets through. -/
theorem confines_child (hc : p.leafCall a = .ok call) (h : host.child? p a = some (.ok child)) :
    ∃ mode mapping, Subworkflow.storageMode (Assoc.putAll p.literals call.params) = .ok mode ∧
      Subworkflow.objectParam (Assoc.putAll p.literals call.params) "param_mapping" = .ok mapping ∧
      mode.Confines (Subworkflow.scopePrefix p.site (Assoc.putAll p.literals call.params)) call.context.data mapping
        child.context.data := by
  obtain ⟨_, inner, hinner, hopened⟩ := child?_eq_some h
  rw [hc] at hinner
  cases hinner
  rw [opened_eq] at hopened
  obtain ⟨i, hi, hopen⟩ := bind_eq_ok.mp hopened
  have hprepares := Subworkflow.prepares_of_invocation hi
  obtain ⟨mapping, hmapping, hdata, _⟩ := hprepares.mapping
  refine ⟨i.storageMode, mapping, hprepares.mode, hmapping, ?_⟩
  rw [Subworkflow.openLevel_data hopen, hdata]
  exact i.storageMode.confines_childData _ _ _

end Host

/-- A workflow step that does not share everything cannot tell apart two callers in the same frame that hand it the same
parameters and agree on the data its storage mode lets through, for mapped and isolated steps none at all. What it
prepares, the child it opens and all that happens below are the same, and so are its outcome and the warnings it leaves.
The child itself starts from no more than what the mode lets through. -/
theorem Host.children_are_isolated (host : Host) (run : Level → Report) {p : Pipeline}
    (hw : p.implementation = .subworkflow) {a : Call} {params : Fields} {c : Context}
    (h : p.handed a = .ok (params, c)) :
    (∀ a' c', p.handed a' = .ok (params, c') → c'.frame = c.frame →
      (∀ mode, Subworkflow.storageMode params = .ok mode → mode ≠ .shared ∧
        mode.visible (Subworkflow.scopePrefix p.site params) c'.data =
          mode.visible (Subworkflow.scopePrefix p.site params) c.data) →
      (host.unitOf run p).prepare params c' = (host.unitOf run p).prepare params c ∧
        host.child? p a' = host.child? p a ∧
        (∀ record, host.childEntries record p a' = host.childEntries record p a) ∧
        ∃ outcome warnings, p.core (host.unitOf run p) a = (outcome, c.warn warnings) ∧
          p.core (host.unitOf run p) a' = (outcome, c'.warn warnings)) ∧
    ∀ child, host.child? p a = some (.ok child) →
      ∃ mode mapping, Subworkflow.storageMode params = .ok mode ∧
        Subworkflow.objectParam params "param_mapping" = .ok mapping ∧
        mode.Confines (Subworkflow.scopePrefix p.site params) c.data mapping child.context.data := by
  obtain ⟨call, hc, rfl, rfl⟩ := Pipeline.handed_eq_ok h
  refine ⟨?_, fun child hchild => confines_child hc hchild⟩
  intro a' c' h' hframe hagree
  obtain ⟨call', hc', hparams, rfl⟩ := Pipeline.handed_eq_ok h'
  have hinvocation : Subworkflow.invocation host.files p.site (Assoc.putAll p.literals call.params) call'.context =
      Subworkflow.invocation host.files p.site (Assoc.putAll p.literals call.params) call.context :=
    Subworkflow.invocation_congr hframe fun mode hmode => (hagree mode hmode).2
  have hchild : host.child? p a' = host.child? p a := by
    simp only [child?, hw, hc, hc', opened_eq, ← hparams, hinvocation]
  refine ⟨?_, hchild, ?_, ?_⟩
  · rw [unitOf, hw]
    exact congrArg (Except.map Invocation.toJson) hinvocation
  · intro record
    unfold childEntries
    rw [hchild]
  · refine core_of_same_invocation hw hc hc' ?_ (hparams ▸ hinvocation)
    exact fun hshared => (hagree .shared hshared).1 rfl

def greetingCall : Pipeline where
  site := ⟨"call", .standard, none⟩
  implementation := .subworkflow
  literals :=
    [("storage_mode", .str "scoped"),
      ("workflow_ir", .obj [("nodes", .arr [.obj [("id", .str "greet"), ("type", .str "echo"),
        ("params", .obj [("text", .str "$\x7bname\x7d")])]])])]
  templated := []
  declared := []
  batch := none

def greetingFrom (data : Fields) : Call := ⟨.start data .empty, [], [], .strict⟩

/-- The child is let see the name below its prefix; it cannot tell what else its two callers know. -/
theorem children_are_isolated_greeting :
    ∃ a a' : Call, a.context.data = [("call.name", .str "Ada"), ("secret", .int 1)] ∧
      a'.context.data = [("secret", .int 2), ("call.name", .str "Ada"), ("call", .null)] ∧
      (Host.child? ⟨.builtin, .empty⟩ greetingCall a' = Host.child? ⟨.builtin, .empty⟩ greetingCall a) ∧
      ∃ child, Host.child? ⟨.builtin, .empty⟩ greetingCall a = some (.ok child) ∧
        child.context.data = [("name", .str "Ada")] ∧
        StorageMode.Confines .scoped "call." a.context.data [] child.context.data := by
  let host : Host := ⟨.builtin, .empty⟩
  let a := greetingFrom [("call.name", .str "Ada"), ("secret", .int 1)]
  let a' := greetingFrom [("secret", .int 2), ("call.name", .str "Ada"), ("call", .null)]
  have hhanded : greetingCall.handed a = .ok (greetingCall.literals, a.context) := rfl
  have hhanded' : greetingCall.handed a' = .ok (greetingCall.literals, a'.context) := rfl
  have hscoped : Subworkflow.storageMode greetingCall.literals = .ok .scoped := by decide +kernel
  have hstarts : Subworkflow.scopePrefix greetingCall.site greetingCall.literals = "call." := by decide +kernel
  have hmapping : Subworkflow.objectParam greetingCall.literals "param_mapping" = .ok [] := by decide +kernel
  have hopened : ((host.child? greetingCall a).any fun opened => opened.toOption.any fun child =>
      child.context.data = [("name", .str "Ada")]) = true := by decide +kernel
  obtain ⟨hsame, hconfined⟩ := Host.children_are_isolated host Host.cutOff rfl hhanded
  have hagree : ∀ mode, Subworkflow.storageMode greetingCall.literals = .ok mode → mode ≠ .shared ∧
      mode.visible (Subworkflow.scopePrefix greetingCall.site greetingCall.literals) a'.context.data =
        mode.visible (Subworkflow.scopePrefix greetingCall.site greetingCall.literals) a.context.data := by
    intro mode hmode
    rw [hscoped] at hmode
    cases hmode
    rw [hstarts]
    decide +kernel
  obtain ⟨_, hchild, _⟩ := hsame a' a'.context hhanded' rfl hagree
  refine ⟨a, a', rfl, rfl, hchild, ?_⟩
  cases hc : host.child? greetingCall a with
  | none =>
    rw [hc] at hopened
    cases hopened
  | some opened =>
    cases opened with
    | error fault =>
      rw [hc] at hopened
      cases hopened
    | ok child =>
      rw [hc] at hopened
      obtain ⟨mode, mapping, hmode, hmap, hconfines⟩ := hconfined child hc
      rw [hscoped] at hmode
      rw [hmapping] at hmap
      rw [hstarts] at hconfines
      cases hmode
      cases hmap
      exact ⟨child, rfl, by simpa [Except.toOption] using hopened, hconfines⟩

end Workflow
