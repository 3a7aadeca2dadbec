import Workflow.Proofs.Defaults
import Workflow.Proofs.Scoping

/-! Binding inputs. A default that is filled in is as good as one that was given: the check of references knows the name
of a declared input either way, and steps see nothing but what is bound. Where an input is missing nothing is run. -/

namespace Workflow

/-! ### Binding and binding again -/

/-- Where every default has a value already, there is nothing to add. -/
theorem addDefaults_of_bound {inputs : Assoc InputSpec} {params : Fields}
    (h : ∀ e ∈ inputs, e.2.default ≠ none → e.1 ∈ Assoc.keys params) : addDefaults inputs params = params := by
  induction inputs with
  | nil => rfl
  | cons e rest ih =>
    have hfirst : addDefaults [e] params = params := by
      simp only [addDefaults, List.foldl_cons, List.foldl_nil]
      split
      · rfl
      · rename_i hnew
        rw [Assoc.contains, Assoc.get?_isSome_iff] at hnew
        split
        · rfl
        · rename_i v hdefault
          exact absurd (h e List.mem_cons_self (by simp [hdefault])) hnew
    rw [addDefaults_cons, hfirst]
    exact ih fun e he => h e (List.mem_cons_of_mem _ he)

section
variable {inputs : Assoc InputSpec} {params bound : Fields}

theorem bindInputs_again (h : bindInputs inputs params = .ok bound) : bindInputs inputs bound = .ok bound := by
  have hmissing : missingInputs inputs bound = [] := by
    rw [List.eq_nil_iff_forall_not_mem]
    intro name hmem
    obtain ⟨spec, hspec, habsent, _, hrequired⟩ := mem_missingInputs.mp hmem
    rw [(optional_of_unbound h hspec habsent).1] at hrequired
    cases hrequired
  have hbound : addDefaults inputs bound = bound := by
    refine addDefaults_of_bound fun e he hdefault => ?_
    obtain ⟨v, hv⟩ := Option.ne_none_iff_exists'.mp hdefault
    rw [(bindInputs_eq_ok h).2]
    exact default_bound he hv params
  rw [bindInputs_of_none_missing hmissing, hbound]

theorem bindInputs_given (h : bindInputs inputs params = .ok bound) {name : String} {v : Json}
    (hv : Assoc.get? params name = some v) : Assoc.get? bound name = some v := by
  obtain ⟨added, hadded, _⟩ := addDefaults_eq_append inputs params
  rw [(bindInputs_eq_ok h).2, hadded, Assoc.get?_append, hv, Option.some_or]

/-- Binding brings no names but those of declared inputs. -/
theorem input_of_mem_keys_bound (h : bindInputs inputs params = .ok bound) {name : String}
    (hname : name ∈ Assoc.keys bound) : name ∈ Assoc.keys inputs ∨ name ∈ Assoc.keys params := by
  obtain ⟨added, hadded, hkeys⟩ := addDefaults_eq_append inputs params
  rw [(bindInputs_eq_ok h).2, hadded, Assoc.keys, List.map_append, List.mem_append] at hname
  exact hname.symm.imp_left (hkeys name)

theorem bindInputs_eq_error {fault : Fault} (h : bindInputs inputs params = .error fault) :
    fault = .missingInputs (missingInputs inputs params) := by
  by_cases hmissing : missingInputs inputs params = []
  · rw [bindInputs_of_none_missing hmissing] at h
    cases h
  · rw [bindInputs_of_missing hmissing] at h
    cases h
    rfl

/-- The names of missing inputs stand in the order of the inputs. -/
theorem missingInputs_sublist (inputs : Assoc InputSpec) (params : Fields) :
    (missingInputs inputs params).Sublist (Assoc.keys inputs) :=
  List.filter_sublist.map Prod.fst

end

/-! ### What the check of references sees -/

namespace DataFlow.Names

/-- Two collections of names that give the same. Whether an input or something external gives a name does not matter. -/
structure Agree (names names' : Names) : Prop where
  steps : names'.steps = names.steps
  order : names'.order = names.order
  itemNames : names'.itemNames = names.itemNames
  given : ∀ base, names'.isGiven base = names.isGiven base

/-- In the order of names, without repetition, there is only one list of the same names. -/
theorem sorted_eraseDups_congr {l l' : List String} (h : ∀ name, name ∈ l' ↔ name ∈ l) :
    (l'.mergeSort fun a b => decide (a ≤ b)).eraseDups = (l.mergeSort fun a b => decide (a ≤ b)).eraseDups := by
  have hsorted (l : List String) : (l.mergeSort fun a b => decide (a ≤ b)).eraseDups.Pairwise (· ≤ ·) := by
    refine List.Pairwise.sublist (eraseDups_sublist _) ?_
    have hpairwise : (l.mergeSort fun a b => decide (a ≤ b)).Pairwise fun a b => decide (a ≤ b) = true := by
      apply List.pairwise_mergeSort
      · intro a b c hab hbc
        exact decide_eq_true (String.le_trans (of_decide_eq_true hab) (of_decide_eq_true hbc))
      · intro a b
        simpa using String.le_total a b
    exact hpairwise.imp of_decide_eq_true
  have hperm : (l'.mergeSort fun a b => decide (a ≤ b)).eraseDups.Perm
      (l.mergeSort fun a b => decide (a ≤ b)).eraseDups := by
    rw [List.perm_ext_iff_of_nodup (nodup_eraseDups _) (nodup_eraseDups _)]
    intro name
    rw [List.mem_eraseDups, List.mem_eraseDups, List.mem_mergeSort, List.mem_mergeSort]
    exact h name
  exact hperm.eq_of_pairwise (fun a b _ _ => String.le_antisymm) (hsorted l') (hsorted l)

namespace Agree

variable {names names' : Names}

theorem candidates (h : names.Agree names') : names'.candidates = names.candidates := by
  refine sorted_eraseDups_congr fun name => ?_
  have hgiven : name ∈ names'.inputs ∨ name ∈ names'.external ↔ name ∈ names.inputs ∨ name ∈ names.external := by
    rw [← isGiven_iff, ← isGiven_iff, h.given]
  simp only [List.mem_append, h.steps, hgiven]

theorem undefined (h : names.Agree names') : names'.undefined = names.undefined := by
  unfold Names.undefined
  rw [h.candidates, h.itemNames]

theorem checkStep (h : names.Agree names') : names'.checkStep = names.checkStep := by
  have hreference : names'.checkReference = names.checkReference := by
    unfold checkReference
    simp only [h.given, h.steps, h.order, h.undefined]
  unfold Names.checkStep
  rw [hreference]

theorem checkOutput (h : names.Agree names') : names'.checkOutput = names.checkOutput := by
  unfold Names.checkOutput
  simp only [h.given, h.steps, h.undefined]

end Agree

end DataFlow.Names

/-- Names that inputs give already may be external besides, without any difference to what is found. -/
theorem DataFlow.validate_congr {d : Document} {external external' : List String}
    (h : ∀ name, name ∈ Assoc.keys d.inputs ∨ name ∈ external' ↔ name ∈ Assoc.keys d.inputs ∨ name ∈ external) :
    validate d external' = validate d external := by
  have hagree (order : Option (List String)) :
      (Names.ofDocument d order external).Agree (Names.ofDocument d order external') := by
    refine ⟨rfl, rfl, rfl, fun base => ?_⟩
    rw [Bool.eq_iff_iff, Names.isGiven_iff, Names.isGiven_iff]
    exact h base
  simp only [validate, checkReferences, (hagree _).checkStep, (hagree _).checkOutput]

theorem Plan.build_congr {registry : Registry} (options : PlanOptions) {d : Document} {external : List String}
    (h : ∀ name, name ∈ Assoc.keys d.inputs ∨ name ∈ external ↔ name ∈ Assoc.keys d.inputs ∨ name ∈ options.external) :
    build registry { options with external := external } d = build registry options d := by
  have hvalidate : validate (view registry d) external = validate (view registry d) options.external := by
    unfold validate
    rw [DataFlow.validate_congr (d := view registry d) h]
  unfold build
  simp only [hvalidate]
  rfl

/-! ### Levels -/

namespace Level

variable {level : Level}

/-- Of its parameters a level sees nothing but what they are bound to. -/
theorem run_of_bound {bound : Fields} (h : bindInputs level.plan.inputs level.params = .ok bound) (units : UnitMaker) :
    { level with params := bound }.run units = level.run units := by
  simp only [run, Plan.execute, bindInputs_again h, h]

theorem run_of_unbound {fault : Fault} (h : bindInputs level.plan.inputs level.params = .error fault)
    (units : UnitMaker) : level.run units = .failing level.plan level.context [] (some fault) [] := by
  simp only [run, Plan.execute, h]

end Level

/-! ### Runs -/

namespace Host

/-- Nothing tells whether a default was given or filled in. -/
structure Transparent (host : Host) (d : Document) (options : PlanOptions) (params bound : Fields) : Prop where
  plan : host.plan d bound options = host.plan d params options
  run : host.run d bound options = host.run d params options
  again : bindInputs d.inputs bound = .ok bound
  given : ∀ name v, Assoc.get? params name = some v → Assoc.get? bound name = some v

/-- A run that lacks the inputs of these names: its one error lists them, and it comes to nothing else. -/
structure Lacking (host : Host) (d : Document) (options : PlanOptions) (params : Fields) (names : List String) :
    Prop where
  missing : ∀ name, name ∈ names ↔
    ∃ spec, (name, spec) ∈ d.inputs ∧ name ∉ Assoc.keys params ∧ spec.default = none ∧ spec.required = true
  in_order : Assoc.Ascending d.inputs → names.Pairwise (· < ·)
  rejected : ∀ cause, host.plan d params options = .error cause → host.run d params options = .rejected cause
  /-- Nothing happens but that the run begins. -/
  idle : ∀ plan, host.plan d params options = .ok plan → host.record (plan.top params) = [⟨0, .opened (plan.top params)⟩]
  untouched : ∀ plan, host.plan d params options = .ok plan →
    (plan.top params).context.data = [] ∧
      host.run d params options = {
        status := .failed
        errors := [{
          stepId := none
          message := "WEAVE-011: Missing required workflow input(s): " ++ Text.join ", " names
          category := .structural
          phase := some "validation"
          fix := some "Pass the input with --param name=value or declare a default" }]
        warnings := []
        diagnostics := plan.diagnostics
        outputs := []
        shared := (plan.top params).context.shared }

variable {host : Host} {d : Document} {options : PlanOptions} {params : Fields}

theorem plan_of_bound {bound : Fields} (h : bindInputs d.inputs params = .ok bound) :
    host.plan d bound options = host.plan d params options := by
  refine Plan.build_congr { options with external := options.external ++ Assoc.keys params } fun name => ?_
  simp only [List.mem_append]
  constructor
  · rintro (hinput | hexternal | hbound)
    · exact .inl hinput
    · exact .inr (.inl hexternal)
    · exact (input_of_mem_keys_bound h hbound).imp_right .inr
  · rintro (hinput | hexternal | hgiven)
    · exact .inl hinput
    · exact .inr (.inl hexternal)
    · exact .inr (.inr (mem_keys_bindings h hgiven))

theorem run_of_bound {bound : Fields} (h : bindInputs d.inputs params = .ok bound) :
    host.run d bound options = host.run d params options := by
  unfold run
  rw [plan_of_bound h]
  cases hp : host.plan d params options with
  | error fault => rfl
  | ok plan =>
    have hinputs : bindInputs (plan.top params).plan.inputs (plan.top params).params = .ok bound := by
      rw [← h, ← Plan.inputs_eq hp]
      rfl
    have hreport : host.report (plan.top bound) = host.report (plan.top params) :=
      Level.run_of_bound hinputs (host.unitsOver (host.runWithin plan.limits.maxDepth))
    simp only [hreport]

theorem lacking_of_unbound {names : List String} (h : bindInputs d.inputs params = .error (.missingInputs names)) :
    host.Lacking d options params names := by
  obtain rfl : names = missingInputs d.inputs params := Fault.missingInputs.inj (bindInputs_eq_error h)
  have hunbound {plan : Plan} (hp : host.plan d params options = .ok plan) :
      bindInputs (plan.top params).plan.inputs (plan.top params).params =
        .error (.missingInputs (missingInputs d.inputs params)) := by
    rw [← h, ← Plan.inputs_eq hp]
    rfl
  refine ⟨fun name => mem_missingInputs, fun hascending => ?_, fun cause hp => ?_, fun plan hp => ?_,
    fun plan hp => ⟨rfl, ?_⟩⟩
  · exact hascending.sublist (missingInputs_sublist d.inputs params)
  · unfold run
    rw [hp]
  · have hrun := Level.run_of_unbound (hunbound hp) (host.unitsOver (host.runWithin plan.limits.maxDepth))
    have hrecord : host.record (plan.top params) =
        host.levelEntries (host.runWithin plan.limits.maxDepth) (host.recordWithin plan.limits.maxDepth)
          (plan.top params) := rfl
    rw [hrecord, levelEntries, hrun]
    rfl
  · rw [run_of_plan hp, report_top, Level.run_of_unbound (hunbound hp)]
    rfl

/-- Parameters and what they are bound to give the same run, from the verdict on the document to the last warning; where
binding fails, the error lists the missing inputs and nothing is run. -/
theorem defaults_are_transparent (host : Host) (d : Document) (params : Fields) (options : PlanOptions) :
    (∀ bound, bindInputs d.inputs params = .ok bound → host.Transparent d options params bound) ∧
      ∀ fault, bindInputs d.inputs params = .error fault →
        ∃ names, fault = .missingInputs names ∧ host.Lacking d options params names := by
  refine ⟨fun _ h => ⟨plan_of_bound h, run_of_bound h, bindInputs_again h, fun _ _ => bindInputs_given h⟩, ?_⟩
  intro fault h
  obtain rfl := bindInputs_eq_error h
  exact ⟨_, rfl, lacking_of_unbound h⟩

end Host

def repeatDocument : Document where
  version := "1"
  name := none
  start := none
  steps := [⟨"say", "echo", none, [("text", .str "${name}"), ("times", .str "${times}")], none⟩]
  edges := []
  inputs :=
    [("name", ⟨.parse "str", "", true, none, false⟩), ("times", ⟨.parse "int", "", true, some (.nat 2), false⟩)]
  outputs := []
  mode := .strict

theorem defaults_are_transparent_repeat :
    ∃ host : Host,
      host.Transparent repeatDocument {} [("name", .str "all")] [("name", .str "all"), ("times", .nat 2)] ∧
      (host.run repeatDocument [("name", .str "all")] {}).status = .success ∧
      host.Lacking repeatDocument {} [] ["name"] ∧
      (host.run repeatDocument [] {}).errors = [{
        stepId := none
        message := "WEAVE-011: Missing required workflow input(s): name"
        category := .structural
        phase := some "validation"
        fix := some "Pass the input with --param name=value or declare a default" }] := by
  let host : Host := ⟨.builtin, .empty⟩
  obtain ⟨htransparent, _⟩ := Host.defaults_are_transparent host repeatDocument [("name", .str "all")] {}
  obtain ⟨_, hlacking⟩ := Host.defaults_are_transparent host repeatDocument [] {}
  obtain ⟨names, hnames, hlacks⟩ := hlacking _ rfl
  cases hnames
  exact ⟨host, htransparent _ rfl, by decide +kernel, hlacks, by decide +kernel⟩

end Workflow
