import Workflow.Proofs.History
import Workflow.Proofs.Splitting
import Workflow.Proofs.Paths

/-! What a run hands back. An output without a source is read by writing its name as a reference and resolving that. For
names of the reference grammar this reads the name, and for no others: what is then read is a path, or nothing, and the
text itself is handed back. -/

namespace Workflow

/-! ### Names written as references -/

namespace Template

/-- There is no path below a name. -/
theorem parse_of_isName {name : String} (h : isName name = true) : Path.parse name = (name, []) := by
  have hplain : ∀ c ∈ name.toList, Path.isDelimiter c = false := fun c hc =>
    not_isDelimiter (isNameChar_of_mem h hc)
  have hparse := Path.parse_render hplain (List.forall_mem_nil Segment.Legible)
  rwa [Path.render, List.map_nil, String.join_nil, String.append_empty] at hparse

theorem scanExpr_of_spellsName {cs : List Char} (h : spellsName cs = true) (after : List Char) :
    scanExpr (cs ++ '\x7d' :: after) = some (cs, after) := by
  have hexpr : SpellsExpr (cs ++ []) := .mk h .none
  rw [List.append_nil] at hexpr
  exact scanExpr_iff.mpr ⟨hexpr, rfl⟩

theorem tokenizeChars_of_scanned {rest expr after : List Char} (h : scanExpr rest = some (expr, after)) :
    tokenizeChars ('$' :: '\x7b' :: rest) = .reference (.ofExpr (String.ofList expr)) :: tokenizeChars after := by
  rw [tokenizeChars]
  split
  · rename_i hscan
    rw [h] at hscan
    cases hscan
    rfl
  · rename_i hscan
    rw [h] at hscan
    cases hscan

theorem tokenizeChars_of_unscanned {rest : List Char} (h : scanExpr rest = none) :
    tokenizeChars ('$' :: '\x7b' :: rest) = consLiteral '$' (tokenizeChars ('\x7b' :: rest)) := by
  rw [tokenizeChars]
  split
  · rename_i hscan
    rw [h] at hscan
    cases hscan
  · rfl

/-- The characters of a name between braces. -/
theorem placeholder_toList (name : String) :
    ("$\x7b" ++ name ++ "\x7d").toList = '$' :: '\x7b' :: (name.toList ++ ['\x7d']) := by
  simp [String.toList_append]

theorem simpleReference_of_isName {name : String} (h : isName name = true) :
    simpleReference ("$\x7b" ++ name ++ "\x7d") = some ⟨name, name, []⟩ := by
  have htokens : tokenize ("$\x7b" ++ name ++ "\x7d") = [.reference ⟨name, name, []⟩] := by
    rw [tokenize, placeholder_toList, tokenizeChars_of_scanned (scanExpr_of_spellsName h []), String.ofList_toList,
      Reference.ofExpr, parse_of_isName h, tokenizeChars]
  rw [simpleReference, htokens]

theorem consLiteral_ne_reference (c : Char) (tokens : List Token) (r : Reference) (rest : List Token) :
    consLiteral c tokens ≠ .reference r :: rest := by
  unfold consLiteral
  split
  · simp
  · simp

theorem tokenizeChars_eq_nil {cs : List Char} (h : tokenizeChars cs = []) : cs = [] := by
  have hne : ∀ c tokens, consLiteral c tokens ≠ [] := by
    intro c tokens
    unfold consLiteral
    split <;> exact List.cons_ne_nil _ _
  fun_induction tokenizeChars cs with
  | case1 => rfl
  | case2 => cases h
  | case3 => exact absurd h (hne _ _)
  | case4 => exact absurd h (hne _ _)

/-- If a name between braces is a reference and nothing else, then the whole name has been scanned. -/
theorem scanExpr_of_simpleReference {name : String} {r : Reference}
    (h : simpleReference ("$\x7b" ++ name ++ "\x7d") = some r) :
    scanExpr (name.toList ++ ['\x7d']) = some (name.toList, []) ∧ r = .ofExpr name := by
  have htokens := simpleReference_eq_some h
  rw [tokenize, placeholder_toList] at htokens
  cases hscan : scanExpr (name.toList ++ ['\x7d']) with
  | none =>
    rw [tokenizeChars_of_unscanned hscan] at htokens
    exact absurd htokens (consLiteral_ne_reference _ _ _ _)
  | some scanned =>
    obtain ⟨expr, after⟩ := scanned
    rw [tokenizeChars_of_scanned hscan, List.cons.injEq] at htokens
    have hafter : after = [] := tokenizeChars_eq_nil htokens.2
    subst hafter
    have hexpr : name.toList = expr := List.append_cancel_right (scanExpr_append hscan)
    rw [← hexpr, String.ofList_toList, Token.reference.injEq] at htokens
    exact ⟨by rw [hexpr], htokens.1.symm⟩

/-- An expression without a delimiter is a name. -/
theorem spellsName_of_scanExpr {cs expr after : List Char} (h : scanExpr cs = some (expr, after))
    (hplain : ∀ c ∈ expr, Path.isDelimiter c = false) : spellsName expr = true := by
  obtain ⟨⟨hname, hparts⟩, _⟩ := scanExpr_iff.mp h
  cases hparts with
  | none =>
    rw [List.append_nil]
    exact hname
  | field => exact absurd (hplain '.' (by simp)) (by decide)
  | index => exact absurd (hplain '[' (by simp)) (by decide)

end Template

/-! ### What a text finds -/

def Resolved.found? (r : Resolved) : Option Json := if r.isComplete then some r.value else none

namespace Scope

variable (scope : Scope)

/-- A text that is one reference finds what the reference finds. -/
theorem found?_of_simpleReference {text : String} {r : Reference} (h : Template.simpleReference text = some r) :
    (scope.resolveText text).found? = scope.lookup? r := by
  unfold Resolved.found? Resolved.isComplete resolveText missingIn
  rw [Template.simpleReference_eq_some h, Template.textRefs_of_simpleReference h]
  cases hl : scope.lookup? r with
  | none => simp [hl]
  | some v => simp [hl]

theorem lookup?_name (name : String) : scope.lookup? ⟨name, name, []⟩ = scope.root? name := by
  unfold lookup?
  cases scope.root? name with
  | none => rfl
  | some root => rfl

/-- A text finds nothing only because one of its references does; the first of these is told of. -/
theorem found?_eq_none {text : String} {r : Reference} (hr : r ∈ Template.textRefs text)
    (hnone : scope.lookup? r = none) :
    (scope.resolveText text).found? = none ∧ ∃ u, (scope.resolveText text).unresolved.head? = some u := by
  have hmem : scope.missing text r ∈ (scope.resolveText text).unresolved := by
    refine List.mem_map.mpr ⟨r, List.mem_filter.mpr ⟨hr, ?_⟩, rfl⟩
    rw [hnone]
    rfl
  cases hu : (scope.resolveText text).unresolved with
  | nil =>
    rw [hu] at hmem
    cases hmem
  | cons u rest =>
    refine ⟨?_, u, rfl⟩
    rw [Resolved.found?, Resolved.isComplete, hu]
    rfl

/-- A text that is not one reference stays a text. -/
theorem value_of_not_simple {text : String} (h : Template.simpleReference text = none) :
    ∃ found, (scope.resolveText text).value = .str found := by
  unfold resolveText
  simp only
  split
  · rename_i heq
    simp only [Template.simpleReference, heq] at h
    cases h
  · exact ⟨_, rfl⟩

theorem simpleReference_of_found? {text : String} {v : Json} (h : (scope.resolveText text).found? = some v)
    (hv : ∀ found, v ≠ .str found) : ∃ r, Template.simpleReference text = some r ∧ scope.lookup? r = some v := by
  cases hs : Template.simpleReference text with
  | some r =>
    rw [scope.found?_of_simpleReference hs] at h
    exact ⟨r, rfl, h⟩
  | none =>
    obtain ⟨found, hvalue⟩ := scope.value_of_not_simple hs
    rw [Resolved.found?, Option.ite_none_right_eq_some, hvalue] at h
    exact absurd (Option.some.inj h.2).symm (hv found)

end Scope

/-- Writing a name as a reference reads that name, in every scope, exactly for the names of the grammar. -/
theorem Template.reads_name_iff (name : String) :
    (∀ scope : Scope, (scope.resolveText ("$\x7b" ++ name ++ "\x7d")).found? = scope.root? name) ↔
      isName name = true := by
  constructor
  · intro h
    have hnumber : (Scope.mk [] [(name, .int 1)]).root? name = some (.int 1) := by
      simp [Scope.root?, Assoc.get?_cons]
    obtain ⟨r, hsimple, hl⟩ := Scope.simpleReference_of_found? _ ((h _).trans hnumber) (by simp)
    obtain ⟨hscan, rfl⟩ := scanExpr_of_simpleReference hsimple
    -- the reference begins with the whole name, so there is no delimiter in it
    have hbase : Path.word name.toList = name.toList := by
      by_contra hne
      have hother : (Reference.ofExpr name).base ≠ name := by
        intro heq
        refine hne ?_
        exact String.toList_ofList.symm.trans (congrArg String.toList heq)
      have hroot : (Scope.mk [] [(name, .int 1)]).root? (Reference.ofExpr name).base = none := by
        simp [Scope.root?, Assoc.get?_cons, Ne.symm hother]
      rw [Scope.lookup?, hroot] at hl
      cases hl
    refine spellsName_of_scanExpr hscan fun c hc => ?_
    simpa using List.takeWhile_eq_self_iff.mp hbase c hc
  · intro h scope
    rw [scope.found?_of_simpleReference (simpleReference_of_isName h), scope.lookup?_name]

/-! ### Declared outputs -/

theorem resolveOutputs_found (plan : Plan) (scope : Scope) :
    (resolveOutputs plan scope).1 = plan.outputs.filterMap fun e =>
      (scope.resolveText (outputTemplate e.1 e.2)).found?.map fun v => (e.1, v) := by
  unfold resolveOutputs
  simp only [List.filterMap_map]
  refine List.filterMap_congr fun e _ => ?_
  unfold Resolved.found?
  simp only [Function.comp_apply]
  split <;> rfl

theorem get?_filterMap {β γ : Type} {m : Assoc β} (hn : (Assoc.keys m).Nodup) (f : String × β → Option γ) {key : String}
    {v : β} (h : (key, v) ∈ m) : Assoc.get? (m.filterMap fun e => (f e).map fun w => (e.1, w)) key = f (key, v) := by
  induction m with
  | nil => cases h
  | cons e rest ih =>
    rw [Assoc.keys, List.map_cons, List.nodup_cons] at hn
    rw [List.filterMap_cons]
    rcases List.mem_cons.mp h with rfl | h
    · cases hf : f (key, v) with
      | none =>
        refine Assoc.get?_eq_none_of_not_mem fun hkey => hn.1 ?_
        obtain ⟨found, hfound, rfl⟩ := List.mem_map.mp hkey
        obtain ⟨e, he, hw⟩ := List.mem_filterMap.mp hfound
        obtain ⟨w, _, rfl⟩ := Option.map_eq_some_iff.mp hw
        exact List.mem_map.mpr ⟨e, he, rfl⟩
      | some w => simp [Assoc.get?_cons]
    · have hne : e.1 ≠ key := by
        rintro rfl
        exact hn.1 (List.mem_map.mpr ⟨_, h, rfl⟩)
      cases f e with
      | none => exact ih hn.2 h
      | some w =>
        rw [Option.map_some, Assoc.get?_cons, if_neg hne]
        exact ih hn.2 h

theorem mem_resolveOutputs_warnings {plan : Plan} (scope : Scope) {name : String} {spec : OutputSpec}
    (h : (name, spec) ∈ plan.outputs) {u : Unresolved}
    (hu : (scope.resolveText (outputTemplate name spec)).unresolved.head? = some u) :
    outputWarning name (outputTemplate name spec) u ∈ (resolveOutputs plan scope).2 := by
  refine List.mem_filterMap.mpr ⟨(name, outputTemplate name spec, _), List.mem_map.mpr ⟨(name, spec), h, rfl⟩, ?_⟩
  simp only [hu, Option.map_some]

/-- A warning that names an output which is left out, and says why a reference in its template finds nothing. -/
structure Warning.TellsOfOutput (name template : String) (missing : Unresolved) (w : Warning) : Prop where
  step : w.stepId = none
  message : w.message = s!"Output '{name}' could not be resolved from '{template}': " ++ missing.hint
  category : w.category = .resolution
  plain : w.outputType = none ∧ w.nestedPath = none

theorem tellsOfOutput_outputWarning (name template : String) (missing : Unresolved) :
    (outputWarning name template missing).TellsOfOutput name template missing :=
  ⟨rfl, rfl, rfl, rfl, rfl⟩

namespace Level

variable {level : Level} {units : UnitMaker}

def finalScope (level : Level) (units : UnitMaker) : Scope := ⟨level.bindings, (level.run units).context.data⟩

/-- The run warns of an output, by the first reference of its template that finds nothing. -/
def WarnsOfOutput (level : Level) (units : UnitMaker) (name : String) (spec : OutputSpec) : Prop :=
  ∃ missing, ((level.finalScope units).resolveText (outputTemplate name spec)).unresolved.head? = some missing ∧
    ∃ w ∈ (level.run units).result.warnings, w.TellsOfOutput name (outputTemplate name spec) missing

theorem outputs_of_ended (h : (level.run units).status ≠ .failed) :
    (level.run units).outputs = (resolveOutputs level.plan (level.finalScope units)).1 ∧
      ∀ w ∈ (resolveOutputs level.plan (level.finalScope units)).2,
        w ∈ (level.run units).context.journal.warnings := by
  unfold finalScope
  rcases level.run_cases units with ⟨fault, _, hrun⟩ | ⟨_, w, hrun, _⟩
  · rw [hrun] at h
    exact absurd rfl h
  · rw [hrun, Walk.report_data]
    rw [hrun] at h
    unfold Walk.report at h ⊢
    cases hending : w.ending with
    | aborted fault =>
      rw [hending] at h
      exact absurd rfl h
    | failed failure =>
      rw [hending] at h
      exact absurd rfl h
    | finished => exact ⟨rfl, fun w hw => List.mem_append_right _ hw⟩

/-- Of a run that has not failed, an output without a source whose name belongs to the reference grammar holds what is
under that name in the end; if nothing is, there is no output, and a warning names it. Whatever its source, an output
with a reference that finds nothing is left out with a warning. For no other names can outputs be read like this. -/
theorem outputs_read_by_name (hended : (level.run units).status ≠ .failed)
    (hn : (Assoc.keys level.plan.outputs).Nodup) {name : String} {spec : OutputSpec}
    (hmem : (name, spec) ∈ level.plan.outputs) :
    (spec.source = none → Template.isName name = true →
      Assoc.get? (level.run units).result.outputs name = (level.finalScope units).root? name ∧
        ((level.finalScope units).root? name = none → level.WarnsOfOutput units name spec)) ∧
    (∀ r ∈ Template.textRefs (outputTemplate name spec), (level.finalScope units).lookup? r = none →
      Assoc.get? (level.run units).result.outputs name = none ∧ level.WarnsOfOutput units name spec) ∧
    (spec.source = none →
      ((∀ scope : Scope, (scope.resolveText (outputTemplate name spec)).found? = scope.root? name) ↔
        Template.isName name = true)) := by
  obtain ⟨houtputs, hwarnings⟩ := outputs_of_ended hended
  have hget : Assoc.get? (level.run units).result.outputs name =
      ((level.finalScope units).resolveText (outputTemplate name spec)).found? := by
    rw [Report.result, houtputs, resolveOutputs_found]
    exact get?_filterMap hn (fun e => ((level.finalScope units).resolveText (outputTemplate e.1 e.2)).found?) hmem
  have hmissing : ∀ r ∈ Template.textRefs (outputTemplate name spec), (level.finalScope units).lookup? r = none →
      Assoc.get? (level.run units).result.outputs name = none ∧ level.WarnsOfOutput units name spec := by
    intro r hr hnone
    obtain ⟨hfound, u, hu⟩ := (level.finalScope units).found?_eq_none hr hnone
    exact ⟨hget.trans hfound, u, hu, _, hwarnings _ (mem_resolveOutputs_warnings _ hmem hu),
      tellsOfOutput_outputWarning _ _ _⟩
  refine ⟨fun hsource hname => ?_, hmissing, fun hsource => ?_⟩
  · have htemplate : outputTemplate name spec = "$\x7b" ++ name ++ "\x7d" := by rw [outputTemplate, hsource]; rfl
    have hsimple := Template.simpleReference_of_isName hname
    rw [← htemplate] at hsimple
    rw [hget, Scope.found?_of_simpleReference _ hsimple, Scope.lookup?_name]
    refine ⟨rfl, fun hnone => (hmissing _ ?_ (hnone ▸ Scope.lookup?_name _ _)).2⟩
    rw [Template.textRefs_of_simpleReference hsimple]
    exact List.mem_singleton_self _
  · rw [outputTemplate, hsource]
    exact Template.reads_name_iff name

end Level

def tallyDocument : Document where
  version := "1"
  name := none
  start := none
  steps := [⟨"count", "echo", none, [("total", .int 3)], none⟩]
  edges := []
  inputs := []
  outputs := [("total", ⟨.parse "int", "", none⟩), ("rest", ⟨.parse "int", "", none⟩)]
  mode := .strict

theorem outputs_read_by_name_tally :
    ∃ host : Host, ∃ plan, host.plan tallyDocument [] {} = .ok plan ∧
      (host.report (plan.top [])).status ≠ .failed ∧ (Assoc.keys plan.outputs).Nodup ∧
      Assoc.get? (host.report (plan.top [])).result.outputs "total" = some (.int 3) ∧
      Assoc.get? (host.report (plan.top [])).result.outputs "rest" = none ∧
      ∃ w ∈ (host.report (plan.top [])).result.warnings, w.stepId = none ∧ w.category = .resolution ∧
        ∃ hint, w.message = "Output 'rest' could not be resolved from '$\x7brest\x7d': " ++ hint := by
  let host : Host := ⟨.builtin, .empty⟩
  have hended : ((host.plan tallyDocument [] {}).toOption.any fun plan =>
      (host.report (plan.top [])).status ≠ .failed &&
        ((plan.top []).finalScope (host.units plan.limits.maxDepth)).root? "total" = some (.int 3) &&
        ((plan.top []).finalScope (host.units plan.limits.maxDepth)).root? "rest" = none) = true := by decide +kernel
  obtain ⟨plan, hp, hended⟩ := any_toOption.mp hended
  simp only [Bool.and_eq_true, decide_eq_true_eq] at hended
  obtain ⟨⟨hended, htotal⟩, hrest⟩ := hended
  have houtputs : plan.outputs = tallyDocument.outputs := Plan.outputs_eq hp
  have hn : (Assoc.keys plan.outputs).Nodup := by
    rw [houtputs]
    decide
  have htotalDeclared : ("total", ⟨.parse "int", "", none⟩) ∈ plan.outputs := by
    rw [houtputs]
    decide
  have hrestDeclared : ("rest", ⟨.parse "int", "", none⟩) ∈ plan.outputs := by
    rw [houtputs]
    decide
  obtain ⟨htotalRead, _⟩ := (Level.outputs_read_by_name hended hn htotalDeclared).1 rfl (by decide)
  obtain ⟨hrestRead, hwarned⟩ := (Level.outputs_read_by_name hended hn hrestDeclared).1 rfl (by decide)
  obtain ⟨missing, _, w, hw, htold⟩ := hwarned hrest
  exact ⟨host, plan, hp, hended, hn, htotalRead.trans htotal, hrestRead.trans hrest, w, hw, htold.step, htold.category,
    missing.hint, htold.message⟩

def labelDocument : Document where
  version := "1"
  name := none
  start := none
  steps := [⟨"count", "echo", none, [("grand total", .int 3)], none⟩]
  edges := []
  inputs := []
  outputs := [("grand total", ⟨.parse "int", "", none⟩)]
  mode := .strict

/-- The value is there in the end, and still its placeholder is handed back, without a warning. -/
theorem outputs_hand_back_placeholder :
    ((Host.mk .builtin .empty).run labelDocument [] {}).status = .success ∧
      Assoc.get? ((Host.mk .builtin .empty).run labelDocument [] {}).shared "grand total" = some (.int 3) ∧
      ((Host.mk .builtin .empty).run labelDocument [] {}).outputs =
        [("grand total", .str "$\x7bgrand total\x7d")] ∧
      ((Host.mk .builtin .empty).run labelDocument [] {}).warnings.isEmpty = true := by
  decide +kernel

end Workflow
