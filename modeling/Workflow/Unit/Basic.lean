import Workflow.Context
import Workflow.Limits

/-! The life of a unit, the innermost part of a step: it prepares a value from parameters and context, executes on
that value alone, may fall back when execution fails, and finalizes by handing back values and choosing an action.
-/

namespace Workflow

inductive UnitFault where
  | failed (text : String) (details : Option Json)
  | timeout (milliseconds : Nat)
  | invalidParams (problem : String)
  /-- Ends the whole run. -/
  | fatal (fault : Fault)
  deriving DecidableEq

namespace UnitFault

def message : UnitFault → String
  | .failed text _ => text
  | .timeout milliseconds => s!"timed out after {milliseconds}ms"
  | .invalidParams problem => "invalid parameters: " ++ problem
  | .fatal fault => fault.message

def details? : UnitFault → Option Json
  | .failed _ details => details
  | _ => none

end UnitFault

structure UnitOutput where
  values : Fields
  action : Option String
  deriving DecidableEq

/-- A dict becomes the output values, null becomes none, and any other value is put under `result`. -/
def UnitOutput.ofValue : Json → UnitOutput
  | .obj fields => ⟨fields, none⟩
  | .null => ⟨[], none⟩
  | v => ⟨[("result", v)], none⟩

structure LeafUnit where
  prepare : Fields → Context → Except UnitFault Json
  execute : Json → Except UnitFault Json
  fallback : Json → UnitFault → Except UnitFault Json
  /-- Gives the context as it is afterwards, also when it fails. -/
  finalize : Context → Json → Json → Context × Except UnitFault UnitOutput

namespace LeafUnit

/-- A unit that only executes. -/
def ofExecute (execute : Json → Except UnitFault Json) : LeafUnit where
  prepare params _ := .ok (.obj params)
  execute := execute
  fallback _ fault := .error fault
  finalize context _ executed := (context, .ok (.ofValue executed))

/-- Executes a prepared value; a failure that is not fatal is offered to the fallback. -/
def attempt (u : LeafUnit) (prepared : Json) : Except UnitFault Json :=
  match u.execute prepared with
  | .ok v => .ok v
  | .error (.fatal fault) => .error (.fatal fault)
  | .error fault => u.fallback prepared fault

/-- A fallback that takes nothing up leaves an attempt to its execution. -/
theorem attempt_eq_execute {u : LeafUnit} (h : ∀ prepared fault, u.fallback prepared fault = .error fault)
    (prepared : Json) : u.attempt prepared = u.execute prepared := by
  unfold attempt
  cases he : u.execute prepared with
  | ok v => rfl
  | error fault =>
    cases fault with
    | fatal cause => rfl
    | _ => exact h prepared _

end LeafUnit

/-- What a unit knows of the step it is made for. -/
structure Site where
  stepId : String
  limits : Limits
  /-- The directory that relative workflow references start from. -/
  baseDir : Option String
  deriving DecidableEq

end Workflow
