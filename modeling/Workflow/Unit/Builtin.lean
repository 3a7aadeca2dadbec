import Workflow.Unit.Basic
import Workflow.Json.Printer

/-! The units every registry begins with: `echo` gives its parameters back, `fail` fails, `delay` waits. -/

namespace Workflow.LeafUnit

/-- Gives its parameters back; the parameter `action` chooses the transition instead. -/
def echo : LeafUnit :=
  { ofExecute fun prepared => .ok (.obj (Assoc.swapRemove "action" (prepared.asObject?.getD []))) with
    finalize := fun context prepared executed =>
      (context, .ok { UnitOutput.ofValue executed with action := (prepared.get? "action").bind Json.asString? }) }

def fail : LeafUnit := ofExecute fun prepared =>
  .error (.failed (((prepared.get? "message").bind Json.asString?).getD "step failed") none)

/-- Waits `ms` milliseconds, but not beyond the time allowed, which `timeout_ms` overrides for one call. Only
whether the wait fits is computed; no time passes. -/
def delay (timeout : Nat) : LeafUnit := ofExecute fun prepared =>
  let allowed := ((prepared.get? "timeout_ms").bind Json.asNat?).getD timeout
  let wait : Except UnitFault Nat :=
    match prepared.get? "ms" with
    | none => .ok 0
    | some v =>
      match v.asNat? with
      | some ms => .ok ms
      | none => .error (.invalidParams ("'ms' must be an int, got " ++ v.text))
  wait.bind fun ms => if allowed < ms then .error (.timeout allowed) else .ok (.obj [("slept_ms", .nat ms)])

end Workflow.LeafUnit
