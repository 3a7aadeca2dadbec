import Workflow.Interface
import Workflow.Unit.Builtin
import Workflow.Similar

/-! The step kinds a document may use: for each name an implementation and a declared interface. -/

namespace Workflow

/-- How a step kind does its work: with a unit made for the step, or by running another workflow. -/
inductive Implementation where
  | leaf (make : Site → LeafUnit)
  | subworkflow

structure RegistryEntry where
  implementation : Implementation
  interface : Interface

abbrev Registry := Assoc RegistryEntry

namespace Registry

def kinds (r : Registry) : List String := (Assoc.keys r).mergeSort fun a b => decide (a ≤ b)

def interface? (r : Registry) (kind : String) : Option Interface := (Assoc.get? r kind).map RegistryEntry.interface

/-- The interfaces of the names that are known, in code point order. -/
def interfaces (r : Registry) (names : List String) : Assoc Interface :=
  Assoc.sorted (names.filterMap fun name => (interface? r name).map fun i => (name, i))

def similar (r : Registry) (name : String) (limit : Nat) : List String := Similar.find name (kinds r) limit

def param (key type : String) : InterfaceField := { key := key, type := .parse type }

def echoEntry : RegistryEntry where
  implementation := .leaf fun _ => .echo
  interface := {
    description := "Outputs its parameters unchanged"
    params := [{ param "action" "str" with description := "Transition to take" }]
    actions := [defaultAction] }

def failEntry : RegistryEntry where
  implementation := .leaf fun _ => .fail
  interface := { description := "Always fails", params := [param "message" "str"], actions := [errorAction] }

def delayEntry : RegistryEntry where
  implementation := .leaf fun site => .delay site.limits.timeout
  interface := {
    description := "Sleeps on an async timer"
    params := [param "ms" "int", param "timeout_ms" "int"]
    outputs := [param "slept_ms" "int"]
    actions := [defaultAction] }

def subworkflowEntry : RegistryEntry where
  implementation := .subworkflow
  interface := {
    description := "Runs another workflow as a single step"
    params := [
      { param "workflow_ref" "str" with
        description := "Path to a .json or .yaml workflow, relative to the caller" },
      { param "workflow_ir" "dict" with description := "Inline workflow document", verbatim := true },
      { param "param_mapping" "dict" with description := "Child parameter name -> value or template" },
      { param "output_mapping" "dict" with description := "Child key or path -> caller key" },
      { param "storage_mode" "str" with description := "mapped | isolated | scoped | shared" },
      param "scope_prefix" "str",
      param "max_depth" "int"]
    actions := [defaultAction, errorAction] }

def builtin : Registry :=
  [("echo", echoEntry), ("fail", failEntry), ("delay", delayEntry), ("workflow", subworkflowEntry)]

theorem builtin_cases {kind : String} {entry : RegistryEntry} (h : Assoc.get? builtin kind = some entry) :
    entry = echoEntry ∨ entry = failEntry ∨ entry = delayEntry ∨ entry = subworkflowEntry := by
  have hmem := Assoc.mem_of_get? h
  simp only [builtin, List.mem_cons, Prod.mk.injEq, List.not_mem_nil, or_false] at hmem
  exact hmem.imp And.right (Or.imp And.right (Or.imp And.right And.right))

/-- The makers of the units that every registry begins with. -/
theorem builtin_leaf {kind : String} {entry : RegistryEntry} {make : Site → LeafUnit}
    (h : Assoc.get? builtin kind = some entry) (hmake : entry.implementation = .leaf make) :
    (make = fun _ => .echo) ∨ (make = fun _ => .fail) ∨ make = fun site => .delay site.limits.timeout := by
  rcases builtin_cases h with rfl | rfl | rfl | rfl
  · cases hmake
    exact .inl rfl
  · cases hmake
    exact .inr (.inl rfl)
  · cases hmake
    exact .inr (.inr rfl)
  · cases hmake

end Registry

end Workflow
