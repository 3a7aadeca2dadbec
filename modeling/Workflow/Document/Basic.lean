import Workflow.Mode
import Workflow.SemanticType

/-! Workflow documents: steps, the edges between them, declared inputs and outputs. -/

namespace Workflow

/-- What a batch does when one of its items fails. -/
inductive BatchPolicy where
  | failFast
  | carryOn
  deriving DecidableEq, Repr, Inhabited

/-- Runs a step once for every item of a list, under a name for the item. -/
structure Batch where
  items : String
  itemName : String
  onError : BatchPolicy
  deriving DecidableEq

structure Step where
  id : String
  kind : String
  purpose : Option String
  params : Fields
  batch : Option Batch
  deriving DecidableEq

structure Edge where
  source : String
  target : String
  label : Option String
  deriving DecidableEq, Repr

structure InputSpec where
  type : SemanticType
  description : String
  required : Bool
  default : Option Json
  stdin : Bool
  deriving DecidableEq

structure OutputSpec where
  type : SemanticType
  description : String
  source : Option String
  deriving DecidableEq

/-- A document. Inputs and outputs are kept in code point order of their names. -/
structure Document where
  version : String
  name : Option String
  start : Option String
  steps : List Step
  edges : List Edge
  inputs : Assoc InputSpec
  outputs : Assoc OutputSpec
  mode : Mode
  deriving DecidableEq

def defaultAction : String := "default"

def errorAction : String := "error"

namespace Edge

def action (e : Edge) : String := e.label.getD defaultAction

end Edge

namespace Document

def stepIds (d : Document) : List String := d.steps.map Step.id

def step? (d : Document) (id : String) : Option Step := d.steps.find? (·.id = id)

def displayName (d : Document) : String := d.name.getD "workflow"

/-- The ids that a step of the list repeats, at each repetition. -/
def repeatedIds (seen : List String) : List String → List String
  | [] => []
  | id :: rest => if seen.contains id then id :: repeatedIds seen rest else repeatedIds (id :: seen) rest

/-- Breaches of identity: repeated step ids, and item names that hide a step. -/
def identityBreaches (d : Document) : List String :=
  let repeated := (repeatedIds [] d.stepIds).map fun id => s!"Duplicate node id '{id}'"
  let hidden := d.steps.filterMap fun step =>
    step.batch.bind fun batch =>
      if d.stepIds.contains batch.itemName then
        let id := step.id
        let name := batch.itemName
        some s!"Node '{id}' batch alias '{name}' shadows a node id"
      else none
  repeated ++ hidden

end Document

end Workflow
