import Workflow.Text.Basic

/-! Bounds on what one run may use. They hold for the run and for every workflow it starts. -/

namespace Workflow

structure Limits where
  /-- How deeply workflows may be nested. -/
  maxDepth : Nat
  /-- How deep into a parameter references are resolved. -/
  maxTemplateDepth : Nat
  /-- How many failed items of a batch are described. -/
  maxBatchErrors : Nat
  /-- How many steps one walk may take. -/
  maxSteps : Nat
  /-- How long a waiting unit may take, in milliseconds. -/
  timeout : Nat
  deriving DecidableEq, Repr

namespace Limits

def standard : Limits := ⟨10, 100, 100, 10000, 30000⟩

def testing : Limits := ⟨3, 10, 5, 100, 2000⟩

def unlimited : Limits := ⟨1000, 10000, Text.wordMax, Text.wordMax, 86400000⟩

/-- A limit as an environment variable gives it; white space around it does not count. -/
def readOverride (lookup : String → Option String) (name : String) : Option Nat :=
  (lookup name).bind fun raw => Text.word? (Text.trimChars raw.toList)

/-- The limits with those replaced that the environment sets to a readable number. -/
def withOverrides (l : Limits) (lookup : String → Option String) : Limits where
  maxDepth := (readOverride lookup "WEAVE_MAX_DEPTH").getD l.maxDepth
  maxTemplateDepth := (readOverride lookup "WEAVE_MAX_TEMPLATE_DEPTH").getD l.maxTemplateDepth
  maxBatchErrors := (readOverride lookup "WEAVE_MAX_BATCH_ERRORS").getD l.maxBatchErrors
  maxSteps := (readOverride lookup "WEAVE_MAX_STEPS").getD l.maxSteps
  timeout := (readOverride lookup "WEAVE_ASYNC_TIMEOUT_MS").getD l.timeout

end Limits

end Workflow
