import Workflow.Mentions

/-! The program: gathers the files, the environment and the standard input that a command line needs, and writes its
outcome. -/

namespace Workflow

/-- Adds the file at a path, if there is one that the tree does not hold yet. -/
def addFile (t : FileTree) (path : String) : IO FileTree := do
  match ← (IO.FS.readBinFile path).toBaseIO with
  | .error _ => return t
  | .ok content =>
    let place := FileTree.names (toString (← IO.FS.realPath path))
    if t.files.any (·.1 = place) then return t else return { t with files := t.files ++ [(place, content)] }

/-- Adds files until none of those mentioned is missing, in a bounded number of rounds. -/
def gather (args : List String) : Nat → FileTree → IO FileTree
  | 0, t => return t
  | rounds + 1, t => do
    let found ← (Mentions.paths t args).foldlM addFile t
    if found.files.length = t.files.length then return found else gather args rounds found

def limitNames : List String :=
  ["WEAVE_MAX_DEPTH", "WEAVE_MAX_TEMPLATE_DEPTH", "WEAVE_MAX_BATCH_ERRORS", "WEAVE_MAX_STEPS", "WEAVE_ASYNC_TIMEOUT_MS"]

def readEnvironment : IO (Assoc String) := do
  let found ← limitNames.mapM fun name => return (← IO.getEnv name).map fun value => (name, value)
  return found.filterMap id

/-- Standard input, unless it comes from a terminal. -/
def readStdin : IO (Option ByteArray) := do
  let stdin ← IO.getStdin
  if ← stdin.isTty then return none else return some (← stdin.readBinToEnd)

def writeLines (stream : IO.FS.Stream) (lines : List String) : IO Unit := do
  for line in lines do
    stream.putStr (line ++ "\n")
  stream.flush

/-- Carries out a command line and gives its exit code. -/
def carryOut (args : List String) : IO UInt32 := do
  let files ← gather args 1000 ⟨toString (← IO.currentDir), []⟩
  let setting : CommandLine.Setting := ⟨files, ← readEnvironment, none⟩
  let stdin ← if CommandLine.wantsStdin setting args then readStdin else pure none
  let outcome := CommandLine.outcome { setting with stdin := stdin } args
  writeLines (← IO.getStdout) outcome.out
  writeLines (← IO.getStderr) outcome.err
  return UInt32.ofNat outcome.code

end Workflow

def main (args : List String) : IO UInt32 := Workflow.carryOut args
