import Workflow.Notice

/-! The state of one run: its data, the frame of the call it belongs to, a journal of what has happened, and the
keys that flattened output must not overwrite. Keys of the form `__name__` belong to the run itself; they never
enter the data and are laid over it only when the state is exported. -/

namespace Workflow

/-- Keys that only the run itself writes. -/
def isReserved (key : String) : Bool :=
  4 < key.utf8ByteSize && "__".toList.isPrefixOf key.toList && "__".toList.isSuffixOf key.toList

/-- Where a run stands among nested workflows: how deep, and the identities of the workflows in progress. -/
structure CallFrame where
  depth : Nat
  stack : List String
  deriving DecidableEq, Repr

namespace CallFrame

def empty : CallFrame := ⟨0, []⟩

def root (identity : String) : CallFrame := ⟨0, [identity]⟩

def contains (f : CallFrame) (identity : String) : Bool := f.stack.contains identity

def enter (f : CallFrame) (identity : String) : CallFrame := ⟨f.depth + 1, f.stack ++ [identity]⟩

def toJson (f : CallFrame) : Json := .obj [("depth", .nat f.depth), ("stack", .strs f.stack)]

def ofJson? (v : Json) : Option CallFrame := do
  some {
    depth := ← Decode.required Json.asNat? v "depth"
    stack := ← Decode.required (Decode.listOf Decode.text) v "stack" }

end CallFrame

/-- What has happened so far. -/
structure Journal where
  completed : List String
  cacheHits : Fields
  modified : Fields
  timings : Fields
  warnings : List Warning

namespace Journal

def empty : Journal := ⟨[], [], [], [], []⟩

def recordCompletion (j : Journal) (stepId : String) (modified : Bool) : Journal :=
  { j with
    completed := j.completed ++ [stepId]
    cacheHits := Assoc.put stepId (.bool false) j.cacheHits
    modified := Assoc.put stepId (.bool modified) j.modified }

def recordTiming (j : Journal) (stepId : String) (milliseconds : Nat) : Journal :=
  { j with timings := Assoc.put stepId (.nat milliseconds) j.timings }

def isCompleted (j : Journal) (stepId : String) : Bool := j.completed.contains stepId

def warn (j : Journal) (warnings : List Warning) : Journal := { j with warnings := j.warnings ++ warnings }

end Journal

structure Context where
  data : Fields
  frame : CallFrame
  journal : Journal
  guarded : List String

namespace Context

/-- The entries of a map whose keys are not reserved. -/
def withoutReserved (data : Fields) : Fields := data.filter fun e => !isReserved e.1

def start (data : Fields) (frame : CallFrame) : Context := ⟨withoutReserved data, frame, .empty, []⟩

/-- A copy with an empty journal, for work whose writes are thrown away. -/
def scratch (c : Context) : Context := { c with journal := .empty }

def guardKeys (c : Context) (keys : List String) : Context := { c with guarded := c.guarded ++ keys }

def isGuarded (c : Context) (key : String) : Bool := isReserved key || c.guarded.contains key

/-- Writes a value; reserved keys are left alone. -/
def insert (c : Context) (key : String) (v : Json) : Context :=
  if isReserved key then c else { c with data := Assoc.put key v c.data }

def insertAll (c : Context) (entries : Fields) : Context := entries.foldl (fun c e => c.insert e.1 e.2) c

def remove (c : Context) (key : String) : Context := { c with data := Assoc.swapRemove key c.data }

def replaceData (c : Context) (data : Fields) : Context := { c with data := withoutReserved data }

def warn (c : Context) (warnings : List Warning) : Context := { c with journal := c.journal.warn warnings }

def setWarnings (c : Context) (warnings : List Warning) : Context :=
  { c with journal := { c.journal with warnings := warnings } }

/-- Copies entries to the top, guarded keys and the id of their step excepted. -/
def copy (c : Context) (stepId : String) (entries : Fields) : Context :=
  entries.foldl (fun c e => if e.1 = stepId || c.isGuarded e.1 then c else c.insert e.1 e.2) c

/-- Stores the output of a step under its id and copies every member to the top. -/
def commit (c : Context) (stepId : String) (values : Fields) : Context :=
  (c.insert stepId (.obj values)).copy stepId values

theorem copy_cons (c : Context) (stepId : String) (e : String × Json) (rest : Fields) :
    c.copy stepId (e :: rest) =
      (if e.1 = stepId || c.isGuarded e.1 then c else c.insert e.1 e.2).copy stepId rest := rfl

/-- The data with the journal and the frame laid over it under their reserved keys. -/
def shared (c : Context) : Fields :=
  Assoc.putAll c.data
    [("__completed_nodes__", .strs c.journal.completed), ("__cache_hits__", .obj c.journal.cacheHits),
      ("__modified_nodes__", .obj c.journal.modified), ("__node_timings_ms__", .obj c.journal.timings),
      ("__workflow_depth__", .nat c.frame.depth), ("__workflow_stack__", .strs c.frame.stack)]

/-! No operation moves a context to another frame. -/

@[simp] theorem start_frame (data : Fields) (frame : CallFrame) : (start data frame).frame = frame := rfl

@[simp] theorem scratch_frame (c : Context) : c.scratch.frame = c.frame := rfl

@[simp] theorem guardKeys_frame (c : Context) (keys : List String) : (c.guardKeys keys).frame = c.frame := rfl

@[simp] theorem insert_frame (c : Context) (key : String) (v : Json) : (c.insert key v).frame = c.frame := by
  unfold insert
  split <;> rfl

@[simp] theorem insertAll_frame (c : Context) (entries : Fields) : (c.insertAll entries).frame = c.frame := by
  unfold insertAll
  induction entries generalizing c with
  | nil => rfl
  | cons e rest ih => rw [List.foldl_cons, ih, insert_frame]

@[simp] theorem remove_frame (c : Context) (key : String) : (c.remove key).frame = c.frame := rfl

@[simp] theorem replaceData_frame (c : Context) (data : Fields) : (c.replaceData data).frame = c.frame := rfl

@[simp] theorem warn_frame (c : Context) (warnings : List Warning) : (c.warn warnings).frame = c.frame := rfl

@[simp] theorem setWarnings_frame (c : Context) (warnings : List Warning) :
    (c.setWarnings warnings).frame = c.frame := rfl

@[simp] theorem copy_frame (c : Context) (stepId : String) (entries : Fields) :
    (c.copy stepId entries).frame = c.frame := by
  induction entries generalizing c with
  | nil => rfl
  | cons e rest ih =>
    rw [copy_cons, ih]
    split
    · rfl
    · exact insert_frame c e.1 e.2

@[simp] theorem commit_frame (c : Context) (stepId : String) (values : Fields) :
    (c.commit stepId values).frame = c.frame := by
  rw [commit, copy_frame, insert_frame]

/-! Reserved keys apart, nothing is lost, and warnings are only ever added. -/

theorem get?_withoutReserved {data : Fields} {key : String} (hkey : isReserved key = false) :
    Assoc.get? (withoutReserved data) key = Assoc.get? data key := by
  unfold withoutReserved
  induction data with
  | nil => rfl
  | cons e rest ih =>
    obtain ⟨k, v⟩ := e
    by_cases hk : k = key
    · subst hk
      rw [List.filter_cons_of_pos (by simp [hkey]), Assoc.get?_cons, Assoc.get?_cons, if_pos rfl, if_pos rfl]
    · rw [Assoc.get?_cons, if_neg hk, ← ih, List.filter_cons]
      split
      · rw [Assoc.get?_cons, if_neg hk]
      · rfl

theorem warn_nil (c : Context) : c.warn [] = c := by
  simp [warn, Journal.warn]

theorem warn_warn (c : Context) (first second : List Warning) :
    (c.warn first).warn second = c.warn (first ++ second) := by
  simp [warn, Journal.warn]

end Context

end Workflow
