import Workflow.Subworkflow

/-! The command line: `validate`, `run` and `order` a workflow document. Arguments are read left to right; the
outcome of a command is its exit code and what it writes, computed from the files, the environment and the standard
input. -/

namespace Workflow.CommandLine

/-! ### Arguments -/

structure Arguments where
  file : Option String := none
  params : List (String × Json) := []
  verbose : Bool := false
  permissive : Bool := false
  strict : Bool := false
  json : Bool := false

inductive Command where
  | validate (file : String) (params : Fields)
  | run (file : String) (params : Fields) (mode : Option Mode) (json : Bool)
  | order (file : String)

/-- Why no command is run. -/
inductive Refusal where
  | usage (problem : String)
  | help
  | version

/-- The commands, with the options each of them takes besides the common ones. -/
inductive Verb where
  | validate | run | order
  deriving DecidableEq

namespace Verb

def ofName? : String → Option Verb
  | "validate" => some .validate
  | "run" => some .run
  | "order" => some .order
  | _ => none

def takesParams (v : Verb) : Bool := v ≠ .order

def takesModes (v : Verb) : Bool := v = .run

end Verb

/-- Cuts a text at the first occurrence of a character. -/
def cutAt (c : Char) (cs : List Char) : Option (List Char × List Char) :=
  if cs.contains c then some (cs.takeWhile (· ≠ c), (cs.dropWhile (· ≠ c)).drop 1) else none

/-- A parameter `KEY=VALUE`; the value is read as Json where possible and is a text otherwise. -/
def readParam (raw : List Char) : Except Refusal (String × Json) :=
  match cutAt '=' raw with
  | none => .error (.usage ("expected KEY=VALUE, got '" ++ String.ofList raw ++ "'"))
  | some ([], _) => .error (.usage ("empty parameter name in '" ++ String.ofList raw ++ "'"))
  | some (key, value) => .ok (String.ofList key, (Json.readChars value).getD (.str (String.ofList value)))

def setFlag (given : Bool) (name : String) : Except Refusal Bool :=
  if given then .error (.usage s!"the argument '{name}' cannot be used multiple times") else .ok true

def unexpected (arg : String) : Refusal := .usage s!"unexpected argument '{arg}'"

def addParam (a : Arguments) (raw : List Char) : Except Refusal Arguments :=
  (readParam raw).map fun param => { a with params := a.params ++ [param] }

/-- Takes the file of the command. -/
def addFile (a : Arguments) (arg : String) : Except Refusal Arguments :=
  if a.file.isSome then .error (unexpected arg)
  else if arg.isEmpty then .error (.usage "a value is required for '<FILE>'")
  else .ok { a with file := arg }

/-- A long option without a value. -/
def addLongFlag (verb : Verb) (a : Arguments) (name : String) : Except Refusal Arguments :=
  match name with
  | "help" => .error .help
  | "verbose" => (setFlag a.verbose name).map fun b => { a with verbose := b }
  | "permissive" =>
    if verb.takesModes then (setFlag a.permissive name).map fun b => { a with permissive := b }
    else .error (unexpected name)
  | "strict" =>
    if verb.takesModes then (setFlag a.strict name).map fun b => { a with strict := b } else .error (unexpected name)
  | "json" =>
    if verb.takesModes then (setFlag a.json name).map fun b => { a with json := b } else .error (unexpected name)
  | _ => .error (unexpected name)

/-- What an argument in short form comes to: done, or a parameter whose value is the next argument. -/
inductive Short where
  | done (a : Arguments)
  | wantsParam (a : Arguments)

def addShort (verb : Verb) (a : Arguments) : List Char → Except Refusal Short
  | [] => .ok (.done a)
  | 'h' :: _ => .error .help
  | 'v' :: rest => (setFlag a.verbose "verbose").bind fun b => addShort verb { a with verbose := b } rest
  | 'p' :: rest =>
    if !verb.takesParams then .error (unexpected "p")
    else
      match rest with
      | [] => .ok (.wantsParam a)
      | '=' :: value => (addParam a value).map .done
      | value => (addParam a value).map .done
  | c :: _ => .error (unexpected (String.singleton c))

/-- Whether an argument can be the value of an option: it does not look like an option itself. -/
def canBeValue (arg : List Char) : Bool :=
  match arg with
  | ['-'] => true
  | '-' :: _ => false
  | _ => true

/-- Reads the arguments of a command. While `pending`, the next argument is the value of a parameter. -/
def readArguments (verb : Verb) (a : Arguments) (pending : Bool) : List String → Except Refusal Arguments
  | [] => if pending then .error (.usage "a value is required for '--param'") else .ok a
  | arg :: rest =>
    if pending then
      if canBeValue arg.toList then
        (addParam a arg.toList).bind fun a => readArguments verb a false rest
      else .error (.usage "a value is required for '--param'")
    else
      match arg.toList with
      | ['-', '-'] => rest.foldlM addFile a
      | '-' :: '-' :: option =>
        match cutAt '=' option with
        | none =>
          if option = "param".toList ∧ verb.takesParams then readArguments verb a true rest
          else (addLongFlag verb a (String.ofList option)).bind fun a => readArguments verb a false rest
        | some (name, value) =>
          if name = "param".toList ∧ verb.takesParams then
            (addParam a value).bind fun a => readArguments verb a false rest
          else .error (unexpected arg)
      | '-' :: c :: short =>
        (addShort verb a (c :: short)).bind fun found =>
          match found with
          | .done a => readArguments verb a false rest
          | .wantsParam a => readArguments verb a true rest
      | _ => (addFile a arg).bind fun a => readArguments verb a false rest

def commandOf (verb : Verb) (a : Arguments) : Except Refusal Command :=
  match a.file with
  | none => .error (.usage "the following required arguments were not provided: <FILE>")
  | some file =>
    let params := Assoc.ofList a.params
    match verb with
    | .validate => .ok (.validate file params)
    | .order => .ok (.order file)
    | .run =>
      if a.permissive && a.strict then .error (.usage "the argument '--permissive' cannot be used with '--strict'")
      else
        let mode := if a.permissive then some Mode.permissive else if a.strict then some .strict else none
        .ok (.run file params mode a.json)

/-- Reads a whole command line. Before the command only the common options may stand. -/
def readCommand (verbose : Bool) : List String → Except Refusal Command
  | [] => .error (.usage "a command is required")
  | arg :: rest =>
    match arg with
    | "-h" | "--help" => .error .help
    | "-V" | "--version" => .error .version
    | "-v" | "--verbose" => (setFlag verbose arg).bind fun b => readCommand b rest
    | "help" => if rest.all fun name => (Verb.ofName? name).isSome then .error .help else .error (unexpected arg)
    | _ =>
      match Verb.ofName? arg with
      | none => .error (unexpected arg)
      | some verb => (readArguments verb {} false rest).bind (commandOf verb)

/-! ### Commands -/

/-- What a command is run with. Without standard input a terminal is attached. -/
structure Setting where
  files : FileTree
  env : Assoc String
  stdin : Option ByteArray

/-- What a command writes, line by line, and its exit code. -/
structure Outcome where
  code : Nat
  out : List String
  err : List String

/-- A failure that ends the program: its message with all causes, and advice if there is any. -/
structure Ending where
  message : String
  fix : Option String

/-- The message of a fault followed by that of its cause. -/
def withCause (fault : Fault) : String :=
  match fault with
  | .io problem | .jsonSyntax problem | .yamlSyntax problem => fault.message ++ ": " ++ problem
  | .plan inner => fault.message ++ ": " ++ inner.message
  | _ => fault.message

def Ending.ofFault (fault : Fault) : Ending := ⟨withCause fault, fault.fix?⟩

def fixLine (fix : String) : String := "  Fix: " ++ fix

def Ending.lines (e : Ending) : List String := ("Error: " ++ e.message) :: (e.fix.map fixLine).toList

def load (s : Setting) (file : String) : Except Ending Document :=
  (s.files.load file).mapError fun fault => ⟨s!"failed to load '{file}': " ++ withCause fault, fault.fix?⟩

/-- The first input that asks for standard input and is not given. -/
def stdinInput? (d : Document) (params : Fields) : Option String :=
  (d.inputs.find? fun e => e.2.stdin && !Assoc.contains params e.1).map Prod.fst

/-- The parameters, with standard input read into the input that asks for it. -/
def collectParams (s : Setting) (d : Document) (params : Fields) : Except Ending Fields :=
  match stdinInput? d params, s.stdin with
  | some name, some bytes =>
    match String.fromUTF8? bytes with
    | none => .error ⟨"failed to read stdin: stream did not contain valid UTF-8", none⟩
    | some text => .ok (Assoc.put name (.str (Text.trimEnd '\n' text)) params)
  | _, _ => .ok params

/-- Options for the document of a file: its canonical path is its identity and its directory the start of relative
references. -/
def optionsFor (s : Setting) (file : String) : PlanOptions :=
  let path := s.files.canonical file
  { limits := Limits.standard.withOverrides (Assoc.get? s.env)
    baseDir := FilePath.parent? path
    identity := path }

def diagnosticLines (d : Diagnostic) : List String := ["Error: " ++ d.message, fixLine d.suggestion]

def planLines (file : String) (d : Document) (plan : Plan) : List String :=
  [s!"✓ Workflow '{file}' is valid", "  Name: " ++ d.displayName, "  Nodes: " ++ Text.ofNat d.steps.length,
    "  Edges: " ++ Text.ofNat d.edges.length, "  Start: " ++ plan.start, "  Mode: " ++ plan.mode.name]

def validate (s : Setting) (file : String) (params : Fields) : Except Ending Outcome := do
  let d ← load s file
  let params ← collectParams s d params
  let options := { optionsFor s file with external := Assoc.keys params }
  let errors := (DataFlow.validate (Plan.view .builtin d) options.external).filter Diagnostic.isError
  if errors.isEmpty then
    match Plan.build .builtin options d with
    | .error fault => .error (.ofFault fault)
    | .ok plan =>
      let warnings := (plan.diagnostics ++ plan.warnings).map fun w => "Warning: " ++ w.message
      .ok ⟨0, planLines file d plan, warnings⟩
  else
    let count := errors.length
    let ending : Ending := ⟨s!"'{file}' has {count} data-flow error(s)", none⟩
    .ok ⟨1, [], errors.flatMap diagnosticLines ++ ending.lines⟩

def about (stepId : Option String) (message : String) : String :=
  match stepId with
  | none => message
  | some id => s!"[{id}] " ++ message

def resultOut (r : RunResult) : List String :=
  let completed := if r.completed.isEmpty then [] else ["  Completed: " ++ Text.join ", " r.completed]
  let outputs :=
    if r.outputs.isEmpty then [] else "Outputs:" :: r.outputs.map fun e => "  " ++ e.1 ++ ": " ++ e.2.text
  ("→ Run " ++ r.status.name) :: completed ++ outputs

def resultErr (r : RunResult) : List String :=
  r.diagnostics.map (fun w => "Note: " ++ w.message) ++
    r.warnings.map (fun w => "Warning: " ++ about w.stepId w.message) ++
    r.errors.flatMap fun f => ("Error: " ++ about f.stepId f.message) :: (f.fix.map fixLine).toList

def runDocument (s : Setting) (file : String) (params : Fields) (mode : Option Mode) (json : Bool) :
    Except Ending Outcome := do
  let d ← load s file
  let params ← collectParams s d params
  let host : Host := ⟨.builtin, s.files⟩
  let result := host.run d params { optionsFor s file with mode := mode }
  let code := if result.succeeded then 0 else 1
  if json then .ok ⟨code, [result.toJson.pretty], []⟩ else .ok ⟨code, resultOut result, resultErr result⟩

def rightAlign (width : Nat) (text : String) : String :=
  String.ofList (List.replicate (width - text.length) ' ') ++ text

def order (s : Setting) (file : String) : Except Ending Outcome := do
  let d ← load s file
  match d.graph.order with
  | .error cycles => .error (.ofFault (.dataFlow (cycles.map .cycle)))
  | .ok ids => .ok ⟨0, ids.zipIdx.map fun (id, i) => rightAlign 3 (Text.ofNat (i + 1)) ++ ". " ++ id, []⟩

def perform (s : Setting) (command : Command) : Outcome :=
  let outcome :=
    match command with
    | .validate file params => validate s file params
    | .run file params mode json => runDocument s file params mode json
    | .order file => order s file
  match outcome with
  | .ok outcome => outcome
  | .error ending => ⟨1, [], ending.lines⟩

/-- Whether standard input makes a difference to the outcome. -/
def wantsStdin (s : Setting) (args : List String) : Bool :=
  match readCommand false args with
  | .ok (.validate file params) | .ok (.run file params ..) =>
    match s.files.load file with
    | .ok d => (stdinInput? d params).isSome
    | .error _ => false
  | _ => false

def usage : List String :=
  ["Usage: weave [OPTIONS] <COMMAND>", "", "Commands:", "  validate <FILE> [-p KEY=VALUE]...",
    "  run <FILE> [-p KEY=VALUE]... [--permissive | --strict] [--json]", "  order <FILE>", "", "Options:",
    "  -v, --verbose", "  -h, --help", "  -V, --version"]

/-- The outcome of a whole command line. -/
def outcome (s : Setting) (args : List String) : Outcome :=
  match readCommand false args with
  | .ok command => perform s command
  | .error .help => ⟨0, usage, []⟩
  | .error .version => ⟨0, ["weave 0.1.0"], []⟩
  | .error (.usage problem) => ⟨2, [], ["error: " ++ problem, "", "For more information, try '--help'."]⟩

end Workflow.CommandLine
