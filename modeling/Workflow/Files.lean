import Workflow.Document.Load

/-! A tree of files as a value, and the loading of documents from it. Paths are texts with slashes; they are
resolved step by step, so every directory on the way has to exist, also before `..`. -/

namespace Workflow

namespace FilePath

def segments (path : String) : List String := (Text.splitOn '/' path.toList).map String.ofList

def isAbsolute (path : String) : Bool := path.toList.head? = some '/'

/-- A path below a directory; an absolute path stays as it is. -/
def join (dir path : String) : String :=
  if isAbsolute path then path
  else if dir.isEmpty || dir.toList.getLast? = some '/' then dir ++ path
  else dir ++ "/" ++ path

/-- Whether a segment names nothing: empty, or a dot that is not the start of a relative path. -/
def isVoid (position : Nat) (segment : String) : Bool := segment.isEmpty || (segment = "." && position ≠ 0)

/-- A path without void segments at its end. -/
def trimVoid (segments : List String) : List String :=
  ((segments.zipIdx.reverse.dropWhile fun (s, i) => isVoid i s).reverse).map Prod.fst

/-- The directory that holds a path, as far as the text says; none for the root and for the empty path. -/
def parent? (path : String) : Option String :=
  match trimVoid (segments path) with
  | [] => none
  | named =>
    let rest := Text.join "/" (trimVoid named.dropLast)
    if rest.isEmpty && isAbsolute path then some "/" else some rest

/-- The last segment, if it is a name. -/
def fileName? (path : String) : Option String :=
  ((trimVoid (segments path)).getLast?).filter fun s => s ≠ ".." && s ≠ "."

/-- What follows the last dot of the file name; a dot at its start does not count. -/
def extension? (path : String) : Option String := do
  let name ← fileName? path
  let pieces := Text.splitOn '.' name.toList
  let stem := pieces.dropLast
  if stem.isEmpty || stem = [[]] then none else pieces.getLast?.map String.ofList

end FilePath

/-- Files by the names that lead to them from the root, and the directory that relative paths start from. -/
structure FileTree where
  workingDir : String
  files : List (List String × ByteArray)

namespace FileTree

def empty : FileTree := ⟨"/", []⟩

inductive Entry where
  | directory
  | file (content : ByteArray)

def names (path : String) : List String := (FilePath.segments path).filter fun s => !s.isEmpty

/-- What stands at a place. Directories are those that hold files, the working directory and the ones above it. -/
def entry? (t : FileTree) (place : List String) : Option Entry :=
  match t.files.find? (·.1 = place) with
  | some (_, content) => some (.file content)
  | none =>
    if (names t.workingDir :: t.files.map Prod.fst).any place.isPrefixOf then some .directory else none

def notFound : String := "No such file or directory (os error 2)"

def notDirectory : String := "Not a directory (os error 20)"

def isDirectory : String := "Is a directory (os error 21)"

def nameTooLong : String := "File name too long (os error 36)"

/-- Follows segments from a place; each step must start in a directory and end at something. -/
def walk (t : FileTree) (place : List String) : List String → Except String (List String × Entry)
  | [] =>
    match t.entry? place with
    | none => .error notFound
    | some e => .ok (place, e)
  | s :: rest =>
    match t.entry? place with
    | none => .error notFound
    | some (.file _) => .error notDirectory
    | some .directory =>
      if s.isEmpty || s = "." then t.walk place rest
      else if s = ".." then t.walk place.dropLast rest
      else if 255 < s.utf8ByteSize then .error nameTooLong
      else t.walk (place ++ [s]) rest

def find (t : FileTree) (path : String) : Except String (List String × Entry) :=
  if path.isEmpty then .error notFound
  else if path.toList.contains '\x00' then .error "file name contained an unexpected NUL byte"
  else t.walk [] (FilePath.segments (FilePath.join t.workingDir path))

/-- The path without detours, if it leads to something; otherwise the path as it is. -/
def canonical (t : FileTree) (path : String) : String :=
  match t.find path with
  | .ok (place, _) => "/" ++ Text.join "/" place
  | .error _ => path

def read (t : FileTree) (path : String) : Except String String := do
  let (_, e) ← t.find path
  match e with
  | .directory => .error isDirectory
  | .file content =>
    match String.fromUTF8? content with
    | none => .error "stream did not contain valid UTF-8"
    | some text => .ok text

/-- Loads a document; the file is read before its extension is looked at. -/
def load (t : FileTree) (path : String) : Except Fault Document :=
  match t.read path with
  | .error problem => .error (.io problem)
  | .ok text =>
    match FilePath.extension? path with
    | some "json" => Document.ofJsonText text
    | some "yaml" | some "yml" => Document.ofYamlText text
    | _ => .error (.unsupportedFormat path)

end FileTree

end Workflow
