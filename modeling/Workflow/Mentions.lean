import Workflow.Files
import Workflow.CommandLine

/-! The files that a command line may come to read. A workflow is named by a text, relative to the directory of the
file that names it, so every text of the arguments and of the documents read so far is tried from every directory
met so far. -/

namespace Workflow

mutual

/-- Every text inside a value. -/
def Json.texts : Json → List String
  | .str text => [text]
  | .arr items => itemTexts items
  | .obj fields => fieldTexts fields
  | _ => []

def itemTexts : List Json → List String
  | [] => []
  | v :: rest => v.texts ++ itemTexts rest

def fieldTexts : List (String × Json) → List String
  | [] => []
  | (_, v) :: rest => v.texts ++ fieldTexts rest

end

namespace Mentions

/-- The texts of a document, if the content of a file is one. -/
def ofContent (content : ByteArray) : List String :=
  match String.fromUTF8? content with
  | none => []
  | some text => (((Json.read? text).or (Yaml.read? text)).map Json.texts).getD []

/-- The texts of an argument: itself, and those of the value that it may give to a parameter. -/
def ofArgument (arg : String) : List String :=
  match CommandLine.cutAt '=' arg.toList with
  | none => [arg]
  | some (_, value) => arg :: String.ofList value :: ((Json.readChars value).map Json.texts).getD []

def texts (t : FileTree) (args : List String) : List String :=
  args.flatMap ofArgument ++ t.files.flatMap fun e => ofContent e.2

def directories (t : FileTree) : List String :=
  (t.workingDir :: t.files.map fun e => "/" ++ Text.join "/" e.1.dropLast).eraseDups

/-- The paths that may lead to further files. -/
def paths (t : FileTree) (args : List String) : List String :=
  ((directories t).flatMap fun dir => (texts t args).map (FilePath.join dir)).eraseDups

end Mentions

end Workflow
