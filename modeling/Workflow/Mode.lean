import Workflow.Text.Basic

/-! How problems with references are taken: in strict mode they end a run, in permissive mode they become warnings. -/

namespace Workflow

inductive Mode where
  | strict
  | permissive
  deriving DecidableEq, Repr, Inhabited

namespace Mode

def name : Mode → String
  | .strict => "strict"
  | .permissive => "permissive"

def ofName? : String → Option Mode
  | "strict" => some .strict
  | "permissive" => some .permissive
  | _ => none

/-- Reads a mode in any letter case. -/
def parse (text : String) : Except String Mode :=
  let lower := Text.asciiLower text
  match ofName? lower with
  | some mode => .ok mode
  | none => .error s!"unknown template mode '{lower}', expected strict or permissive"

end Mode

end Workflow
