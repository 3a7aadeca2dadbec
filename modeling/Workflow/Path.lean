import Workflow.Text.Basic

/-! Paths below a name: `base.field[0].rest`. `parse` splits a reference expression into its base and its segments, and
`render` writes segments back. -/

namespace Workflow

inductive Segment where
  | field (name : String)
  | index (n : Nat)
  deriving DecidableEq, Repr

abbrev Path := List Segment

namespace Segment

def render : Segment → String
  | .field name => "." ++ name
  | .index n => "[" ++ Text.ofNat n ++ "]"

/-- What stands between brackets: an index if it is a machine word, otherwise a field. -/
def ofBracketed (cs : List Char) : Segment :=
  match Text.word? cs with
  | some n => .index n
  | none => .field (String.ofList cs)

end Segment

namespace Path

def render (path : Path) : String := String.join (path.map Segment.render)

def isDelimiter (c : Char) : Bool := c = '.' || c = '['

/-- The characters up to the next dot or opening bracket. -/
def word (cs : List Char) : List Char := cs.takeWhile fun c => !isDelimiter c

def afterWord (cs : List Char) : List Char := cs.dropWhile fun c => !isDelimiter c

theorem afterWord_length (cs : List Char) : (afterWord cs).length ≤ cs.length :=
  (List.dropWhile_sublist _).length_le

def bracketed (cs : List Char) : List Char := cs.takeWhile (· ≠ ']')

/-- What follows the first closing bracket. -/
def afterBracket (cs : List Char) : List Char := (cs.dropWhile (· ≠ ']')).drop 1

theorem afterBracket_length (cs : List Char) : (afterBracket cs).length ≤ cs.length :=
  ((List.drop_sublist 1 _).trans (List.dropWhile_sublist _)).length_le

/-- The segments of a text; it ends where no further segment begins. -/
def segments : List Char → Path
  | '.' :: rest => .field (String.ofList (word rest)) :: segments (afterWord rest)
  | '[' :: rest => if ']' ∈ rest then .ofBracketed (bracketed rest) :: segments (afterBracket rest) else []
  | _ => []
termination_by cs => cs.length
decreasing_by
  · exact Nat.lt_succ_of_le (afterWord_length rest)
  · exact Nat.lt_succ_of_le (afterBracket_length rest)

/-- The base and the segments of a reference expression. -/
def parse (expr : String) : String × Path :=
  (String.ofList (word expr.toList), segments (afterWord expr.toList))

end Path

end Workflow
