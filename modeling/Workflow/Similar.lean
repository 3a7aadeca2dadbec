import Workflow.Text.Basic
import Workflow.Text.Lowercase

/-! Names similar to a given one: first those equal up to letter case, then those of which one contains the other, then
those a small edit distance away. -/

namespace Workflow.Similar

/-- One row of the distance table from the row above it: `left` is the new entry before the next one, and each entry
takes the cheapest of substitution, deletion and insertion. -/
def nextEntries (c : Char) (left : Nat) : List Nat → List Char → List Nat
  | diagonal :: above :: row, d :: rest =>
    let entry := min (min (diagonal + if c = d then 0 else 1) (above + 1)) (left + 1)
    entry :: nextEntries c entry (above :: row) rest
  | _, _ => []

def nextRow (c : Char) (target : List Char) (row : List Nat) : List Nat :=
  let first := row.headD 0 + 1
  first :: nextEntries c first row target

/-- Row `i` holds the distances from the first `i` characters of the source to every beginning of the target. -/
def lastRow (target : List Char) (row : List Nat) : List Char → List Nat
  | [] => row
  | c :: rest => lastRow target (nextRow c target row) rest

/-- The least number of insertions, deletions and substitutions that turn one text into the other. -/
def editDistance (source target : List Char) : Nat :=
  (lastRow target (List.range (target.length + 1)) source).getLastD 0

/-- Whether one text contains the other; the shorter must have three bytes. -/
def overlaps (a b : String) : Bool :=
  let (short, long) := if a.utf8ByteSize ≤ b.utf8ByteSize then (a, b) else (b, a)
  3 ≤ short.utf8ByteSize && Text.contains long short

/-- How close a candidate is to a name, both in lower case; the closest first. -/
def rank? (wanted candidate : String) : Option Nat :=
  if candidate = wanted then some 0
  else if overlaps candidate wanted then some 1
  else if 3 < wanted.utf8ByteSize ∧ editDistance candidate.toList wanted.toList ≤ 2 then some 2
  else none

def precedes (a b : Nat × String) : Bool := a.1 < b.1 || (a.1 = b.1 && decide (a.2 ≤ b.2))

/-- The candidates similar to a name, the closest first and in code point order among equals. -/
def find (name : String) (candidates : List String) (limit : Nat) : List String :=
  let wanted := Text.lowercase name
  let ranked := candidates.filterMap fun candidate =>
    (rank? wanted (Text.lowercase candidate)).map fun rank => (rank, candidate)
  ((ranked.mergeSort precedes).take limit).map Prod.snd

end Workflow.Similar
