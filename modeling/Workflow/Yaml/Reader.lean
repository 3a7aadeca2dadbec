import Workflow.Yaml.Scalar

/-! One Yaml document as a Json value. Inside brackets and braces the columns do not matter; outside, a collection
holds what stands in its column. Keys are scalars on one line and give their text. At most 128 collections lie
inside each other. -/

namespace Workflow.Yaml

abbrev Reader := List Glyph → Option (Json × List Glyph)

/-- A scalar on one line with a colon after it. After a quoted key in a flow collection the colon needs no space. -/
def readKey (flow : Bool) (floor : Nat) (gs : List Glyph) : Option (String × List Glyph) := do
  let (scalar, rest) ← readScalar flow floor gs
  let used := gs.take (gs.length - (dropBlanks rest).length)
  if used.any (fun g => isBreak g.char) || 1024 < used.length then none
  else
    match dropBlanks rest with
    | ⟨':', _⟩ :: rest => if atSpace rest || (flow && scalar.isQuoted) then some (scalar.text, rest) else none
    | _ => none

def readValue (flow : Bool) (floor : Nat) : Reader := fun gs => do
  let (scalar, rest) ← readScalar flow floor gs
  some (← scalar.value?, rest)

/-! ### Flow collections -/

/-- The value after the colon of a key, which may be missing. -/
def readFlowValue (node : Reader) : Reader := fun gs =>
  match skipFlow gs with
  | g :: rest => if g.char = ',' || g.char = ']' || g.char = '\x7d' then some (.null, g :: rest) else node (g :: rest)
  | [] => none

/-- One pair of a flow mapping; a lone scalar is a key without a value. -/
def readPair (floor : Nat) (node : Reader) (gs : List Glyph) : Option ((String × Json) × List Glyph) :=
  match readKey true floor gs with
  | some (key, rest) => (readFlowValue node rest).map fun (v, rest) => ((key, v), rest)
  | none => (readScalar true floor gs).map fun (scalar, rest) => ((scalar.text, .null), rest)

/-- The parts of a flow collection up to the bracket that closes it; a comma may stand after the last one. -/
def readParts (part : List Glyph → Option (α × List Glyph)) (close : Char) :
    Nat → List Glyph → Option (List α × List Glyph)
  | 0, _ => none
  | fuel + 1, gs =>
    match skipFlow gs with
    | [] => none
    | g :: rest =>
      if g.char = close then some ([], rest)
      else do
        let (v, rest) ← part (g :: rest)
        match skipFlow rest with
        | ⟨',', _⟩ :: rest =>
          let (vs, rest) ← readParts part close fuel rest
          some (v :: vs, rest)
        | h :: rest => if h.char = close then some ([v], rest) else none
        | [] => none

/-- A node of a flow collection. In a list, where `pairs` is set, a pair without braces is a mapping of its own. -/
def readFlow (fuel floor : Nat) (pairs : Bool) : Nat → Reader
  | 0, gs => readValue true floor gs
  | depth + 1, gs =>
    match gs with
    | ⟨'[', _⟩ :: rest =>
      (readParts (readFlow fuel floor true depth) ']' fuel rest).map fun (vs, rest) => (.arr vs, rest)
    | ⟨'\x7b', _⟩ :: rest =>
      (readParts (readPair floor (readFlow fuel floor false depth)) '\x7d' fuel rest).map fun (vs, rest) =>
        (.obj (Assoc.ofList vs), rest)
    | gs =>
      match readKey true floor gs with
      | some (key, rest) =>
        if pairs then
          (readFlowValue (readFlow fuel floor false depth) rest).map fun (v, rest) => (.obj [(key, v)], rest)
        else none
      | none => readValue true floor gs

/-! ### Block collections -/

/-- A node that stands behind something else in its line: a scalar or a flow collection with nothing after it, or a
block scalar. -/
def readInline (fuel depth floor : Nat) : Reader := fun gs =>
  match gs with
  | ⟨'|', _⟩ :: rest => (readBlockScalar false floor rest).map fun (text, rest) => (.str text, rest)
  | ⟨'>', _⟩ :: rest => (readBlockScalar true floor rest).map fun (text, rest) => (.str text, rest)
  | gs => do
    let isFlow := gs.head?.any fun g => g.char = '[' || g.char = '\x7b'
    let (v, rest) ← if isFlow then readFlow fuel floor false depth gs else readValue false floor gs
    some (v, ← restOfLine? rest)

/-- The value of a key: in its line, or below it and further in. A list may also stand in the column of the key,
which is the one before `floor`. -/
def readBelow (node inline : Nat → Reader) (floor : Nat) : Reader := fun gs =>
  match restOfLine? gs with
  | none => inline floor (dropBlanks gs)
  | some rest =>
    let rest := skipLines rest
    match column? rest with
    | none => some (.null, rest)
    | some c => if floor ≤ c || (c + 1 = floor && atDash rest) then node floor rest else some (.null, rest)

/-- The items of a block list in a column. -/
def readItems (node : Nat → Reader) (column : Nat) : Nat → List Glyph → Option (List Json × List Glyph)
  | 0, _ => none
  | fuel + 1, gs => do
    let rest := skipLines (gs.drop 1)
    let (v, rest) ← if (column? rest).any (column < ·) then node (column + 1) rest else some (.null, rest)
    let rest := skipLines rest
    match column? rest with
    | none => some ([v], rest)
    | some c =>
      if c = column ∧ atDash rest then
        let (vs, rest) ← readItems node column fuel rest
        some (v :: vs, rest)
      else if column < c then none
      else some ([v], rest)

/-- The members of a block mapping in a column. -/
def readMembers (value : Nat → Reader) (column : Nat) :
    Nat → List Glyph → Option (List (String × Json) × List Glyph)
  | 0, _ => none
  | fuel + 1, gs => do
    let (key, rest) ← readKey false (column + 1) gs
    let (v, rest) ← value (column + 1) rest
    let rest := skipLines rest
    match column? rest with
    | none => some ([(key, v)], rest)
    | some c =>
      if c = column then
        let (vs, rest) ← readMembers value column fuel rest
        some ((key, v) :: vs, rest)
      else if column < c then none
      else some ([(key, v)], rest)

/-- A node that comes first in its line or after a dash, in a column from `floor` on. -/
def readBlock (fuel : Nat) : Nat → Nat → Reader
  | 0, floor, gs => readInline fuel 0 floor gs
  | depth + 1, floor, gs =>
    let column := (column? gs).getD 0
    if atDash gs then
      (readItems (readBlock fuel depth) column fuel gs).map fun (vs, rest) => (.arr vs, rest)
    else if (readKey false floor gs).isSome then
      let value := readBelow (readBlock fuel depth) (readInline fuel depth)
      (readMembers value column fuel gs).map fun (vs, rest) => (.obj (Assoc.ofList vs), rest)
    else readInline fuel (depth + 1) floor gs

/-! ### Documents -/

def maxDepth : Nat := 128

/-- Skips the markers that end a document. -/
def skipEnds : Nat → List Glyph → List Glyph
  | 0, gs => gs
  | fuel + 1, gs =>
    let rest := skipLines gs
    match rest, restOfLine? (rest.drop 3) with
    | ⟨'.', _⟩ :: _, some after => if atMarker rest then skipEnds fuel after else rest
    | _, _ => rest

def readDocument (fuel : Nat) : Reader := fun gs =>
  let gs := skipLines gs
  match gs with
  | [] => some (.null, [])
  | g :: _ =>
    if !atMarker gs then readBlock fuel maxDepth 0 gs
    else if g.char = '-' then readBelow (readBlock fuel maxDepth) (readInline fuel maxDepth) 0 (gs.drop 3)
    else none

/-- The value of a text that holds one document at most; an empty text is null. -/
def read? (text : String) : Option Json := do
  let gs ← glyphs? text
  let (v, rest) ← readDocument gs.length gs
  if (skipEnds gs.length rest).isEmpty then some v else none

end Workflow.Yaml
