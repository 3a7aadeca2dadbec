import Workflow.Yaml.Glyph
import Workflow.Yaml.Literal

/-! Scalars of Yaml in all their styles: plain, single-quoted, double-quoted and block. Line breaks inside a scalar
are folded: one becomes a space, and of several the first is dropped. -/

namespace Workflow.Yaml

/-- The line breaks between two lines of a scalar, folded. -/
def folded : List Char → List Char
  | ['\n'] => [' ']
  | '\n' :: rest => rest
  | breaks => breaks

/-- White space met since the last visible character of a scalar. -/
inductive Gap where
  | blanks (cs : List Char)
  | breaks (cs : List Char)
  /-- Begun by a line break that was escaped, so there is nothing to fold. -/
  | joined (breaks : List Char)

namespace Gap

def none : Gap := .blanks []

/-- Blanks count only on the line of the character before them. -/
def addBlank (gap : Gap) (c : Char) : Gap :=
  match gap with
  | .blanks cs => .blanks (cs ++ [c])
  | gap => gap

def addBreak (gap : Gap) (c : Char) : Gap :=
  match gap with
  | .blanks _ => .breaks [c]
  | .breaks cs => .breaks (cs ++ [c])
  | .joined cs => .joined (cs ++ [c])

def isEmpty : Gap → Bool
  | .blanks cs => cs.isEmpty
  | _ => false

def spansLines : Gap → Bool
  | .blanks _ => false
  | _ => true

/-- What the gap contributes to the scalar. -/
def chars : Gap → List Char
  | .blanks cs => cs
  | .breaks cs => folded cs
  | .joined cs => cs

end Gap

/-! ### Plain -/

def isFlowMark (c : Char) : Bool := c = ',' || c = '[' || c = ']' || c = '\x7b' || c = '\x7d'

def isIndicator (c : Char) : Bool :=
  isFlowMark c || "-?:#&*!|>%@\"".toList.contains c || c = '\x27' || c = '\x60'

/-- Whether a plain scalar may begin here. -/
def startsPlain (flow : Bool) : List Glyph → Bool
  | [] => false
  | g :: rest =>
    !atMarker (g :: rest) && !atSpace (g :: rest) &&
      (!isIndicator g.char || (g.char = '-' && !atSpace rest) ||
        (!flow && (g.char = '?' || g.char = ':') && !atSpace rest))

/-- Whether a plain scalar ends before a glyph, whatever comes before that. -/
def endsPlain (flow : Bool) (g : Glyph) (rest : List Glyph) : Bool :=
  (g.char = ':' && (atSpace rest || (flow && rest.head?.any fun h => isFlowMark h.char || h.char = '?'))) ||
    (flow && isFlowMark g.char)

/-- The rest of a plain scalar after a gap. In a block its lines must keep to the columns from `floor` on; `mark` is
what was left before the gap, and all that is left if the scalar ends there. -/
def plainRest (flow : Bool) (floor : Nat) (gap : Gap) (mark : List Glyph) :
    List Glyph → Option (List Char × List Glyph)
  | [] => some ([], mark)
  | g :: rest =>
    if isBlank g.char then
      if gap.spansLines && g.column < floor && g.char = '\t' then none
      else plainRest flow floor (gap.addBlank g.char) mark rest
    else if isBreak g.char then plainRest flow floor (gap.addBreak g.char) mark rest
    else if (g.char = '#' && !gap.isEmpty) ||
        (gap.spansLines && ((!flow && g.column < floor) || atMarker (g :: rest))) ||
        endsPlain flow g rest then some ([], mark)
    else
      (plainRest flow floor .none rest rest).map fun (cs, left) => (gap.chars ++ g.char :: cs, left)

/-! ### Quoted -/

/-- The rest of a single-quoted scalar, in which a quote is written twice. -/
def singleRest (gap : Gap) : List Glyph → Option (List Char × List Glyph)
  | [] => none
  | ⟨'\x27', _⟩ :: ⟨'\x27', _⟩ :: rest =>
    (singleRest .none rest).map fun (cs, left) => (gap.chars ++ '\x27' :: cs, left)
  | ⟨'\x27', _⟩ :: rest => some (gap.chars, rest)
  | g :: rest =>
    if isBlank g.char then singleRest (gap.addBlank g.char) rest
    else if isBreak g.char then singleRest (gap.addBreak g.char) rest
    else if atMarker (g :: rest) then none
    else (singleRest .none rest).map fun (cs, left) => (gap.chars ++ g.char :: cs, left)

def escaped? : Char → Option Char
  | '0' => some '\x00'
  | 'a' => some '\x07'
  | 'b' => some '\x08'
  | 't' | '\t' => some '\t'
  | 'n' => some '\n'
  | 'v' => some '\x0b'
  | 'f' => some '\x0c'
  | 'r' => some '\r'
  | 'e' => some '\x1b'
  | ' ' => some ' '
  | '"' => some '"'
  | '/' => some '/'
  | '\\' => some '\\'
  | 'N' => some '\u0085'
  | '_' => some '\u00a0'
  | 'L' => some '\u2028'
  | 'P' => some '\u2029'
  | _ => none

/-- How many hexadecimal digits follow the letter of an escape. -/
def escapeLength : Char → Nat
  | 'x' => 2
  | 'u' => 4
  | 'U' => 8
  | _ => 0

/-- The character that hexadecimal digits stand for; surrogates are none. -/
def charOfDigits? (length : Nat) (cs : List Char) : Option Char :=
  if cs.length < length then none
  else (Text.numeral? 16 cs).bind fun n => if h : n.isValidChar then some (Char.ofNatAux n h) else none

/-- The rest of a double-quoted scalar. -/
def doubleRest (gap : Gap) : List Glyph → Option (List Char × List Glyph)
  | [] => none
  | ⟨'"', _⟩ :: rest => some (gap.chars, rest)
  | ⟨'\\', _⟩ :: e :: rest =>
    if isBreak e.char then
      (doubleRest (.joined []) rest).map fun (cs, left) => (gap.chars ++ cs, left)
    else
      let length := escapeLength e.char
      let plain := if 0 < length then charOfDigits? length ((rest.take length).map Glyph.char) else escaped? e.char
      plain.bind fun c =>
        (doubleRest .none (rest.drop length)).map fun (cs, left) => (gap.chars ++ c :: cs, left)
  | g :: rest =>
    if isBlank g.char then doubleRest (gap.addBlank g.char) rest
    else if isBreak g.char then doubleRest (gap.addBreak g.char) rest
    else if atMarker (g :: rest) || g.char = '\\' then none
    else (doubleRest .none rest).map fun (cs, left) => (gap.chars ++ g.char :: cs, left)
termination_by gs => gs.length

/-- A scalar that may be part of a line; only a plain one stands for anything but its text. -/
inductive Scalar where
  | plain (text : String)
  | quoted (text : String)

namespace Scalar

def text : Scalar → String
  | .plain text | .quoted text => text

def isQuoted : Scalar → Bool
  | .plain _ => false
  | .quoted _ => true

def value? : Scalar → Option Json
  | .plain text => Literal.value? text
  | .quoted text => some (.str text)

end Scalar

def readScalar (flow : Bool) (floor : Nat) (gs : List Glyph) : Option (Scalar × List Glyph) :=
  match gs with
  | ⟨'\x27', _⟩ :: rest => (singleRest .none rest).map fun (cs, left) => (.quoted (String.ofList cs), left)
  | ⟨'"', _⟩ :: rest => (doubleRest .none rest).map fun (cs, left) => (.quoted (String.ofList cs), left)
  | gs =>
    if startsPlain flow gs then
      (plainRest flow floor .none gs gs).map fun (cs, left) => (.plain (String.ofList cs), left)
    else none

/-! ### Block -/

/-- What becomes of the line breaks at the end of a block scalar. -/
inductive Chomp where
  | strip | clip | keep
  deriving DecidableEq

namespace Chomp

def ofMark? : Char → Option Chomp
  | '-' => some .strip
  | '+' => some .keep
  | _ => none

/-- The line breaks left of those that follow a body. -/
def apply (chomp : Chomp) (body tail : List Char) : List Char :=
  match chomp with
  | .strip => []
  | .clip => if body.isEmpty then [] else tail.take 1
  | .keep => tail

end Chomp

def depth? (c : Char) : Option Nat := if '1' ≤ c ∧ c ≤ '9' then some (c.toNat - '0'.toNat) else none

/-- The marks after the indicator of a block scalar: how it ends, and how far it is indented if that is stated. -/
def marks? : List Char → Option (Chomp × Option Nat)
  | [] => some (.clip, none)
  | [c] => ((Chomp.ofMark? c).map (·, none)).or ((depth? c).map fun n => (.clip, some n))
  | [c, d] =>
    let read (mark digit : Char) : Option (Chomp × Option Nat) :=
      (Chomp.ofMark? mark).bind fun chomp => (depth? digit).map fun n => (chomp, some n)
    (read c d).or (read d c)
  | _ => none

/-- The deepest column among the blank lines at the start of a block scalar and its first other line. -/
def firstColumn? : List Glyph → Option Nat
  | [] => some 0
  | g :: rest =>
    if g.char = ' ' then firstColumn? rest
    else if isBreak g.char then (firstColumn? rest).map (max g.column)
    else if g.char = '\t' then none
    else some g.column

/-- The lines of a block scalar without their indentation. -/
def blockRest (indent : Nat) (inLine : Bool) : List Glyph → Option (List Char × List Glyph)
  | [] => some ([], [])
  | g :: rest =>
    if isBreak g.char then (blockRest indent false rest).map fun (cs, left) => (g.char :: cs, left)
    else if inLine || indent ≤ g.column then (blockRest indent true rest).map fun (cs, left) => (g.char :: cs, left)
    else if g.char = ' ' then blockRest indent false rest
    else if g.char = '\t' then none
    else some ([], g :: rest)

/-- Folds the lines of a block scalar. The breaks next to a line that begins with a blank stay; `gap` holds the
breaks since the last line, and is absent inside a line. -/
def foldLines (afterBlank : Bool) (gap : Option (List Char)) : List Char → List Char
  | [] => []
  | c :: rest =>
    if isBreak c then foldLines afterBlank (some (gap.getD [] ++ [c])) rest
    else
      match gap with
      | none => c :: foldLines afterBlank none rest
      | some breaks =>
        (if afterBlank || isBlank c then breaks else folded breaks) ++ c :: foldLines (isBlank c) none rest

def foldBody (body : List Char) : List Char :=
  body.takeWhile isBreak ++ foldLines false (some []) (body.dropWhile isBreak)

/-- A block scalar after its indicator. -/
def readBlockScalar (fold : Bool) (floor : Nat) (gs : List Glyph) : Option (String × List Glyph) := do
  let isMark (g : Glyph) : Bool := g.char = '+' || g.char = '-' || g.char.isDigit
  let (chomp, stated) ← marks? ((gs.takeWhile isMark).map Glyph.char)
  let lines := (← restOfLine? (gs.dropWhile isMark)).drop 1
  let indent ←
    match stated with
    | some n => some (floor - 1 + n)
    | none => (firstColumn? lines).map fun first => max (max first floor) 1
  let (raw, left) ← blockRest indent false lines
  let tail := (raw.reverse.takeWhile isBreak).reverse
  let body := (raw.reverse.dropWhile isBreak).reverse
  some (String.ofList ((if fold then foldBody body else body) ++ chomp.apply body tail), left)

end Workflow.Yaml
