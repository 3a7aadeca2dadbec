import Workflow.Text.Basic

/-! Yaml text as characters that know their columns, with the white space between its parts. The structure of a
block is a matter of columns, so every reader of Yaml takes glyphs and hands back those that it leaves. -/

namespace Workflow.Yaml

/-- A character and the column in which it stands. -/
structure Glyph where
  char : Char
  column : Nat
  deriving DecidableEq, Repr

def isBreak (c : Char) : Bool := c = '\n' || c = '\u2028' || c = '\u2029'

def isBlank (c : Char) : Bool := c = ' ' || c = '\t'

/-- Every way to end a line, except the two separators, becomes a line feed. -/
def unifyBreaks : List Char → List Char
  | '\r' :: '\n' :: rest | '\r' :: rest | '\u0085' :: rest => '\n' :: unifyBreaks rest
  | c :: rest => c :: unifyBreaks rest
  | [] => []

/-- Characters that Yaml text may hold at all. -/
def isPermitted (c : Char) : Bool :=
  c = '\t' || c = '\n' || (' ' ≤ c && c ≤ '~') || ('\u00a0' ≤ c && c ≠ '\ufffe' && c ≠ '\uffff')

/-- Gives every character its column, from that of the first one on. -/
def place (column : Nat) : List Char → List Glyph
  | [] => []
  | c :: rest => ⟨c, column⟩ :: place (if isBreak c then 0 else column + 1) rest

/-- A byte order mark at the very start counts as a blank. -/
def withoutMark : List Char → List Char
  | '\ufeff' :: rest => ' ' :: rest
  | cs => cs

def glyphs? (text : String) : Option (List Glyph) :=
  let cs := unifyBreaks text.toList
  if cs.all isPermitted then some (place 0 (withoutMark cs)) else none

/-- Whether white space or the end of the text comes next. -/
def atSpace : List Glyph → Bool
  | [] => true
  | g :: _ => isBlank g.char || isBreak g.char

/-- Whether a line begins here that ends a document or starts the next one. -/
def atMarker : List Glyph → Bool
  | ⟨a, 0⟩ :: ⟨b, _⟩ :: ⟨c, _⟩ :: rest => (a = '-' || a = '.') && a = b && b = c && atSpace rest
  | _ => false

/-- Whether an item of a block list begins here. -/
def atDash : List Glyph → Bool
  | ⟨'-', _⟩ :: rest => atSpace rest
  | _ => false

/-- The column of what comes next in the document, if anything does. -/
def column? (gs : List Glyph) : Option Nat := if atMarker gs then none else gs.head?.map Glyph.column

def dropBlanks (gs : List Glyph) : List Glyph := gs.dropWhile fun g => isBlank g.char

def dropLine (gs : List Glyph) : List Glyph := gs.dropWhile fun g => !isBreak g.char

/-- The end of the line, if nothing but blanks and a comment stands before it. -/
def restOfLine? (gs : List Glyph) : Option (List Glyph) :=
  match dropBlanks gs with
  | [] => some []
  | g :: rest => if isBreak g.char then some (g :: rest) else if g.char = '#' then some (dropLine rest) else none

/-- Skips spaces, line breaks and comments, and tabs as well where they may separate. -/
def skipSpace (tabs comment : Bool) : List Glyph → List Glyph
  | [] => []
  | g :: rest =>
    if isBreak g.char then skipSpace tabs false rest
    else if comment || g.char = ' ' || (tabs && g.char = '\t') then skipSpace tabs comment rest
    else if g.char = '#' then skipSpace tabs true rest
    else g :: rest

/-- Skips to the next part of a block, where tabs do not indent. -/
def skipLines (gs : List Glyph) : List Glyph := skipSpace false false gs

/-- Skips to the next part of a flow collection. -/
def skipFlow (gs : List Glyph) : List Glyph := skipSpace true false gs

end Workflow.Yaml
