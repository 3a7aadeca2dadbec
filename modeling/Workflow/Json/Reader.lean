import Workflow.Json.Basic
import Workflow.Decimal.Literal

/-! Reading Json text strictly: one value, no trailing text, no comments, no unpaired surrogates, and at most 127
nested lists and objects. Every reader takes the text that is left and gives the value with what follows it. -/

namespace Workflow.Json

def isBlank (c : Char) : Bool := c = ' ' || c = '\n' || c = '\t' || c = '\r'

def skipBlank (cs : List Char) : List Char := cs.dropWhile isBlank

/-- The code unit that four hexadecimal digits stand for. -/
def hexUnit? (a b c d : Char) : Option Nat := Text.numeral? 16 [a, b, c, d]

def simpleEscape? : Char → Option Char
  | '"' => some '"'
  | '\\' => some '\\'
  | '/' => some '/'
  | 'b' => some '\x08'
  | 'f' => some '\x0c'
  | 'n' => some '\n'
  | 'r' => some '\r'
  | 't' => some '\t'
  | _ => none

/-- The scalar that a leading and a trailing surrogate stand for. -/
def joinSurrogates (high low : Nat) : Char :=
  Char.ofNat (0x10000 + (high - 0xD800) * 0x400 + (low - 0xDC00))

/-- The rest of a string after its opening quote, up to the closing one. -/
def readString : List Char → Option (List Char × List Char)
  | '"' :: rest => some ([], rest)
  | '\\' :: 'u' :: a :: b :: c :: d :: rest => do
    let unit ← hexUnit? a b c d
    if 0xDC00 ≤ unit ∧ unit < 0xE000 then none
    else if 0xD800 ≤ unit ∧ unit < 0xDC00 then
      match rest with
      | '\\' :: 'u' :: a' :: b' :: c' :: d' :: rest => do
        let low ← hexUnit? a' b' c' d'
        if 0xDC00 ≤ low ∧ low < 0xE000 then
          let (text, rest) ← readString rest
          some (joinSurrogates unit low :: text, rest)
        else none
      | _ => none
    else
      let (text, rest) ← readString rest
      some (Char.ofNat unit :: text, rest)
  | '\\' :: c :: rest => do
    let plain ← simpleEscape? c
    let (text, rest) ← readString rest
    some (plain :: text, rest)
  | c :: rest =>
    if c.toNat < 32 ∨ c = '\\' then none
    else do
      let (text, rest) ← readString rest
      some (c :: text, rest)
  | [] => none

def wholeNumber (negative : Bool) (n : Nat) : Option Json :=
  if negative then
    if n = 0 ∨ Nat.pow 2 63 < n then (Binary64.ofRatio ⟨n, 1⟩).map fun bits => .float (Binary64.negate bits)
    else some (.int (-(n : Int)))
  else some (.int n)

def floatNumber (negative : Bool) (significand : Nat) (exponent : Int) : Option Json :=
  (Binary64.scaled significand exponent).map fun bits =>
    .float (if negative then Binary64.negate bits else bits)

/-- A number after its sign. A plain integer that fits 64 bits is an integer, everything else is a float. -/
def readUnsigned (negative : Bool) (cs : List Char) : Option (Json × List Char) := do
  let (whole, rest) ← Text.readDigits cs
  if whole.head? = some '0' ∧ 1 < whole.length then none
  else
    match rest with
    | '.' :: rest =>
      let (fraction, rest) ← Text.readDigits rest
      let (exponent, rest) ← Binary64.readOptionalExponent rest
      let (word, cut) := Binary64.cutSignificand whole fraction
      (floatNumber negative word (cut + exponent)).map (·, rest)
    | 'e' :: rest | 'E' :: rest =>
      let (exponent, rest) ← Binary64.readExponent rest
      let (word, cut) := Binary64.cutSignificand whole []
      (floatNumber negative word (cut + exponent)).map (·, rest)
    | rest =>
      if Text.digitsValue whole ≤ Text.wordMax then
        (wholeNumber negative (Text.digitsValue whole)).map (·, rest)
      else
        let (word, cut) := Binary64.cutSignificand whole []
        (floatNumber negative word cut).map (·, rest)

def readNumber : List Char → Option (Json × List Char)
  | '-' :: rest => readUnsigned true rest
  | rest => readUnsigned false rest

def readScalar : List Char → Option (Json × List Char)
  | 'n' :: 'u' :: 'l' :: 'l' :: rest => some (.null, rest)
  | 't' :: 'r' :: 'u' :: 'e' :: rest => some (.bool true, rest)
  | 'f' :: 'a' :: 'l' :: 's' :: 'e' :: rest => some (.bool false, rest)
  | '"' :: rest => (readString rest).map fun (text, rest) => (.str (String.ofList text), rest)
  | rest => readNumber rest

/-- The elements of a list that is not empty, up to its closing bracket. -/
def readItems (item : List Char → Option (Json × List Char)) : Nat → List Char → Option (List Json × List Char)
  | 0, _ => none
  | fuel + 1, cs => do
    let (v, rest) ← item cs
    match skipBlank rest with
    | ',' :: rest =>
      let (vs, rest) ← readItems item fuel rest
      some (v :: vs, rest)
    | ']' :: rest => some ([v], rest)
    | _ => none

def readKey (cs : List Char) : Option (String × List Char) :=
  match skipBlank cs with
  | '"' :: rest => do
    let (key, rest) ← readString rest
    match skipBlank rest with
    | ':' :: rest => some (String.ofList key, rest)
    | _ => none
  | _ => none

/-- The members of an object that is not empty, up to its closing brace. -/
def readMembers (item : List Char → Option (Json × List Char)) :
    Nat → List Char → Option (List (String × Json) × List Char)
  | 0, _ => none
  | fuel + 1, cs => do
    let (key, rest) ← readKey cs
    let (v, rest) ← item rest
    match skipBlank rest with
    | ',' :: rest =>
      let (vs, rest) ← readMembers item fuel rest
      some ((key, v) :: vs, rest)
    | '\x7d' :: rest => some ([(key, v)], rest)
    | _ => none

/-- One value after optional blanks, with at most `depth` lists and objects inside each other. The fuel bounds the
number of elements of each of them, so the length of the whole text is enough. -/
def readValue (fuel : Nat) : Nat → List Char → Option (Json × List Char)
  | 0, cs => readScalar (skipBlank cs)
  | depth + 1, cs =>
    match skipBlank cs with
    | '[' :: rest =>
      match skipBlank rest with
      | ']' :: rest => some (.arr [], rest)
      | rest => (readItems (readValue fuel depth) fuel rest).map fun (vs, rest) => (.arr vs, rest)
    | '\x7b' :: rest =>
      match skipBlank rest with
      | '\x7d' :: rest => some (.obj [], rest)
      | rest => (readMembers (readValue fuel depth) fuel rest).map fun (vs, rest) => (.obj (Assoc.ofList vs), rest)
    | rest => readScalar rest

def maxDepth : Nat := 127

def readChars (cs : List Char) : Option Json :=
  match readValue cs.length maxDepth cs with
  | some (v, rest) => if (skipBlank rest).isEmpty then some v else none
  | none => none

/-- The value of a Json text; of repeated keys the last value counts, at the place of the first. -/
def read? (text : String) : Option Json := readChars text.toList

end Workflow.Json
