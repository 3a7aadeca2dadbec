import Workflow.Json.Basic
import Workflow.Decimal.Literal

/-! What a plain scalar of Yaml stands for: null, a truth value, a number, or else its own text. -/

namespace Workflow.Yaml.Literal

def isNull (text : String) : Bool := ["", "~", "null", "Null", "NULL"].contains text

def bool? (text : String) : Option Bool :=
  if ["true", "True", "TRUE"].contains text then some true
  else if ["false", "False", "FALSE"].contains text then some false
  else none

/-- Digits that begin with a zero for no use; they are a text. -/
def isPadded : List Char → Bool
  | '0' :: c :: rest => (c :: rest).all Char.isDigit
  | _ => false

/-- A whole number without its sign, perhaps in a base other than ten. -/
def magnitude? (cs : List Char) : Option Nat :=
  match cs with
  | '0' :: 'x' :: ds => Text.numeral? 16 ds
  | '0' :: 'o' :: ds => Text.numeral? 8 ds
  | '0' :: 'b' :: ds => Text.numeral? 2 ds
  | ds => if isPadded ds then none else Text.numeral? 10 ds

/-- Cuts off a sign; whether it is a minus comes first. -/
def splitSign : List Char → Bool × List Char
  | '-' :: rest => (true, rest)
  | '+' :: rest => (false, rest)
  | cs => (false, cs)

def integer? (cs : List Char) : Option Int :=
  let (negative, ds) := splitSign cs
  (magnitude? ds).map fun n => if negative then -(n : Int) else n

/-- A decimal with at least one digit before or after its point, then perhaps an exponent. -/
def decimal? (cs : List Char) : Option (Nat × Int) := do
  let (whole, rest) := Text.splitDigits cs
  let (fraction, rest) :=
    match rest with
    | '.' :: rest => Text.splitDigits rest
    | rest => ([], rest)
  if whole.isEmpty && fraction.isEmpty then none
  else
    match ← Binary64.readOptionalExponent rest with
    | (exponent, []) => some (Text.digitsValue (whole ++ fraction), exponent - fraction.length)
    | _ => none

/-- The pattern of a finite number. -/
def float? (cs : List Char) : Option UInt64 := do
  let (negative, ds) := splitSign cs
  if isPadded ds then none
  else
    let (digits, exponent) ← decimal? ds
    let bits ← Binary64.nearest digits exponent
    some (if negative then Binary64.negate bits else bits)

/-- Infinities and the undefined number, which Json cannot hold. -/
def isUnbounded (text : String) : Bool :=
  [".inf", ".Inf", ".INF", "+.inf", "+.Inf", "+.INF", "-.inf", "-.Inf", "-.INF", ".nan", ".NaN", ".NAN"].contains text

def fitsWord (n : Int) : Bool := -(Nat.pow 2 63 : Int) ≤ n && n ≤ (Text.wordMax : Int)

def fitsTwoWords (n : Int) : Bool := -(Nat.pow 2 127 : Int) ≤ n && n < (Nat.pow 2 128 : Int)

def floatOrText (text : String) : Json :=
  match float? text.toList with
  | some bits => .float bits
  | none => if isUnbounded text then .null else .str text

/-- The value of a plain scalar. An integer beyond one machine word is refused as long as it fits two words; beyond
that it is taken as a float. -/
def value? (text : String) : Option Json :=
  if isNull text then some .null
  else
    match bool? text, integer? text.toList with
    | some b, _ => some (.bool b)
    | none, some n =>
      if fitsWord n then some (.int n) else if fitsTwoWords n then none else some (floatOrText text)
    | none, none => some (floatOrText text)

end Workflow.Yaml.Literal
