import Workflow.Decimal.Binary64
import Workflow.Text.Basic

/-! Floating point literals. Two readings are offered: `nearest` rounds the written decimal once; `scaled`
first rounds the significand and then scales it by a rounded power of ten, so its last bit can differ. -/

namespace Workflow.Binary64

/-- The exponent of a literal after its letter. -/
def readExponent (cs : List Char) : Option (Int × List Char) :=
  match cs with
  | '-' :: rest => (Text.readDigits rest).map fun (ds, rest) => (-(Text.digitsValue ds : Int), rest)
  | '+' :: rest | rest => (Text.readDigits rest).map fun (ds, rest) => ((Text.digitsValue ds : Int), rest)

def readOptionalExponent (cs : List Char) : Option (Int × List Char) :=
  match cs with
  | 'e' :: rest | 'E' :: rest => readExponent rest
  | rest => some (0, rest)

/-- Reads digits into a word as long as it does not overflow; the number of digits taken comes second. -/
def takeDigits (word : Nat) : List Char → Nat × Nat
  | [] => (word, 0)
  | c :: rest =>
    let next := word * 10 + (c.toNat - '0'.toNat)
    if next ≤ Text.wordMax then
      let (last, count) := takeDigits next rest
      (last, count + 1)
    else (word, 0)

/-- The significand of a literal cut to one word, and the power of ten that the cut leaves. Whole digits that no
longer fit only raise the exponent; from the first fraction digit that does not fit on, all are dropped. -/
def cutSignificand (whole fraction : List Char) : Nat × Int :=
  let (word, taken) := takeDigits 0 whole
  let (word', taken') := takeDigits word fraction
  (word', (whole.length - taken : Nat) - (taken' : Int))

/-- `significand · 10 ^ exponent` in steps that each round; nothing on overflow. A power beyond `10 ^ 308` does not
exist as a factor, so smaller numbers are divided twice and soon vanish. -/
def scaled (significand : Nat) (exponent : Int) : Option UInt64 := do
  let start ← ofRatio ⟨significand, 1⟩
  let power (k : Nat) : Option Ratio := toRatio <$> ofRatio ⟨Nat.pow 10 k, 1⟩
  if significand = 0 then some 0
  else if 308 < exponent then none
  else if 0 ≤ exponent then ofRatio ((toRatio start).mul (← power exponent.toNat))
  else if -308 ≤ exponent then ofRatio ((toRatio start).div (← power (-exponent).toNat))
  else if -616 ≤ exponent then do
    let once ← ofRatio ((toRatio start).div (← power 308))
    ofRatio ((toRatio once).div (← power (-exponent - 308).toNat))
  else some 0

/-- `digits · 10 ^ exponent` rounded once; nothing on overflow. Exponents far outside the range of the format are
settled without computing the power. -/
def nearest (digits : Nat) (exponent : Int) : Option UInt64 :=
  if digits = 0 then some 0
  else if 400 < exponent then none
  else if 3 * exponent + digits.log2 < -1100 then some 0
  else ofRatio (.scaled digits 10 exponent)

end Workflow.Binary64
