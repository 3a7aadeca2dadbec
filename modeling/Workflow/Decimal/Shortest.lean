import Workflow.Decimal.Binary64

/-! The shortest decimal that reads back as a given floating point number, and its text. Among decimals of
the least number of digits the one nearest to the number is taken, and of two equally near ones the even. -/

namespace Workflow.Binary64

/-- The decimal `digits · 10 ^ exponent`. -/
structure Decimal where
  digits : Nat
  exponent : Int
  deriving DecidableEq, Repr

def Ratio.le (a b : Ratio) : Bool := a.num * b.den ≤ b.num * a.den

def Ratio.lt (a b : Ratio) : Bool := a.num * b.den < b.num * a.den

/-- The lower end of the ratios that round to a pattern. Below a power of two the grid is twice as fine. -/
def lowerEnd (bits : UInt64) : Ratio :=
  let m := significand bits
  if fractionField bits = 0 ∧ 1 < exponentField bits then .scaled (4 * m - 1) 2 (scale bits - 2)
  else .scaled (2 * m - 1) 2 (scale bits - 1)

def upperEnd (bits : UInt64) : Ratio := .scaled (2 * significand bits + 1) 2 (scale bits - 1)

/-- Whether a ratio rounds to the pattern: the ends belong to the even patterns. -/
def roundsTo (bits : UInt64) (r : Ratio) : Bool :=
  if significand bits % 2 = 0 then (lowerEnd bits).le r && r.le (upperEnd bits)
  else (lowerEnd bits).lt r && r.lt (upperEnd bits)

def digitCount (n : Nat) : Nat := (Nat.toDigits 10 n).length

/-- The place of the leading decimal digit of a positive magnitude: `10 ^ p ≤ r < 10 ^ (p + 1)`. -/
def leadingPlace (r : Ratio) : Int := (digitCount (r.num * Nat.pow 10 400 / r.den) : Int) - 401

/-- The best decimal whose last digit has the place `e`, if one rounds to the pattern. -/
def onGrid? (bits : UInt64) (e : Int) : Option Decimal :=
  let cell := Ratio.div (toRatio bits) (.scaled 1 10 e)
  let below := cell.num / cell.den
  let lowFits := roundsTo bits (.scaled below 10 e)
  let highFits := roundsTo bits (.scaled (below + 1) 10 e)
  if lowFits && highFits then some ⟨roundDiv cell.num cell.den, e⟩
  else if lowFits then some ⟨below, e⟩
  else if highFits then some ⟨below + 1, e⟩
  else none

/-- The shortest decimal of a positive magnitude. Seventeen digits always suffice. -/
def shortest (bits : UInt64) : Decimal :=
  let place := leadingPlace (toRatio bits)
  ((List.range 17).findSome? fun (n : Nat) => onGrid? bits (place - n)).getD ⟨0, 0⟩

/-- A decimal as its digits without trailing zeros and the place of the first of them. -/
def Decimal.parts (d : Decimal) : List Char × Int :=
  let written := Nat.toDigits 10 d.digits
  let place := d.exponent + written.length - 1
  ((written.reverse.dropWhile (· == '0')).reverse, place)

/-- From `0.00001` up to below `10 ^ 16` a number is written out with a fraction, and otherwise with an
exponent that always shows its sign. -/
def Decimal.chars (d : Decimal) : List Char :=
  let (ds, place) := d.parts
  if 0 ≤ place ∧ place < 16 then
    let whole := place.toNat + 1
    let fraction := ds.drop whole
    ds.take whole ++ List.replicate (whole - ds.length) '0' ++ '.' ::
      (if fraction.isEmpty then ['0'] else fraction)
  else if -5 ≤ place ∧ place < 0 then
    '0' :: '.' :: List.replicate (-place - 1).toNat '0' ++ ds
  else
    let fraction := ds.drop 1
    ds.take 1 ++ (if fraction.isEmpty then [] else '.' :: fraction) ++
      'e' :: (if place < 0 then '-' else '+') :: Nat.toDigits 10 place.natAbs

def chars (bits : UInt64) : List Char :=
  let sign := if isNegative bits then ['-'] else []
  if significand bits = 0 then sign ++ ['0', '.', '0'] else sign ++ (shortest bits).chars

end Workflow.Binary64
