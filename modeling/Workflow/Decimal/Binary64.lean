/-! Finite 64-bit floating point numbers as their bit patterns, read and written with exact arithmetic on
natural numbers. A pattern of magnitude `m · 2 ^ q` is decoded by `significand` and `scale`; an exact quotient
is encoded by `ofRatio`, which takes the nearest pattern and, halfway between two, the even one. -/

namespace Workflow.Binary64

def isNegative (bits : UInt64) : Bool := Nat.pow 2 63 ≤ bits.toNat

def exponentField (bits : UInt64) : Nat := bits.toNat / Nat.pow 2 52 % Nat.pow 2 11

def fractionField (bits : UInt64) : Nat := bits.toNat % Nat.pow 2 52

def significand (bits : UInt64) : Nat :=
  if exponentField bits = 0 then fractionField bits else Nat.pow 2 52 + fractionField bits

def scale (bits : UInt64) : Int :=
  if exponentField bits = 0 then -1074 else (exponentField bits : Int) - 1075

/-- A nonnegative rational as a pair of numerator and denominator. -/
structure Ratio where
  num : Nat
  den : Nat
  deriving DecidableEq, Repr

/-- The ratio `m · base ^ e`. -/
def Ratio.scaled (m base : Nat) (e : Int) : Ratio :=
  match e with
  | .ofNat k => ⟨m * Nat.pow base k, 1⟩
  | .negSucc k => ⟨m, Nat.pow base (k + 1)⟩

def Ratio.mul (a b : Ratio) : Ratio := ⟨a.num * b.num, a.den * b.den⟩

def Ratio.div (a b : Ratio) : Ratio := ⟨a.num * b.den, a.den * b.num⟩

/-- The magnitude of a pattern, exactly. -/
def toRatio (bits : UInt64) : Ratio := .scaled (significand bits) 2 (scale bits)

/-- The quotient rounded to a whole number, a half going to the even neighbour. -/
def roundDiv (num den : Nat) : Nat :=
  let whole := num / den
  let rest := num % den
  if 2 * rest < den then whole
  else if den < 2 * rest then whole + 1
  else whole + whole % 2

/-- The binary exponent that leaves 53 significant bits of the quotient, no lower than the subnormal grid. -/
def gridExponent (r : Ratio) : Int :=
  let guess : Int := (r.num.log2 : Int) - r.den.log2 - 53
  let shifted := Ratio.div r (.scaled 1 2 guess)
  let exact := if shifted.num / shifted.den < Nat.pow 2 53 then guess else guess + 1
  max exact (-1074)

/-- The nearest pattern of a nonnegative ratio; nothing when it lies beyond the largest finite one. -/
def ofRatio (r : Ratio) : Option UInt64 :=
  if r.num = 0 then some 0
  else
    let e := gridExponent r
    let shifted := Ratio.div r (.scaled 1 2 e)
    let m := roundDiv shifted.num shifted.den
    let pattern := (e + 1074).toNat * Nat.pow 2 52 + m
    if pattern < 2047 * Nat.pow 2 52 then some (UInt64.ofNat pattern) else none

def negate (bits : UInt64) : UInt64 := bits ^^^ (0x8000000000000000 : UInt64)

end Workflow.Binary64
