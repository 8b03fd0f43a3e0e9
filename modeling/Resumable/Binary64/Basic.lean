/-!
# Binary floating-point numbers

A `Binary64` is a 64-bit pattern: a sign, eleven bits of exponent and fifty-two of fraction.
`view` reads off what the pattern denotes. A finite number is `m * 2 ^ e` for a natural `m`, and
all comparisons with integers are made on that exact value.
-/

namespace Resumable

structure Binary64 where
  bits : UInt64
  deriving DecidableEq

namespace Binary64

inductive View where
  | nan
  | infinite (negative : Bool)
  | finite (negative : Bool) (m : Nat) (e : Int)
  deriving DecidableEq

def negative (x : Binary64) : Bool := x.bits >>> 63 = 1

def exponentField (x : Binary64) : Nat := ((x.bits >>> 52) &&& 0x7ff).toNat

def fraction (x : Binary64) : Nat := (x.bits &&& 0xFFFFFFFFFFFFF).toNat

def leadingBit : Nat := 0x10000000000000

def view (x : Binary64) : View :=
  if x.exponentField = 0x7ff then
    if x.fraction = 0 then .infinite x.negative else .nan
  else if x.exponentField = 0 then .finite x.negative x.fraction (-1074)
  else .finite x.negative (leadingBit + x.fraction) (x.exponentField - 1075)

/-- The integer `m * 2 ^ e`, if it is one. -/
def scaled? (m : Nat) (e : Int) : Option Nat :=
  if 0 ≤ e then some (m <<< e.toNat)
  else if m % (1 <<< (-e).toNat) = 0 then some (m >>> (-e).toNat)
  else none

def integer? (x : Binary64) : Option Int :=
  match x.view with
  | .finite neg m e => (scaled? m e).map fun n => if neg then -(n : Int) else n
  | _ => none

def isZero : View → Bool
  | .finite _ 0 _ => true
  | _ => false

/-- Numeric equality: a number that is not one equals nothing, and the two zeros are equal. -/
def equals (x y : Binary64) : Bool :=
  x.view != .nan && (x.bits == y.bits || (isZero x.view && isZero y.view))

/-- The integer part of `m * 2 ^ e`. -/
def wholePart (m : Nat) (e : Int) : Nat := if 0 ≤ e then m <<< e.toNat else m >>> (-e).toNat

/-- Conversion to a 64-bit integer: a fraction is cut off, what is out of range becomes the nearest
integer inside of it, and what is no number becomes zero. -/
def toInt64 (x : Binary64) : Int64 :=
  match x.view with
  | .nan => 0
  | .infinite neg => if neg then Int64.minValue else Int64.maxValue
  | .finite neg m e =>
    let n : Int := if neg then -(wholePart m e : Int) else wholePart m e
    Int64.ofInt (max Int64.minValue.toInt (min n Int64.maxValue.toInt))

/-- The number is at least `-2 ^ 63` and less than `2 ^ 63`. -/
def inInt64Range (x : Binary64) : Bool :=
  match x.view with
  | .finite neg m e =>
    -- both sides times the power of two that makes the exponent natural
    let scaled := m <<< e.toNat
    let limit := 0x8000000000000000 <<< (-e).toNat
    if neg then scaled ≤ limit else scaled < limit
  | _ => false

def isInt64 (x : Binary64) : Bool := x.integer?.isSome && x.inInt64Range

/-- Equality with a 64-bit integer. Only a number that is one is converted. -/
def equalsInt (x : Binary64) (i : Int64) : Bool := x.isInt64 && x.toInt64 == i

end Binary64

end Resumable
