import Resumable.Binary64.Basic
import Resumable.Hash.Words

/-!
# Hash of numbers

Numbers hash to their value modulo the Mersenne prime `2 ^ 61 - 1`, with the sign of the number.
Division by two is multiplication by `2 ^ 60` modulo that prime, so this makes sense for binary
fractions too, and equal numbers have equal hashes whatever their type.

The fraction is read from the left in chunks of 28 bits: each step rotates the accumulator by 28
bits within 61 and adds the next chunk. A significand has 53 bits, so two steps take all of it.
-/

namespace Resumable.Hash

def modulus : Nat := 0x1FFFFFFFFFFFFFFF

def signedOfInt (n : Int) : Int :=
  let r : Int := (n.natAbs % modulus : Nat)
  avoidReserved (if n < 0 then -r else r)

def ofInt (n : Int) : UInt64 := word (signedOfInt n)

namespace Fraction

/-- A fraction `rest / 2 ^ width` still to be read, and the accumulator. -/
structure State where
  width : Nat
  rest : Nat
  acc : UInt64
  exponent : Int
  deriving DecidableEq

def mask : UInt64 := 0x1FFFFFFFFFFFFFFF

def State.step (s : State) : State :=
  let rotated := ((s.acc <<< 28) &&& mask) ||| (s.acc >>> 33)
  let chunk := s.rest <<< 28 >>> s.width
  let sum := rotated + UInt64.ofNat chunk
  { s with
    rest := s.rest <<< 28 % (1 <<< s.width)
    acc := if sum ≥ mask then sum - mask else sum
    exponent := s.exponent - 28 }

def State.read : Nat → State → State
  | 0, s => s
  | n + 1, s => if s.rest = 0 then s else s.step.read n

/-- Multiplies by two to the exponent left over. -/
def State.result (s : State) : UInt64 :=
  let e := (s.exponent % 61).toNat.toUInt64
  ((s.acc <<< e) &&& mask) ||| (s.acc >>> (61 - e))

def State.ofScaled (m : Nat) (e : Int) : State :=
  let length := m.log2 + 1
  { width := 53, rest := m <<< (53 - length), acc := 0, exponent := e + length }

end Fraction

def signedOfScaled (negative : Bool) (m : Nat) (e : Int) : Int :=
  let r : Int := (((Fraction.State.ofScaled m e).read 2).result.toNat : Nat)
  avoidReserved (Int.tmod (if negative then -r else r) modulus)

/-- Integers up to `2 ^ 63` are hashed as the nearest 64-bit integer, all else by chunks. -/
def signedOfBinary64 (x : Binary64) : Int :=
  match x.view with
  | .nan => 0
  | .infinite negative => if negative then -314159 else 314159
  | .finite negative m e =>
    match x.integer? with
    | some n =>
      if Int64.minValue.toInt ≤ n ∧ n ≤ Int64.maxValue.toInt + 1 then
        signedOfInt (min n Int64.maxValue.toInt)
      else signedOfScaled negative m e
    | none => signedOfScaled negative m e

def ofBinary64 (x : Binary64) : UInt64 := word (signedOfBinary64 x)

end Resumable.Hash
