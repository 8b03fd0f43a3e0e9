import Resumable.Binary64.Basic

/-!
# Shortest decimal digits

A finite positive number is written with the fewest digits that no other number of its format is
nearer to. For one digit, two digits, … the two neighbours of the value on that decimal grid are
tried against the interval of reals that round to it, whose ends belong to it when the significand
is even. The first grid with a hit wins, of two hits the nearer one, and of two equally near ones
the larger. All of it is exact arithmetic on natural numbers.
-/

namespace Resumable.Binary64

/-- A decimal `digits * 10 ^ (point - length)`, so that the mark stands `point` digits from the
left of the digits. -/
structure Decimal where
  digits : List Char
  point : Int
  deriving DecidableEq

/-- The reals that round to a number, times four and in units of the last place, as three
numerators over one denominator. -/
structure Interval where
  low : Nat
  value : Nat
  high : Nat
  denominator : Nat
  inclusive : Bool
  deriving DecidableEq

/-- The interval of `m * 2 ^ e`. Below a power of two the neighbour is half as far away. -/
def Interval.ofScaled (m : Nat) (e : Int) : Interval :=
  let up := 1 <<< (e - 2).toNat
  { low := (4 * m - (if m = leadingBit then 1 else 2)) * up
    value := 4 * m * up
    high := (4 * m + 2) * up
    denominator := 1 <<< (2 - e).toNat
    inclusive := m % 2 = 0 }

def Interval.shift (i : Interval) (places : Int) : Interval :=
  let up := Nat.pow 10 places.toNat
  { low := i.low * up
    value := i.value * up
    high := i.high * up
    denominator := i.denominator * Nat.pow 10 (-places).toNat
    inclusive := i.inclusive }

def Interval.contains (i : Interval) (n : Nat) : Bool :=
  let n := n * i.denominator
  if i.inclusive then i.low ≤ n && n ≤ i.high else i.low < n && n < i.high

def Interval.whole? (i : Interval) : Option Nat :=
  let below := i.value / i.denominator
  let above := below + 1
  match i.contains below, i.contains above with
  | true, true =>
    if 2 * (i.value - below * i.denominator) < i.denominator then some below else some above
  | true, false => some below
  | false, true => some above
  | false, false => none

def Interval.magnitude (i : Interval) : Int :=
  let places : Nat := 330
  (Nat.toDigits 10 (i.value * Nat.pow 10 places / i.denominator)).length - (places : Int)

def Interval.shortest (i : Interval) : Decimal :=
  let magnitude := i.magnitude
  let hit := (List.range 17).findSome? fun (k : Nat) =>
    let places : Int := k + 1 - magnitude
    (i.shift places).whole?.map fun n =>
      let digits := Nat.toDigits 10 n
      (⟨digits, digits.length - places⟩ : Decimal)
  match hit with
  | some d => { d with digits := (d.digits.reverse.dropWhile (· = '0')).reverse }
  | none => ⟨[], 0⟩

end Resumable.Binary64
