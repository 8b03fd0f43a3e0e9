import Resumable.Binary64.Shortest

/-!
# Text of binary floating-point numbers

The shortest digits are laid out positionally, with at least one digit on each side of the mark,
while the leading digit stands for a power of ten from the least to below the greatest of
`layout`; beyond that a mark after the leading digit and an exponent are written.
-/

namespace Resumable.Binary64

structure Layout where
  least : Int
  bound : Int
  nan : String
  infinity : String
  exponentMark : String

def layout : Layout := ⟨-4, 16, "nan", "inf", "e"⟩

def Layout.positional (d : Decimal) : String :=
  if d.point ≤ 0 then
    "0." ++ String.ofList (List.replicate (-d.point).toNat '0' ++ d.digits)
  else
    let whole := d.point.toNat
    let left := d.digits.take whole ++ List.replicate (whole - d.digits.length) '0'
    let right := match d.digits.drop whole with
      | [] => ['0']
      | digits => digits
    String.ofList (left ++ '.' :: right)

def Layout.scientific (l : Layout) (d : Decimal) : String :=
  let significand := match d.digits with
    | [] => []
    | [c] => [c]
    | c :: rest => c :: '.' :: rest
  String.ofList significand ++ l.exponentMark ++ (d.point - 1).repr

def Layout.decimal (l : Layout) (d : Decimal) : String :=
  if l.least ≤ d.point - 1 ∧ d.point - 1 < l.bound then Layout.positional d else l.scientific d

def Layout.text (l : Layout) (x : Binary64) : String :=
  let sign (neg : Bool) := if neg then "-" else ""
  match x.view with
  | .nan => l.nan
  | .infinite neg => sign neg ++ l.infinity
  | .finite neg 0 _ => sign neg ++ "0.0"
  | .finite neg m e => sign neg ++ l.decimal (Interval.ofScaled m e).shortest

/-- The text of a number, which tells every two unequal numbers apart. -/
def text (x : Binary64) : String := layout.text x

end Resumable.Binary64
