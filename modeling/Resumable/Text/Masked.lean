/-!
# Masked addresses

Addresses differ between runs, so a text is compared with them hidden: every `0x` stays, and the
run of lower-case hexadecimal digits right after it is written as one question mark. An empty run
is left alone.
-/

namespace Resumable.Text.Masked

/-- Where the scan stands: outside an address, right behind `0x`, or inside its digits. -/
inductive Place where
  | outside
  | marked
  | digits
  deriving DecidableEq

def isDigit (c : Char) : Bool := ('0' ≤ c && c ≤ '9') || ('a' ≤ c && c ≤ 'f')

def scan : Place → List Char → List Char
  | _, [] => []
  | .outside, c :: rest =>
    match c, rest with
    | '0', 'x' :: rest => '0' :: 'x' :: scan .marked rest
    | c, rest => c :: scan .outside rest
  | .marked, c :: rest => if isDigit c then '?' :: scan .digits rest else c :: scan .outside rest
  | .digits, c :: rest => if isDigit c then scan .digits rest else c :: scan .outside rest

end Masked

def masked (text : String) : String := String.ofList (Masked.scan .outside text.toList)

def address (n : Nat) : String := "0x" ++ String.ofList (Nat.toDigits 16 n)

end Resumable.Text
