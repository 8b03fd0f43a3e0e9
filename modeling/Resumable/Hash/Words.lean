/-!
# Hash words

A hash is a 64-bit word, read as a signed number. The word of `-1` is reserved: the hash of a
scalar that would be `-1` is `-2` instead.
-/

namespace Resumable.Hash

def word (n : Int) : UInt64 := UInt64.ofInt n

def signed (w : UInt64) : Int := w.toInt64.toInt

/-- The word that no scalar hashes to. -/
def reserved : UInt64 := 0xFFFFFFFFFFFFFFFF

def avoidReserved (n : Int) : Int := if n = -1 then -2 else n

theorem avoidReserved_ne (n : Int) : avoidReserved n ≠ -1 := by
  unfold avoidReserved
  split <;> omega

def rotateLeft (w : UInt64) (n : UInt64) : UInt64 := (w <<< n) ||| (w >>> (64 - n))

def rotateRight (w : UInt64) (n : UInt64) : UInt64 := (w >>> n) ||| (w <<< (64 - n))

end Resumable.Hash
