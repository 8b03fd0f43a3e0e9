import Resumable.Hash.Words

/-!
# Hash of a sequence

The hashes of the elements are mixed in order into one word, and the number of elements is mixed
in last.
-/

namespace Resumable.Hash.Tuple

def seed : UInt64 := 2870177450012600261

def mix (acc item : UInt64) : UInt64 :=
  rotateLeft (acc + item * 14029467366897019727) 31 * 11400714785074694791

def finish (count acc : UInt64) : UInt64 :=
  let w := acc + (count ^^^ (seed ^^^ 3527539))
  if w = reserved then 1546275796 else w

end Tuple

def ofItems (items : List UInt64) : UInt64 :=
  Tuple.finish (UInt64.ofNat items.length) (items.foldl Tuple.mix Tuple.seed)

end Resumable.Hash
