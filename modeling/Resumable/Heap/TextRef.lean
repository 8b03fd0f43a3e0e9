import Resumable.Heap.Ref

/-!
# Texts with an identity

Two texts with the same characters may be different objects. Equality compares the characters;
the identity tells the objects apart.
-/

namespace Resumable

structure TextRef where
  id : Identity
  text : String
  deriving DecidableEq, Inhabited

namespace TextRef

def same (a b : TextRef) : Bool := a.id == b.id

end TextRef

end Resumable
