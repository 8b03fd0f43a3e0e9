import Resumable.Hash.Words

/-!
# References

Mutable objects live in stores and are reached through references, one type of reference for each
kind of object. Immutable objects with an identity carry a number of their own instead. `address`
spreads all of them over distinct addresses, which is what their identity hashes are made of.
-/

namespace Resumable

inductive ObjectKind where
  | cell
  | frame
  | exception
  | generator
  | context
  | dictionary
  deriving DecidableEq

structure Ref (kind : ObjectKind) where
  index : Nat
  deriving DecidableEq, Inhabited

abbrev Identity := Nat

namespace Address

/-- Addresses of objects are sixteen bytes apart. -/
def place (row column : Nat) : Nat := 0x7f0000000000 + 16 * (8 * row + column)

def column : ObjectKind → Nat
  | .cell => 1
  | .frame => 2
  | .exception => 3
  | .generator => 4
  | .context => 5
  | .dictionary => 6

def ofIdentity (id : Identity) : Nat := place id 0

def ofRef {kind : ObjectKind} (r : Ref kind) : Nat := place r.index (column kind)

/-- The hash of an object by its identity. The low bits of an address are all zero, so they are
rotated to the top. -/
def hash (address : Nat) : UInt64 := Hash.rotateRight (UInt64.ofNat address) 4

end Address

end Resumable
