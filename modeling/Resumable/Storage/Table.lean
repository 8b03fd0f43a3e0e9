/-!
# Hash tables

A table keeps places, each filed under a hash. It tells hashes apart by a tag of a few bits: a
search for a hash is shown every place that is filed under it, and may be shown others.
-/

namespace Resumable

structure Slot where
  hash : UInt64
  place : Nat

structure Table where
  slots : List Slot

namespace Table

def empty : Table := ⟨[]⟩

def tag (hash : UInt64) : UInt64 := hash >>> 57

/-- The places that a search for a hash is shown. -/
def shown (t : Table) (hash : UInt64) : List Nat :=
  (t.slots.filter fun slot => tag slot.hash == tag hash).map (·.place)

/-- The places that are filed under just this hash. -/
def filed (t : Table) (hash : UInt64) : List Nat :=
  (t.slots.filter (·.hash == hash)).map (·.place)

def insert (t : Table) (hash : UInt64) (place : Nat) : Table := ⟨t.slots ++ [⟨hash, place⟩]⟩

/-- Takes out a place that a search for the hash is shown. -/
def remove (t : Table) (hash : UInt64) (place : Nat) : Table :=
  ⟨t.slots.eraseP fun slot => tag slot.hash == tag hash && slot.place == place⟩

def mapPlaces (t : Table) (f : Nat → Nat) : Table :=
  ⟨t.slots.map fun slot => { slot with place := f slot.place }⟩

end Table

end Resumable
