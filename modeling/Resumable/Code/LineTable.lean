/-!
# Line tables

A line table maps instruction offsets to source lines. It holds pairs of an offset and the line
from there on, sorted by offset, pairs of one offset in the order they were declared; the last of
the pairs not above an offset gives its line.
-/

namespace Resumable

/-- The number of leading elements for which `p` holds, found by halving; `p` must hold of a
leading part of the array and of nothing behind it. -/
def Array.partitionPoint {α : Type} (p : α → Bool) (xs : Array α) : Nat :=
  go xs.size 0 xs.size
where
  go : Nat → Nat → Nat → Nat
    | 0, low, _ => low
    | steps + 1, low, high =>
      if low < high then
        let middle := (low + high) / 2
        match xs[middle]? with
        | some x => if p x then go steps (middle + 1) high else go steps low middle
        | none => low
      else low

structure LineTable where
  pairs : Array (Int × Nat)
  deriving DecidableEq, Inhabited

namespace LineTable

def empty : LineTable := ⟨#[]⟩

def upTo (t : LineTable) (offset : Int) : Nat :=
  Array.partitionPoint (fun pair => pair.1 ≤ offset) t.pairs

/-- Maps the instructions from `offset` onward to `line`. -/
def declare (t : LineTable) (offset : Int) (line : Nat) : LineTable :=
  ⟨(t.pairs.toList.insertIdx (t.upTo offset) (offset, line)).toArray⟩

def line? (t : LineTable) (offset : Int) : Option Nat :=
  match t.upTo offset with
  | 0 => none
  | n + 1 => t.pairs[n]?.map Prod.snd

end LineTable

end Resumable
