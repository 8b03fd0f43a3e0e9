import Resumable.Heap.Store
import Resumable.Value.Basic

/-!
# Cells and frames

A cell holds a variable that is shared between frames, and a frame holds the slots of one call.
A slot that holds a cell stands for the variable in the cell: `load` and `store` go through it,
`loadRaw` and `storeRaw` do not. Nothing is read from an unbound slot or an empty cell.
-/

namespace Resumable

structure Frame where
  layout : FrameLayout
  slots : Array Value
  deriving Inhabited

namespace Frame

def ofLayout (layout : FrameLayout) : Frame := ⟨layout, Array.replicate layout.size .unbound⟩

def slot (f : Frame) (index : Nat) : Value := f.slots.getD index .unbound

def setSlot (f : Frame) (index : Nat) (v : Value) : Frame :=
  { f with slots := f.slots.setIfInBounds index v }

end Frame

structure Memory where
  cells : Store .cell (Option Value)
  frames : Store .frame Frame
  deriving Inhabited

namespace Memory

def empty : Memory := ⟨.empty, .empty⟩

-- ---------------------------------------------------------------------------
-- Cells
-- ---------------------------------------------------------------------------

def cell (m : Memory) (r : Ref .cell) : Option Value := m.cells.get r

def setCell (m : Memory) (r : Ref .cell) (v : Option Value) : Memory :=
  { m with cells := m.cells.set r v }

-- ---------------------------------------------------------------------------
-- Frames
-- ---------------------------------------------------------------------------

def frame (m : Memory) (f : Ref .frame) : Frame := m.frames.get f

def layout (m : Memory) (f : Ref .frame) : FrameLayout := (m.frame f).layout

def loadRaw (m : Memory) (f : Ref .frame) (index : Nat) : Value := (m.frame f).slot index

/-- The variable that a slot stands for. -/
def load (m : Memory) (f : Ref .frame) (index : Nat) : Option Value :=
  match m.loadRaw f index with
  | .unbound => none
  | .cell r => m.cell r
  | v => some v

def loadName (m : Memory) (f : Ref .frame) (name : String) : Option Value :=
  ((m.layout f).find? name).bind (m.load f)

def storeRaw (m : Memory) (f : Ref .frame) (index : Nat) (v : Value) : Memory :=
  { m with frames := m.frames.modify f (·.setSlot index v) }

def store (m : Memory) (f : Ref .frame) (index : Nat) (v : Value) : Memory :=
  match m.loadRaw f index with
  | .cell r => m.setCell r (some v)
  | _ => m.storeRaw f index v

/-- Unbinds the variable that a slot stands for. A cell stays in its slot. -/
def clear (m : Memory) (f : Ref .frame) (index : Nat) : Memory :=
  match m.loadRaw f index with
  | .cell r => m.setCell r none
  | _ => m.storeRaw f index .unbound

def visible? (m : Memory) (f : Ref .frame) (index : Nat) : Option Value :=
  if ((m.layout f).visible? index).isSome then m.load f index else none

def bindings (m : Memory) (f : Ref .frame) : List (TextRef × Value) :=
  (m.layout f).visibleSlots.filterMap fun (index, name) => (m.load f index).map (name, ·)

end Memory

end Resumable
