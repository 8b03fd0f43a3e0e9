import Resumable.Code.LineTable
import Resumable.Heap.TextRef

/-!
# Code

A `Code` describes the body of a generator: its names, its source lines and the layout of the
slots of its frames. Slots whose names are texts are visible to the program, unless the name
starts with a point or an angle bracket, which marks a temporary of the compiler.
-/

namespace Resumable

inductive SlotName where
  | named (name : TextRef)
  | engine (purpose : String)
  deriving DecidableEq, Inhabited

namespace SlotName

def isTemporary (text : String) : Bool :=
  match text.toList with
  | c :: _ => c == '.' || c == '<'
  | [] => false

def visible? : SlotName → Option TextRef
  | named name => if isTemporary name.text then none else some name
  | engine _ => none

def name? : SlotName → Option TextRef
  | named name => some name
  | engine _ => none

end SlotName

/-- The names of the slots of a frame. Its identity is shared by all frames of one code. -/
structure FrameLayout where
  id : Identity
  slots : List SlotName
  deriving DecidableEq, Inhabited

namespace FrameLayout

def size (l : FrameLayout) : Nat := l.slots.length

def slot? (l : FrameLayout) (index : Nat) : Option SlotName := l.slots[index]?

def visible? (l : FrameLayout) (index : Nat) : Option TextRef := (l.slot? index).bind (·.visible?)

def find? (l : FrameLayout) (name : String) : Option Nat :=
  l.slots.findIdx? fun s => s.name?.any (·.text == name)

def findVisible? (l : FrameLayout) (name : String) : Option Nat :=
  l.slots.findIdx? fun s => s.visible?.any (·.text == name)

def visibleSlots (l : FrameLayout) : List (Nat × TextRef) :=
  l.slots.zipIdx.filterMap fun (s, index) => s.visible?.map (index, ·)

end FrameLayout

structure Code where
  name : String
  qualifiedName : String
  filename : String
  firstLine : Nat
  argumentCount : Nat
  layout : FrameLayout
  lines : LineTable
  deriving DecidableEq, Inhabited

namespace Code

def ofName (name : String) (layout : FrameLayout) : Code :=
  { name, qualifiedName := name, filename := "<unknown>", firstLine := 1, argumentCount := 0,
    layout, lines := .empty }

/-- The source line of the instruction at an offset. Offsets below all pairs of the table, such
as the `-1` of a frame that has not started, are on the first line. -/
def lineAt (c : Code) (offset : Int) : Nat := (c.lines.line? offset).getD c.firstLine

def variableNames (c : Code) : List TextRef := c.layout.slots.filterMap (·.visible?)

end Code

end Resumable
