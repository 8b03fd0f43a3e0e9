import Resumable.Heap.Memory
import Resumable.Storage.Map

/-!
# Views of the variables of a frame

A view shows the bound variables of a frame that the program sees, as entries under their names,
and follows every store to the frame. It remembers two things. The number of entries is counted
once. The slots of the first three name objects looked up are cached, under the identity of the
name object and of the layout, so that a cached answer needs no scan of the names.
-/

namespace Resumable

/-- The slot that a look-up of a name object found, if it found one. -/
structure CachedSlot where
  key : TextRef
  layout : Identity
  slot : Option Nat

structure Locals where
  frame : Ref .frame
  count : Option Nat
  cache : List CachedSlot
  deriving Inhabited

namespace Locals

def cacheLimit : Nat := 3

def ofFrame (frame : Ref .frame) : Locals := ⟨frame, none, []⟩

def copy (l : Locals) : Locals := ofFrame l.frame

def size (mem : Memory) (l : Locals) : Nat × Locals :=
  match l.count with
  | some n => (n, l)
  | none =>
    let slots := List.range (mem.layout l.frame).size
    let n := slots.countP fun index => (mem.visible? l.frame index).isSome
    (n, { l with count := some n })

def cached? (layout : FrameLayout) (l : Locals) (key : TextRef) : Option CachedSlot :=
  l.cache.find? fun c => c.key.same key && c.layout == layout.id

/-- The slot of a name, whether the cache knew it, and the view that remembers it. -/
def findSlot (layout : FrameLayout) (l : Locals) (key : TextRef) : Option Nat × Bool × Locals :=
  match l.cached? layout key with
  | some c => (c.slot, true, l)
  | none =>
    let slot := layout.findVisible? key.text
    let l := if l.cache.length < cacheLimit
      then { l with cache := l.cache ++ [⟨key, layout.id, slot⟩] }
      else l
    (slot, false, l)

def pairs (mem : Memory) (l : Locals) : List (TextRef × Value) := mem.bindings l.frame

def toMap (mem : Memory) (l : Locals) : Map :=
  (l.pairs mem).foldl (fun m (name, v) => (m.setText name v).2) .empty

-- ---------------------------------------------------------------------------
-- Keys
-- ---------------------------------------------------------------------------

/-- The slots that an enumeration of the keys from both ends has not passed. -/
structure Cursor where
  frame : Ref .frame
  front : Nat
  back : Nat

namespace Cursor

def ofLocals (mem : Memory) (l : Locals) : Cursor := ⟨l.frame, 0, (mem.layout l.frame).size⟩

def keyAt (mem : Memory) (c : Cursor) (index : Nat) : Option TextRef := do
  let name ← (mem.layout c.frame).visible? index
  let _ ← mem.load c.frame index
  return name

def nextIn (mem : Memory) : Nat → Cursor → Option TextRef × Cursor
  | 0, c => (none, c)
  | n + 1, c =>
    match c.keyAt mem c.front with
    | some key => (some key, { c with front := c.front + 1 })
    | none => nextIn mem n { c with front := c.front + 1 }

def nextBackIn (mem : Memory) : Nat → Cursor → Option TextRef × Cursor
  | 0, c => (none, c)
  | n + 1, c =>
    match c.keyAt mem (c.back - 1) with
    | some key => (some key, { c with back := c.back - 1 })
    | none => nextBackIn mem n { c with back := c.back - 1 }

def next (mem : Memory) (c : Cursor) : Option TextRef × Cursor := c.nextIn mem (c.back - c.front)

def nextBack (mem : Memory) (c : Cursor) : Option TextRef × Cursor :=
  c.nextBackIn mem (c.back - c.front)

end Cursor

end Locals

end Resumable
