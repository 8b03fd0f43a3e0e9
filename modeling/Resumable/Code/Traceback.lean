import Resumable.Code.Basic

/-!
# Tracebacks

A traceback lists the places an exception passed through, the outermost first. Each entry is an
object of its own and keeps the position its frame was at.
-/

namespace Resumable

/-- A frame seen at one position. -/
structure Snapshot where
  frame : Ref .frame
  code : Code
  offset : Int
  line : Nat
  deriving DecidableEq, Inhabited

namespace Snapshot

def ofOffset (frame : Ref .frame) (code : Code) (offset : Int) : Snapshot :=
  ⟨frame, code, offset, code.lineAt offset⟩

end Snapshot

structure TracebackEntry where
  id : Identity
  snapshot : Snapshot
  line : Nat
  deriving DecidableEq, Inhabited

structure Traceback where
  outermost : TracebackEntry
  inner : List TracebackEntry
  deriving DecidableEq, Inhabited

namespace Traceback

def entries (t : Traceback) : List TracebackEntry := t.outermost :: t.inner

def id (t : Traceback) : Identity := t.outermost.id

def next? (t : Traceback) : Option Traceback :=
  match t.inner with
  | [] => none
  | entry :: rest => some ⟨entry, rest⟩

def depth (t : Traceback) : Nat := t.entries.length

/-- A traceback with one entry more, outside of those of `inner?`. -/
def push (entry : TracebackEntry) : Option Traceback → Traceback
  | none => ⟨entry, []⟩
  | some t => ⟨entry, t.entries⟩

def entriesOf : Option Traceback → List TracebackEntry
  | none => []
  | some t => t.entries

@[simp] theorem entries_push (entry : TracebackEntry) (t? : Option Traceback) :
    (push entry t?).entries = entry :: entriesOf t? := by
  cases t? <;> rfl

end Traceback

end Resumable
