import Resumable.Failure

/-!
# Generators

A generator is a body that can be resumed, with the frame that keeps its state. Each resumption
works on a copy of the arguments, and only the copy carries what the resumption delivers.
-/

namespace Resumable

inductive GeneratorState where
  | created
  | running
  | suspended
  | finished
  deriving DecidableEq, Inhabited

namespace GeneratorState

def name : GeneratorState → String
  | created => "GEN_CREATED"
  | running => "GEN_RUNNING"
  | suspended => "GEN_SUSPENDED"
  | finished => "GEN_CLOSED"

end GeneratorState

/-- An entry point of a body: which program of the host it is, and the code it was compiled
from. -/
structure Target where
  program : Nat
  code : Code
  deriving DecidableEq, Inhabited

inductive Payload where
  | send (v : Value)
  | throw (e : Exc) (hostTrace : Bool)

namespace Payload

def thrown? : Payload → Option Exc
  | send _ => none
  | throw e _ => some e

end Payload

structure Arguments where
  frame : Ref .frame
  values : List Value
  payload : Option Payload
  /-- What the resumer was handling, once it has been asked for. -/
  caller : Option (Option Exc)
  deriving Inhabited

namespace Arguments

def template (frame : Ref .frame) (values : List Value) : Arguments := ⟨frame, values, none, none⟩

def forResumption (a : Arguments) (payload : Option Payload) : Arguments := { a with payload }

end Arguments

structure Activation where
  arguments : Arguments
  /-- The offset at which the body was suspended, `-1` on its first run. -/
  resumePoint : Int
  deriving Inhabited

namespace Activation

def hasPendingThrow (a : Activation) : Bool := (a.arguments.payload.bind (·.thrown?)).isSome

end Activation

structure Suspension where
  value : Value
  resumeAt : Int
  delegate : Option (Ref .generator)
  retarget : Option Target

inductive BodyResult where
  | yields (s : Suspension)
  | returns (v : Value)

inductive Outcome where
  | yielded (v : Value)
  | returned (v : Value)
  | failed (f : Failure)

structure Generator where
  state : GeneratorState
  template : Arguments
  target : Target
  code : Code
  offset : Int
  delegate : Option (Ref .generator)
  name : String
  qualifiedName : String

namespace Generator

/-- A generator that was never made counts as finished. -/
instance : Inhabited Generator :=
  ⟨{ state := .finished, template := default, target := default, code := default, offset := -1,
     delegate := none, name := "", qualifiedName := "" }⟩

def create (target : Target) (frame : Ref .frame) (args : List Value) : Generator :=
  { state := .created, template := .template frame args, target, code := target.code, offset := -1,
    delegate := none, name := target.code.name, qualifiedName := target.code.qualifiedName }

def frame (g : Generator) : Ref .frame := g.template.frame

/-- The frame at the last suspension point, unless the generator is finished. -/
def snapshot? (g : Generator) : Option Snapshot :=
  if g.state = .finished then none else some (.ofOffset g.frame g.code g.offset)

/-- The place an exception passes when it leaves the body. -/
def exitSnapshot (g : Generator) : Snapshot := .ofOffset g.frame g.code g.offset

/-- The place of an exception that is thrown in where there is no body to run. -/
def entrySnapshot (g : Generator) : Snapshot := ⟨g.frame, g.code, g.offset, g.code.firstLine⟩

def suspend (s : Suspension) (g : Generator) : Generator :=
  { g with
    state := .suspended
    offset := s.resumeAt
    delegate := s.delegate
    target := s.retarget.getD g.target }

def finish (g : Generator) : Generator := { g with state := .finished, delegate := none }

end Generator

end Resumable
