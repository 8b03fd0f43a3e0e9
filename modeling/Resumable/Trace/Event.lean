/-!
# Trace events

What a trace of a run is made of. Events name generators by their qualified names.
-/

namespace Resumable

inductive ResumeKind where
  | next
  | send
  | throw
  | close
  deriving DecidableEq

def ResumeKind.all : List ResumeKind := [.next, .send, .throw, .close]

def ResumeKind.name : ResumeKind → String
  | next => "next"
  | send => "send"
  | throw => "throw"
  | close => "close"

def ResumeKind.ofName? (text : String) : Option ResumeKind := all.find? (·.name == text)

inductive FinishReason where
  | returned
  | raised
  /-- The generator was finished without its body coming to an end. -/
  | closed
  deriving DecidableEq

def FinishReason.all : List FinishReason := [.returned, .raised, .closed]

def FinishReason.name : FinishReason → String
  | returned => "returned"
  | raised => "raised"
  | closed => "closed"

def FinishReason.ofName? (text : String) : Option FinishReason := all.find? (·.name == text)

inductive TraceEvent where
  /-- A body is entered, inside `depth - 1` other resumptions. -/
  | resume (name : String) (kind : ResumeKind) (depth : Nat)
  /-- A body suspended at the offset, or a value was passed on while it is suspended there. -/
  | yield (name : String) (offset : Int)
  | finish (name : String) (reason : FinishReason)
  | lookup (cached : Bool)
  deriving DecidableEq

end Resumable
