import Resumable.Failure

/-!
# Hooks

Classes are declared with hooks: programs that hash an instance, compare it, or make one. `Hooks`
is what a computation needs in order to run them, and to make the exceptions it fails with.
-/

namespace Resumable

structure Hooks (m : Type → Type) where
  hash : Layer → Instance → m (Except Failure UInt64)
  /-- Runs the equality hook that a layer declares, the instance on the left. -/
  compare : Layer → Instance → Value → m (Except Failure Bool)
  construct : Layer → Class → List Value → m (Except Failure Value)
  newExc : ExcType → Option Class → List Value → m Exc
  newText : String → m TextRef
  newIdentity : m Identity

namespace Hooks

variable {m : Type → Type} [Monad m]

def newMessage (h : Hooks m) (type : ExcType) (message : String) : m Exc := do
  let text ← h.newText message
  h.newExc type none [.text text]

/-- The failure that a fault leads to, with an exception made for it. -/
def fault (h : Hooks m) (f : Fault) : m Failure := do
  return f.failure (← h.newMessage f.type f.message)

def fail {α : Type} (h : Hooks m) (f : Fault) : ExceptT Failure m α :=
  ExceptT.mk do return .error (← h.fault f)

end Hooks

end Resumable
