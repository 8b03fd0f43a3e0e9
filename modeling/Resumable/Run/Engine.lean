import Resumable.Run.Program
import Resumable.Value.Call
import Resumable.Value.Equality
import Resumable.Value.Hash

/-!
# Engines

An engine answers the requests of one level of a run. The programs that it starts make requests of
their own, which the level below answers; `ask` stands for that level.
-/

namespace Resumable

structure Engine (σ : Type) where
  host : Host σ
  /-- Answers a request that is made in a context, one level down. -/
  ask : {α : Type} → Ref .context → Request σ α → Exec σ α

namespace Engine

variable {σ : Type} (e : Engine σ)

def perform {α : Type} (c : Ref .context) (p : Prog σ α) : Exec σ α := p.run e.ask c

/-- Runs a hook, which is outside of any body. -/
def performHook {α : Type} (c : Ref .context) (p : Prog σ α) : Exec σ α := do
  modify (·.push .hook)
  let a ← e.perform c p
  modify (·.pop)
  return a

def hooks (c : Ref .context) : Hooks (Exec σ) where
  hash layer i := e.performHook c (e.host.hash layer i)
  compare layer i other := e.performHook c (e.host.compare layer i other)
  construct layer cls args := e.performHook c (e.host.construct layer cls args)
  newExc := Exec.newExc
  newText := Exec.newText
  newIdentity := Exec.newIdentity

def hash (c : Ref .context) (v : Value) : Exec σ (Except Failure UInt64) := (v.hash (e.hooks c)).run

def equals (c : Ref .context) (a b : Value) : Exec σ (Except Failure Bool) :=
  (a.equals (e.hooks c) b).run

def call (c : Ref .context) (f : Value) (args : List Value) : Exec σ (Except Failure Value) :=
  (f.call (e.hooks c) args).run

end Engine

end Resumable
