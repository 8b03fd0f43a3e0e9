import Resumable.Generator.Resume

/-!
# Closing generators

Closing throws an exception that asks the body to exit. The generator is finished afterwards
whatever the body does; that it yields once more is an error, and that it exits is success.
-/

namespace Resumable.Engine

variable {σ : Type} (e : Engine σ)

def closeResult : Outcome → Exec σ (Except Failure Unit)
  | .yielded _ => return .error (← Exec.fault .ignoredExit)
  | .returned _ => return .ok ()
  | .failed f =>
    if f.isCaughtBy .generatorExit || f.isCaughtBy .stopIteration then return .ok ()
    else return .error f

def exitBody (c : Ref .context) (g : Ref .generator) : Exec σ Outcome := do
  let gen := (← get).generator g
  let exit ← Exec.newExc .generatorExit none []
  match gen.delegate with
  | some sub => e.forwardThrow c g sub exit false .close
  | none => e.runBody c g (some (.throw exit false)) .close

/-- Finishes a generator that the run of its body did not finish. -/
def finishAnyway (c : Ref .context) (g : Ref .generator) : Exec σ Unit := do
  let gen := (← get).generator g
  unless gen.state = .finished do
    modify fun w => w.modifyGenerator g (·.finish)
    Exec.emit c g (.finish gen.qualifiedName .closed)

def close (c : Ref .context) (g : Ref .generator) : Exec σ (Except Failure Unit) := do
  match ((← get).generator g).state with
  | .running => return .error (← Exec.fault .alreadyExecuting)
  | .finished => return .ok ()
  | .created =>
    finishAside c g
    return .ok ()
  | .suspended =>
    match ← Exec.enter c g with
    | .error f =>
      dropDelegate g
      finishAside c g
      return .error f
    | .ok () =>
      let outcome ← e.exitBody c g
      Exec.leave c
      finishAnyway c g
      closeResult outcome

end Resumable.Engine
