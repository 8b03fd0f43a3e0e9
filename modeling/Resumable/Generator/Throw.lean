import Resumable.Generator.Resume

/-!
# Throwing by type

A program throws by naming a type, a value and a traceback. A class of exceptions is called for
the exception, with no arguments for no value, with the items of a tuple, or with the value itself,
unless the value is an instance already. What a constructor makes that is no exception is reported
by an exception thrown in its place. A running generator is refused before anything is looked at.
-/

namespace Resumable.Engine

variable {σ : Type} (e : Engine σ)

def givenTraceback : Option Value → Exec σ (Except Failure (Option Traceback))
  | none | some .none => return .ok none
  | some (.traceback t) => return .ok (some t)
  | some _ => return .error (← Exec.fault .notTraceback)

def constructionArguments : Option Value → List Value
  | none => []
  | some (.tuple _ items) => items
  | some v => [v]

/-- The exception that a call of a class made, or one that says that it made none. -/
def madeException (cls made : Value) : Exec σ Exc := do
  match made.asExc with
  | some exc => return exc
  | none =>
    let fault := Fault.notAnException (cls.repr (← get).lookup) made.typeName
    let message ← Exec.newText fault.message
    Exec.newExc fault.type none [.text message]

def prepareException (c : Ref .context) (type : Value) (value : Option Value) :
    Exec σ (Except Failure Exc) := do
  let value := value.filter (!·.isNone)
  if type.isExceptionClass then
    if let some exc := (value.bind Value.asExc).filter (·.isInstanceOf type) then return .ok exc
    match ← e.call c type (constructionArguments value) with
    | .ok made => return .ok (← madeException type made)
    | .error f => return .error f
  else
    match type.asExc, value with
    | some _, some _ => return .error (← Exec.fault .separateValue)
    | some exc, none => return .ok exc
    | none, _ => return .error (← Exec.fault (.notRaisable type.typeName))

/-- The exception to throw into a generator. What links it to another exception is forgotten. -/
def thrown (c : Ref .context) (g : Ref .generator) (type : Value) (value traceback : Option Value) :
    Exec σ (Except Failure Exc) := do
  if ((← get).generator g).state = .running then return .error (← Exec.fault .alreadyExecuting)
  match ← givenTraceback traceback with
  | .error f => return .error f
  | .ok traceback =>
    match ← e.prepareException c type value with
    | .error f => return .error f
    | .ok exc =>
      if traceback.isSome then modify fun w => w.modifyLinks exc ({ · with traceback })
      modify fun w => w.modifyLinks exc ({ · with context := none })
      return .ok exc

def throw (c : Ref .context) (g : Ref .generator) (type : Value) (value traceback : Option Value) :
    Exec σ (Except Failure Value) := do
  match ← e.thrown c g type value traceback with
  | .error f => return .error f
  | .ok exc =>
    let outcome ← e.inject c g exc ((← get).context c).options.hostTraces
    result outcome

end Resumable.Engine
