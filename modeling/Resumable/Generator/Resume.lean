import Resumable.Run.Engine

/-!
# Resuming generators

A resumption is refused where the generator is running, finished, or not started and sent a value,
and where the limits refuse it; a refusal leaves the generator as it is. Otherwise it goes one
level in. There it runs the body, or, while the generator delegates, passes the resumption on to
the delegate and runs the body once the delegate has stopped, with what stopped it.
-/

namespace Resumable.Engine

variable {σ : Type} (e : Engine σ)

def failed (f : Fault) : Exec σ Outcome := return .failed (← Exec.fault f)

-- ---------------------------------------------------------------------------
-- Body
-- ---------------------------------------------------------------------------

/-- Prepares an exception that leaves a body: links it to what the resumer was handling unless it
was thrown in by this very resumption, adds the place of the body to its traceback, and replaces
the end of an iteration by an error. -/
def escape (c : Ref .context) (g : Ref .generator) (thrown : Option Exc) :
    Failure → Exec σ Failure
  | .raised r => do
    unless thrown.any (·.same r.exc) do Exec.chainCaller c r.exc
    Exec.pushTraceback r.exc ((← get).generator g).exitSnapshot
    if r.exc.isCaughtBy .stopIteration then
      let message ← Exec.newText Fault.escapedStop.message
      let wrapper ← Exec.newExc Fault.escapedStop.type none [.text message]
      modify fun w => w.modifyLinks wrapper fun _ =>
        { traceback := (w.linksOf r.exc).traceback, context := some r.exc, cause := some r.exc }
      return .raised { r with exc := wrapper }
    else return .raised r
  | f => return f

def endActivity (g : Ref .generator) (f : Generator → Generator) : Exec σ Unit :=
  modify fun w => (w.setActivity .between).modifyGenerator g f

/-- The result of a body, which may not end without a failure unless it took the exception that was
thrown in. -/
def heeded : Except Failure BodyResult → Exec σ (Except Failure BodyResult)
  | .ok r => do
    if (← get).activation?.any (·.hasPendingThrow) then
      return .error (.internal "call target ignored a thrown exception")
    else return .ok r
  | .error f => return .error f

def conclude (c : Ref .context) (g : Ref .generator) (name : String) (thrown : Option Exc)
    (result : Except Failure BodyResult) : Exec σ Outcome := do
  Exec.record (.left g result)
  match result with
  | .ok (.yields s) =>
    endActivity g (·.suspend s)
    Exec.emit c g (.yield name s.resumeAt)
    return .yielded s.value
  | .ok (.returns v) =>
    endActivity g (·.finish)
    Exec.emit c g (.finish name .returned)
    return .returned v
  | .error f =>
    modify fun w => w.modifyGenerator g (·.finish)
    let f ← escape c g thrown f
    endActivity g id
    Exec.emit c g (.finish name .raised)
    return .failed f

def runBody (c : Ref .context) (g : Ref .generator) (payload : Option Payload)
    (kind : ResumeKind) : Exec σ Outcome := do
  let before := (← get).generator g
  let name := before.qualifiedName
  modify fun w => (w.modifyGenerator g ({ · with state := .running })).setActivity
    (.running ⟨before.template.forResumption payload, before.offset⟩)
  Exec.record (.entered g payload)
  Exec.emit c g (.resume name kind ((← get).context c).depth)
  let result ← heeded (← e.perform c (e.host.body before.target))
  conclude c g name (payload.bind (·.thrown?)) result

-- ---------------------------------------------------------------------------
-- Delegation
-- ---------------------------------------------------------------------------

def whileForwarding {α : Type} (g sub : Ref .generator) (x : Exec σ α) : Exec σ α := do
  modify fun w => (w.modifyGenerator g ({ · with state := .running })).setActivity .forwarding
  Exec.record (.forwarded g sub)
  let a ← x
  modify fun w => (w.modifyGenerator g ({ · with state := .suspended })).setActivity .between
  return a

def result : Outcome → Exec σ (Except Failure Value)
  | .yielded v => return .ok v
  | .returned v => return .error (.ofExc (← Exec.stopIteration v))
  | .failed f => return .error f

def resumeDelegate (c : Ref .context) (g sub : Ref .generator) (p : Payload) :
    Exec σ (Except Failure Value) := do
  let answer ← whileForwarding g sub do
    let outcome ← e.ask c (.resume sub (some p))
    result outcome
  Exec.record (.answered g sub answer)
  return answer

def closeDelegate (c : Ref .context) (g sub : Ref .generator) (exit : Exc) (hostTrace : Bool) :
    Exec σ (Except Failure Unit) := do
  let answer ← whileForwarding g sub (e.ask c (.close sub))
  Exec.record (.exited g sub exit hostTrace answer)
  return answer

def dropDelegate (g : Ref .generator) : Exec σ Unit :=
  modify fun w => w.modifyGenerator g ({ · with delegate := none })

/-- Goes on after the delegate answered. A value is passed on. The end of the delegate's iteration
gives its value to the body, another exception is thrown into it, and failures that bodies may
not catch are not delivered. -/
def settle (c : Ref .context) (g : Ref .generator) : Except Failure Value → Exec σ Outcome
  | .ok v => do
    let outer := (← get).generator g
    Exec.emit c g (.yield outer.qualifiedName outer.offset)
    return .yielded v
  | .error f => do
    dropDelegate g
    match f.stopValue?, f with
    | some v, _ => e.runBody c g (some (.send v)) .send
    | none, .raised r => e.runBody c g (some (.throw r.exc false)) .throw
    | none, f => return .failed f

def forward (c : Ref .context) (g sub : Ref .generator) (v : Value) : Exec σ Outcome := do
  let answer ← e.resumeDelegate c g sub (.send v)
  e.settle c g answer

/-- Passes a thrown exception on to the delegate. One that asks the generator to exit closes the
delegate and is then thrown into the body, or in its place what the closing raised. -/
def forwardThrow (c : Ref .context) (g sub : Ref .generator) (exc : Exc) (hostTrace : Bool)
    (kind : ResumeKind) : Exec σ Outcome := do
  if exc.isCaughtBy .generatorExit then
    let closed ← e.closeDelegate c g sub exc hostTrace
    dropDelegate g
    match closed with
    | .ok () => e.runBody c g (some (.throw exc hostTrace)) kind
    | .error (.raised r) => e.runBody c g (some (.throw r.exc hostTrace)) kind
    | .error f => return .failed f
  else
    let answer ← e.resumeDelegate c g sub (.throw exc hostTrace)
    e.settle c g answer

-- ---------------------------------------------------------------------------
-- Resumption
-- ---------------------------------------------------------------------------

def advance (c : Ref .context) (g : Ref .generator) (sent : Option Value) : Exec σ Outcome := do
  let gen := (← get).generator g
  match gen.state with
  | .running => failed .alreadyExecuting
  | .finished => return .failed (.ofExc (← Exec.stopIteration .none))
  | state =>
    if state = .created ∧ sent.any (!·.isNone) then failed .sendToUnstarted
    else
      match ← Exec.enter c g with
      | .error f => return .failed f
      | .ok () =>
        let outcome ← match gen.delegate with
          | some sub => e.forward c g sub (sent.getD .none)
          | none => e.runBody c g (sent.map .send) (if sent.isSome then .send else .next)
        Exec.leave c
        return outcome

def finishAside (c : Ref .context) (g : Ref .generator) : Exec σ Unit := do
  let gen := (← get).generator g
  unless gen.state = .finished do
    modify fun w => w.modifyGenerator g ({ · with state := .finished })
    Exec.emit c g (.finish gen.qualifiedName .closed)

/-- Throws into a generator with no body to run: it is finished, and the exception goes straight
to the caller, with the first line of the generator in its traceback. -/
def throwAside (c : Ref .context) (g : Ref .generator) (exc : Exc) (hostTrace : Bool) :
    Exec σ Failure := do
  finishAside c g
  Exec.pushTraceback exc ((← get).generator g).entrySnapshot
  return .raised ⟨exc, hostTrace⟩

def inject (c : Ref .context) (g : Ref .generator) (exc : Exc) (hostTrace : Bool) :
    Exec σ Outcome := do
  let gen := (← get).generator g
  match gen.state with
  | .running => failed .alreadyExecuting
  | .created | .finished => return .failed (← throwAside c g exc hostTrace)
  | .suspended =>
    match ← Exec.enter c g with
    | .error f => return .failed f
    | .ok () =>
      let outcome ← match gen.delegate with
        | some sub => e.forwardThrow c g sub exc hostTrace .throw
        | none => e.runBody c g (some (.throw exc hostTrace)) .throw
      Exec.leave c
      return outcome

def resume (c : Ref .context) (g : Ref .generator) : Option Payload → Exec σ Outcome
  | none => e.advance c g none
  | some (.send v) => e.advance c g (some v)
  | some (.throw exc hostTrace) => e.inject c g exc hostTrace

end Resumable.Engine
