import Resumable.Context
import Resumable.Heap.Links
import Resumable.Heap.Memory
import Resumable.Run.History
import Resumable.Value.Repr

/-!
# Worlds

A `World` is all mutable state: the stores, the contexts, the calls in progress, the history, and
the state of the host, of whatever type that is. Computations on it are of type `Exec`; they end in
no result when they run out of steps, and failures are values, so that the world survives them.
-/

namespace Resumable

inductive Activity where
  | between
  | forwarding
  | running (a : Activation)

/-- One level of resumption: a generator resumed in a context. -/
structure Level where
  generator : Ref .generator
  context : Ref .context
  activity : Activity

/-- The calls in progress; a hook runs outside of any body. -/
inductive Call where
  | level (l : Level)
  | hook

structure World (σ : Type) where
  host : σ
  identities : Nat
  memory : Memory
  links : Store .exception Links
  generators : Store .generator Generator
  contexts : Store .context Context
  calls : List Call
  history : List Happening

namespace World

variable {σ : Type}

def initial (host : σ) : World σ :=
  { host, identities := 0, memory := .empty, links := .empty, generators := .empty,
    contexts := .empty, calls := [], history := [] }

instance [Inhabited σ] : Inhabited (World σ) := ⟨initial default⟩

def generator (w : World σ) (g : Ref .generator) : Generator := w.generators.get g

def context (w : World σ) (c : Ref .context) : Context := w.contexts.get c

def linksOf (w : World σ) (e : Exc) : Links := w.links.get e.ref

def lookup (w : World σ) : Lookup := ⟨w.memory.cell, fun g => (w.generator g).qualifiedName⟩

def modifyMemory (f : Memory → Memory) (w : World σ) : World σ :=
  { w with memory := f w.memory }

def modifyLinks (e : Exc) (f : Links → Links) (w : World σ) : World σ :=
  { w with links := w.links.modify e.ref f }

def modifyGenerator (g : Ref .generator) (f : Generator → Generator) (w : World σ) : World σ :=
  { w with generators := w.generators.modify g f }

def modifyContext (c : Ref .context) (f : Context → Context) (w : World σ) : World σ :=
  { w with contexts := w.contexts.modify c f }

def push (call : Call) (w : World σ) : World σ := { w with calls := call :: w.calls }

def pop (w : World σ) : World σ := { w with calls := w.calls.tail }

def record (h : Happening) (w : World σ) : World σ := { w with history := h :: w.history }

def setActivity (a : Activity) (w : World σ) : World σ :=
  match w.calls with
  | .level l :: rest => { w with calls := .level { l with activity := a } :: rest }
  | _ => w

def activation? (w : World σ) : Option Activation :=
  match w.calls with
  | .level ⟨_, _, .running a⟩ :: _ => some a
  | _ => none

end World

-- ---------------------------------------------------------------------------
-- Computations
-- ---------------------------------------------------------------------------

abbrev Exec (σ : Type) : Type → Type := StateT (World σ) Option

namespace Exec

variable {σ : Type}

def newIdentity : Exec σ Identity :=
  modifyGet fun w => (w.identities, { w with identities := w.identities + 1 })

def newText (text : String) : Exec σ TextRef := return ⟨← newIdentity, text⟩

def newCell (v : Option Value) : Exec σ (Ref .cell) :=
  modifyGet fun w => (w.memory.cells.next,
    w.modifyMemory fun m => { m with cells := m.cells.add v })

def newFrame (layout : FrameLayout) : Exec σ (Ref .frame) :=
  modifyGet fun w => (w.memory.frames.next,
    w.modifyMemory fun m => { m with frames := m.frames.add (.ofLayout layout) })

def newExc (type : ExcType) (class? : Option Class) (args : List Value) : Exec σ Exc :=
  modifyGet fun w => (⟨w.links.next, type, class?, args⟩, { w with links := w.links.add .none })

def newGenerator (g : Generator) : Exec σ (Ref .generator) :=
  modifyGet fun w => (w.generators.next,
    { w with generators := w.generators.add g }.record (.created w.generators.next g.target))

def newContext (c : Context) : Exec σ (Ref .context) :=
  modifyGet fun w => (w.contexts.next, { w with contexts := w.contexts.add c })

def fault (f : Fault) : Exec σ Failure := do
  let message ← newText f.message
  return f.failure (← newExc f.type none [.text message])

def stopIteration (v : Value) : Exec σ Exc :=
  newExc .stopIteration none (if v.isNone then [] else [v])

def record (h : Happening) : Exec σ Unit := modify (·.record h)

def emit (c : Ref .context) (g : Ref .generator) (e : TraceEvent) : Exec σ Unit :=
  modify fun w => (w.modifyContext c (·.emit e)).record (.traced c g e)

def pushTraceback (e : Exc) (place : Snapshot) : Exec σ Unit := do
  let id ← newIdentity
  modify fun w => w.modifyLinks e (.pushTraceback ⟨id, place, place.line⟩)

def enter (c : Ref .context) (g : Ref .generator) : Exec σ (Except Failure Unit) := do
  let (admitted, entered) := ((← get).context c).enter
  modify fun w => w.modifyContext c fun _ => entered
  match admitted with
  | .error cause => return .error (← fault (.limit cause))
  | .ok () =>
    modify fun w => w.push (.level ⟨g, c, .between⟩)
    return .ok ()

def leave (c : Ref .context) : Exec σ Unit :=
  modify fun w => (w.modifyContext c (·.leave)).pop

-- ---------------------------------------------------------------------------
-- Activation
-- ---------------------------------------------------------------------------

def noBody : Failure := .internal "no body is running"

/-- Takes what the resumption delivers: the value sent, none if nothing was sent, or the exception
thrown in, as a failure. -/
def takePayload : Exec σ (Except Failure Value) := do
  match (← get).activation? with
  | none => return .error noBody
  | some a =>
    modify (·.setActivity (.running { a with arguments := { a.arguments with payload := none } }))
    match a.arguments.payload with
    | none => return .ok .none
    | some (.send v) => return .ok v
    | some (.throw e hostTrace) => return .error (.raised ⟨e, hostTrace⟩)

/-- The exception that the resumer is handling, looked up when it is first asked for. -/
def callerException (c : Ref .context) : Exec σ (Option Exc) := do
  match (← get).activation? with
  | none => return none
  | some a =>
    match a.arguments.caller with
    | some known => return known
    | none =>
      let found := ((← get).context c).currentException?
      modify (·.setActivity
        (.running { a with arguments := { a.arguments with caller := some found } }))
      return found

def chainCaller (c : Ref .context) (e : Exc) : Exec σ Unit := do
  if ((← get).linksOf e).context.isSome then return
  match ← callerException c with
  | some handled => modify fun w => w.modifyLinks e (.chain e handled)
  | none => return

end Exec

end Resumable
