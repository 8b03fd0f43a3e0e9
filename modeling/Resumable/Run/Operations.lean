import Resumable.Run.Program
import Resumable.Storage.Dict

/-!
# Operations of programs

What programs do, in terms of the requests they make. Operations that may fail are of type
`Action`, in which the first failure ends the rest.
-/

namespace Resumable

abbrev Action (σ : Type) : Type → Type 1 := ExceptT Failure (Prog σ)

namespace Prog

variable {σ : Type}

def look {α : Type} (f : World σ → α) : Prog σ α := request (.look f)

def modifyHost (f : σ → σ) : Prog σ Unit := request (.modifyHost f)

def edit (e : Edit) : Prog σ Unit := request (.edit e)

def create {α : Type} (c : Creation α) : Prog σ α := request (.create c)

def context : Prog σ Context := do
  let c ← request .here
  look (·.context c)

def lookup : Prog σ Lookup := look (·.lookup)

def memory : Prog σ Memory := look (·.memory)

def newText (text : String) : Prog σ TextRef := create (.text text)

def newExc (type : ExcType) (args : List Value) : Prog σ Exc := create (.exc type none args)

def fault (f : Fault) : Prog σ Failure := do
  let message ← newText f.message
  return f.failure (← newExc f.type [.text message])

def whileHandling {α : Type} (e : Exc) (p : Prog σ α) : Prog σ α := handling e p done

def inContext {α : Type} (c : Ref .context) (p : Prog σ α) : Prog σ α := within c p done

end Prog

namespace Action

variable {σ : Type}

def lift {α : Type} (p : Prog σ α) : Action σ α := ExceptT.lift p

def fail {α : Type} (f : Fault) : Action σ α := do
  let failure ← lift (Prog.fault f)
  throw failure

def hash (v : Value) : Action σ UInt64 := ExceptT.mk (.request (.hash v))

def equals (a b : Value) : Action σ Bool := ExceptT.mk (.request (.equals a b))

def call (f : Value) (args : List Value) : Action σ Value := ExceptT.mk (.request (.call f args))

def take : Action σ Value := ExceptT.mk (.request .take)

def raiseChained {α : Type} (e : Exc) : Action σ α := do
  lift (.request (.chain e))
  throw (.ofExc e)

-- ---------------------------------------------------------------------------
-- Generators
-- ---------------------------------------------------------------------------

def generator (t : Target) (args : List Value) : Action σ (Ref .generator) :=
  ExceptT.mk (.request (.newGenerator t args))

def ofOutcome : Outcome → Action σ Value
  | .yielded v => return v
  | .returned v => do
    let e ← lift (.newExc .stopIteration (if v.isNone then [] else [v]))
    throw (.ofExc e)
  | .failed f => throw f

def resume (g : Ref .generator) (p : Option Payload) : Action σ Outcome :=
  lift (.request (.resume g p))

def next (g : Ref .generator) : Action σ Value := do ofOutcome (← resume g none)

def send (g : Ref .generator) (v : Value) : Action σ Value := do
  ofOutcome (← resume g (some (.send v)))

def throwInto (g : Ref .generator) (type : Value) (value traceback : Option Value) :
    Action σ Value :=
  ExceptT.mk (.request (.throw g type value traceback))

def throwException (g : Ref .generator) (e : Exc) : Action σ Value := do
  let context ← lift Prog.context
  ofOutcome (← resume g (some (.throw e context.options.hostTraces)))

def close (g : Ref .generator) : Action σ Unit := ExceptT.mk (.request (.close g))

def setName (g : Ref .generator) : Value → Action σ Unit
  | .text t => lift (.edit (.name g t.text))
  | _ => fail (.notText "__name__")

def setQualifiedName (g : Ref .generator) : Value → Action σ Unit
  | .text t => lift (.edit (.qualifiedName g t.text))
  | _ => fail (.notText "__qualname__")

/-- Whether a generator runs cannot be assigned. -/
def setRunning (_ : Ref .generator) (_ : Value) : Action σ Unit :=
  fail (.notWritable "generator" "gi_running")

-- ---------------------------------------------------------------------------
-- Iteration
-- ---------------------------------------------------------------------------

/-- What an iteration over a generator came to: what was made of each step, and what the generator
returned if it ended by returning. -/
structure Iteration (α : Type) where
  steps : List α
  returned : Option Value

/-- Iterates over a generator, for at most `n` steps. A step is a value, or the failure that ends
the iteration; it is visited before the generator is resumed again. -/
def iterate {α : Type} (g : Ref .generator) (visit : Except Failure Value → Prog σ α) :
    Nat → Prog σ (Iteration α)
  | 0 => return ⟨[], none⟩
  | n + 1 => do
    match ← (next g).run with
    | .ok v =>
      let step ← visit (.ok v)
      let rest ← iterate g visit n
      return { rest with steps := step :: rest.steps }
    | .error f =>
      match f.stopValue? with
      | some v => return ⟨[], some v⟩
      | none => return ⟨[← visit (.error f)], none⟩

-- ---------------------------------------------------------------------------
-- Dictionaries
-- ---------------------------------------------------------------------------

def surroundings {n : Type → Type 1} [MonadLiftT (Prog σ) n] : DictSurroundings n where
  keys := ⟨fun v => ExceptT.mk (liftM (hash (σ := σ) v).run),
    fun a b => ExceptT.mk (liftM (equals (σ := σ) a b).run)⟩
  memory := liftM (Prog.memory (σ := σ))
  noteLookup hit := liftM (Prog.edit (σ := σ) (.emit (.lookup hit)))
  newExc type args := liftM (Prog.newExc (σ := σ) type args)

end Action

end Resumable
