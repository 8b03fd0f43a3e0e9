import Resumable.Run.World

/-!
# Programs

Bodies, hooks and the steps of a host are programs: trees of requests, each continued by what its
answer is. A program may look at everything, but it changes the world only through requests, and
it can handle an exception or change to another context only for the extent of an inner program.
Nothing else is assumed of a program, so what holds of all of them holds of any host.
-/

namespace Resumable

inductive Edit where
  | cell (r : Ref .cell) (v : Option Value)
  | store (f : Ref .frame) (index : Nat) (v : Value)
  | storeRaw (f : Ref .frame) (index : Nat) (v : Value)
  | clear (f : Ref .frame) (index : Nat)
  | traceback (e : Exc) (t : Option Traceback)
  | context (e : Exc) (other : Option Exc)
  | cause (e : Exc) (other : Option Exc)
  | name (g : Ref .generator) (name : String)
  | qualifiedName (g : Ref .generator) (name : String)
  | emit (e : TraceEvent)
  | clearEvents

inductive Creation : Type → Type where
  | identity : Creation Identity
  | text (s : String) : Creation TextRef
  | cell (v : Option Value) : Creation (Ref .cell)
  | frame (layout : FrameLayout) : Creation (Ref .frame)
  | exc (type : ExcType) (class? : Option Class) (args : List Value) : Creation Exc
  | context (c : Context) : Creation (Ref .context)

inductive Request (σ : Type) : Type → Type 1 where
  | look {α : Type} (f : World σ → α) : Request σ α
  | here : Request σ (Ref .context)
  | modifyHost (f : σ → σ) : Request σ Unit
  | edit (e : Edit) : Request σ Unit
  | create {α : Type} (c : Creation α) : Request σ α
  | hash (v : Value) : Request σ (Except Failure UInt64)
  | equals (a b : Value) : Request σ (Except Failure Bool)
  | call (f : Value) (args : List Value) : Request σ (Except Failure Value)
  | newGenerator (t : Target) (args : List Value) : Request σ (Except Failure (Ref .generator))
  /-- Resumes a generator; with no payload, as for its next value. -/
  | resume (g : Ref .generator) (p : Option Payload) : Request σ Outcome
  | throw (g : Ref .generator) (type : Value) (value traceback : Option Value) :
    Request σ (Except Failure Value)
  | close (g : Ref .generator) : Request σ (Except Failure Unit)
  | take : Request σ (Except Failure Value)
  /-- The exception that the resumer of the running body is handling. -/
  | caller : Request σ (Option Exc)
  | chain (e : Exc) : Request σ Unit

inductive Prog (σ : Type) : Type → Type 1 where
  | done {α : Type} (a : α) : Prog σ α
  | ask {α β : Type} (q : Request σ β) (k : β → Prog σ α) : Prog σ α
  | handling {α β : Type} (e : Exc) (inner : Prog σ β) (k : β → Prog σ α) : Prog σ α
  | within {α β : Type} (c : Ref .context) (inner : Prog σ β) (k : β → Prog σ α) : Prog σ α

namespace Prog

variable {σ : Type}

def bind {α β : Type} : Prog σ α → (α → Prog σ β) → Prog σ β
  | done a, f => f a
  | ask q k, f => ask q fun b => (k b).bind f
  | handling e inner k, f => handling e inner fun b => (k b).bind f
  | within c inner k, f => within c inner fun b => (k b).bind f

instance : Monad (Prog σ) where
  pure := done
  bind := bind

@[simp] theorem done_bind {α β : Type} (a : α) (f : α → Prog σ β) : (done a).bind f = f a := rfl

theorem bind_done {α : Type} (p : Prog σ α) : p.bind done = p := by
  induction p with
  | done a => rfl
  | ask q k ih => simp [bind, ih]
  | handling e inner k _ ih => simp [bind, ih]
  | within c inner k _ ih => simp [bind, ih]

theorem bind_assoc {α β γ : Type} (p : Prog σ α) (f : α → Prog σ β) (g : β → Prog σ γ) :
    (p.bind f).bind g = p.bind fun a => (f a).bind g := by
  induction p with
  | done a => rfl
  | ask q k ih => simp [bind, ih]
  | handling e inner k _ ih => simp [bind, ih]
  | within c inner k _ ih => simp [bind, ih]

instance : LawfulMonad (Prog σ) :=
  .mk' (Prog σ) bind_done (fun _ _ => rfl) bind_assoc

def request {α : Type} (q : Request σ α) : Prog σ α := ask q done

/-- Runs a program in a context, where requests are answered by `answer`. -/
def run (answer : {β : Type} → Ref .context → Request σ β → Exec σ β) (c : Ref .context)
    {α : Type} : Prog σ α → Exec σ α
  | done a => pure a
  | ask q k => do
    let b ← answer c q
    (k b).run answer c
  | handling e inner k => do
    modify fun w => w.modifyContext c (·.handling e)
    let b ← inner.run answer c
    modify fun w => w.modifyContext c (·.handledOne)
    (k b).run answer c
  | within c' inner k => do
    let b ← inner.run answer c'
    (k b).run answer c

theorem run_bind (answer : {β : Type} → Ref .context → Request σ β → Exec σ β) (c : Ref .context)
    {α β : Type} (p : Prog σ α) (f : α → Prog σ β) :
    (p.bind f).run answer c = p.run answer c >>= fun a => (f a).run answer c := by
  induction p with
  | done a => simp [run]
  | ask q k ih => simp [bind, run, ih]
  | handling e inner k _ ih => simp [bind, run, ih]
  | within c' inner k _ ih => simp [bind, run, ih]

theorem run_request (answer : {β : Type} → Ref .context → Request σ β → Exec σ β)
    (c : Ref .context) {α : Type} (q : Request σ α) :
    (request q).run answer c = answer c q := by
  simp [request, run]

end Prog

/-- The programs that a host supplies: the bodies of its targets, and the hooks that the layers of
its classes declare. -/
structure Host (σ : Type) where
  body : Target → Prog σ (Except Failure BodyResult)
  hash : Layer → Instance → Prog σ (Except Failure UInt64)
  compare : Layer → Instance → Value → Prog σ (Except Failure Bool)
  construct : Layer → Class → List Value → Prog σ (Except Failure Value)

end Resumable
