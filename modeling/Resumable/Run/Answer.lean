import Resumable.Generator.Close
import Resumable.Generator.Throw

/-!
# Answering requests

`Engine.answer` is what each request does. `Host.answer` ties the levels together: the programs
that a request starts are answered by the same rules, to a nesting of at most `n` levels.
-/

namespace Resumable

namespace Edit

variable {σ : Type}

def apply (c : Ref .context) : Edit → World σ → World σ
  | cell r v, w => w.modifyMemory (·.setCell r v)
  | store f index v, w => w.modifyMemory (·.store f index v)
  | storeRaw f index v, w => w.modifyMemory (·.storeRaw f index v)
  | clear f index, w => w.modifyMemory (·.clear f index)
  | traceback e t, w => w.modifyLinks e ({ · with traceback := t })
  | context e other, w => w.modifyLinks e ({ · with context := other })
  | cause e other, w => w.modifyLinks e ({ · with cause := other })
  | name g s, w => w.modifyGenerator g ({ · with name := s })
  | qualifiedName g s, w => w.modifyGenerator g ({ · with qualifiedName := s })
  | emit e, w => w.modifyContext c (·.emit e)
  | clearEvents, w => w.modifyContext c fun x => { x with tracer := x.tracer.cleared }

end Edit

namespace Creation

variable {σ : Type}

def make {α : Type} : Creation α → Exec σ α
  | identity => Exec.newIdentity
  | text s => Exec.newText s
  | cell v => Exec.newCell v
  | frame layout => Exec.newFrame layout
  | exc type class? args => Exec.newExc type class? args
  | context c => Exec.newContext c

end Creation

namespace Exec

variable {σ : Type}

def call (t : Target) (args : List Value) : Exec σ (Except Failure (Ref .generator)) := do
  if args.length = t.code.argumentCount then
    let frame ← newFrame t.code.layout
    modify (·.modifyMemory fun m =>
      args.zipIdx.foldl (fun m (v, index) => m.store frame index v) m)
    return .ok (← newGenerator (.create t frame args))
  else
    return .error (← fault (.argumentCount t.code.name t.code.argumentCount args.length))

end Exec

namespace Engine

variable {σ : Type} (e : Engine σ)

def answer {α : Type} (c : Ref .context) : Request σ α → Exec σ α
  | .look f => return f (← get)
  | .here => return c
  | .modifyHost f => modify fun w => { w with host := f w.host }
  | .edit x => modify (x.apply c)
  | .create x => x.make
  | .hash v => e.hash c v
  | .equals a b => e.equals c a b
  | .call f args => e.call c f args
  | .newGenerator t args => Exec.call t args
  | .resume g p => e.resume c g p
  | .throw g type value traceback => e.throw c g type value traceback
  | .close g => e.close c g
  | .take => Exec.takePayload
  | .caller => Exec.callerException c
  | .chain exc => Exec.chainCaller c exc

end Engine

namespace Host

variable {σ : Type}

/-- Answers a request whose programs nest at most `n` levels. -/
def answer (host : Host σ) : Nat → {α : Type} → Ref .context → Request σ α → Exec σ α
  | 0, _, _, _ => fun _ => none
  | n + 1, _, c, q => Engine.answer ⟨host, host.answer n⟩ c q

def run (host : Host σ) (n : Nat) {α : Type} (c : Ref .context) (p : Prog σ α) : Exec σ α :=
  p.run (host.answer n) c

end Host

end Resumable
