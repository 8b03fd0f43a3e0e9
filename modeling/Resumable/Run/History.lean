import Resumable.Generator.Basic
import Resumable.Trace.Event

/-!
# Histories

A history lists what befell the generators of a run. The engine only ever adds to it and never
reads it: it is what statements about whole runs are about.
-/

namespace Resumable

inductive Happening where
  | created (g : Ref .generator) (t : Target)
  | entered (g : Ref .generator) (payload : Option Payload)
  | left (g : Ref .generator) (result : Except Failure BodyResult)
  | forwarded (g delegate : Ref .generator)
  /-- The delegate answered a resumption that was passed on to it. -/
  | answered (g delegate : Ref .generator) (answer : Except Failure Value)
  /-- The delegate was closed for an exception thrown in, or failed to close. -/
  | exited (g delegate : Ref .generator) (exit : Exc) (hostTrace : Bool)
    (answer : Except Failure Unit)
  | traced (c : Ref .context) (g : Ref .generator) (e : TraceEvent)

namespace Happening

def generator : Happening → Ref .generator
  | created g _ | entered g _ | left g _ | forwarded g _ | answered g _ _ | exited g _ _ _ _
  | traced _ g _ => g

end Happening

end Resumable
