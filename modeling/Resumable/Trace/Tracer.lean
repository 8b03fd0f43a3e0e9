import Resumable.Trace.Profile

/-!
# Tracers

A context sends its trace events to one tracer: none, a recorder that keeps the events up to a
number of them, or a profiler that counts them.
-/

namespace Resumable

/-- The events kept so far, the newest first. -/
structure Recorder where
  limit? : Option Nat
  newestFirst : List TraceEvent
  deriving DecidableEq

namespace Recorder

def unlimited : Recorder := ⟨none, []⟩

def upTo (limit : Nat) : Recorder := ⟨some limit, []⟩

def events (r : Recorder) : List TraceEvent := r.newestFirst.reverse

def hasRoom (r : Recorder) : Bool :=
  match r.limit? with
  | some limit => r.newestFirst.length < limit
  | none => true

def add (r : Recorder) (e : TraceEvent) : Recorder :=
  if r.hasRoom then { r with newestFirst := e :: r.newestFirst } else r

def cleared (r : Recorder) : Recorder := { r with newestFirst := [] }

@[simp] theorem events_add_unlimited (r : Recorder) (e : TraceEvent) (h : r.limit? = none) :
    (r.add e).events = r.events ++ [e] := by
  simp [add, hasRoom, h, events]

end Recorder

inductive Tracer where
  | silent
  | recording (r : Recorder)
  | profiling (p : Profile)
  deriving DecidableEq, Inhabited

namespace Tracer

def add (t : Tracer) (e : TraceEvent) : Tracer :=
  match t with
  | silent => silent
  | recording r => recording (r.add e)
  | profiling p => profiling (p.add e)

def events? : Tracer → Option (List TraceEvent)
  | recording r => some r.events
  | _ => none

def report? : Tracer → Option ProfileReport
  | profiling p => some p.report
  | _ => none

def cleared : Tracer → Tracer
  | recording r => recording r.cleared
  | t => t

end Tracer

end Resumable
