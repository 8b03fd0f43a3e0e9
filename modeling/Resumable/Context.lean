import Resumable.Options
import Resumable.Trace.Tracer
import Resumable.Value.Basic

/-!
# Contexts

A context is what one caller runs in: its options, what is left of its limits, its tracer, the
exceptions that it is handling, the innermost first, and how deeply its resumptions are nested.
-/

namespace Resumable

structure Context where
  options : Options
  tracker : Tracker
  tracer : Tracer
  handled : List Exc
  depth : Nat

namespace Context

def ofOptions (options : Options) : Context :=
  { options, tracker := .ofLimits options.limits, tracer := .silent, handled := [], depth := 0 }

instance : Inhabited Context := ⟨ofOptions .standard⟩

def currentException? (c : Context) : Option Exc := c.handled.head?

def emit (e : TraceEvent) (c : Context) : Context := { c with tracer := c.tracer.add e }

def handling (e : Exc) (c : Context) : Context := { c with handled := e :: c.handled }

def handledOne (c : Context) : Context := { c with handled := c.handled.tail }

/-- Checks the limits for one resumption more, and goes one level in if they allow it. The
resumption counts if its depth is admitted, whether or not the count is. -/
def enter (c : Context) : Except LimitError Unit × Context :=
  match c.tracker.checkDepth c.depth with
  | .error e => (.error e, c)
  | .ok () =>
    match c.tracker.countOne with
    | (.error e, tracker) => (.error e, { c with tracker })
    | (.ok (), tracker) => (.ok (), { c with tracker, depth := c.depth + 1 })

def leave (c : Context) : Context := { c with depth := c.depth - 1 }

@[simp] theorem handledOne_handling (e : Exc) (c : Context) : (c.handling e).handledOne = c := rfl

theorem depth_leave_enter {c : Context} (h : c.enter.1 = .ok ()) :
    c.enter.2.depth = c.depth + 1 ∧ c.enter.2.leave.depth = c.depth := by
  revert h
  unfold enter
  split
  · simp
  · split <;> simp [leave]

theorem depth_enter_of_error {c : Context} {e : LimitError} (h : c.enter.1 = .error e) :
    c.enter.2.depth = c.depth := by
  revert h
  unfold enter
  split
  · simp
  · split <;> simp

end Context

end Resumable
