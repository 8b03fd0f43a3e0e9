/-!
# Limits

A context may bound how deeply resumptions nest and how many of them it performs. The depth is
checked first, so a resumption that is refused for its depth is not counted; one that is refused
for its number is.
-/

namespace Resumable

/-- The bounds; an absent bound allows everything. -/
structure Limits where
  depth? : Option Nat
  resumes? : Option Nat
  deriving DecidableEq

namespace Limits

def defaultDepth : Nat := 1000

def standard : Limits := ⟨some defaultDepth, none⟩

instance : Inhabited Limits := ⟨standard⟩

end Limits

inductive LimitError where
  | depth (limit attempted : Nat)
  /-- A resumption would have been number `count`. -/
  | resumes (limit count : Nat)
  deriving DecidableEq

def LimitError.text : LimitError → String
  | depth _ _ => "maximum recursion depth exceeded"
  | resumes limit count =>
    "operation limit exceeded: " ++ count.repr ++ " > " ++ limit.repr

inductive Tracker where
  /-- Enforces limits, and has counted the resumptions that reached the count. -/
  | limited (limits : Limits) (count : Nat)
  /-- Enforces the standard depth and nothing else. -/
  | depthOnly
  deriving DecidableEq

namespace Tracker

def ofLimits (limits : Limits) : Tracker := .limited limits 0

instance : Inhabited Tracker := ⟨ofLimits .standard⟩

def depthLimit? : Tracker → Option Nat
  | limited limits _ => limits.depth?
  | depthOnly => some Limits.defaultDepth

def count : Tracker → Nat
  | limited _ n => n
  | depthOnly => 0

def checkDepth (t : Tracker) (depth : Nat) : Except LimitError Unit :=
  match t.depthLimit? with
  | some limit => if depth < limit then .ok () else .error (.depth limit (depth + 1))
  | none => .ok ()

def counted : Tracker → Tracker
  | limited limits n => limited limits (n + 1)
  | depthOnly => depthOnly

/-- Whether the resumption counted last was still allowed. -/
def checkCount : Tracker → Except LimitError Unit
  | limited limits n =>
    match limits.resumes? with
    | some limit => if n ≤ limit then .ok () else .error (.resumes limit n)
    | none => .ok ()
  | depthOnly => .ok ()

def countOne (t : Tracker) : Except LimitError Unit × Tracker := (t.counted.checkCount, t.counted)

theorem checkDepth_eq_ok_iff (t : Tracker) (depth : Nat) :
    t.checkDepth depth = .ok () ↔ ∀ limit ∈ t.depthLimit?, depth < limit := by
  unfold checkDepth
  split <;> simp_all

end Tracker

end Resumable
