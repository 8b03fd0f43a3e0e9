import Resumable.Text.Columns
import Resumable.Trace.Event

/-!
# Profiles

A profile counts events. Its report lists the generators by how often they were resumed, the most
often resumed first and those resumed equally often by name.
-/

namespace Resumable

structure Profile where
  resumes : List (String × Nat)
  sends : Nat
  throws : Nat
  yields : Nat
  returned : Nat
  raised : Nat
  closed : Nat
  maxDepth : Nat
  cacheHits : Nat
  cacheMisses : Nat
  deriving DecidableEq

namespace Profile

def empty : Profile := ⟨[], 0, 0, 0, 0, 0, 0, 0, 0, 0⟩

instance : Inhabited Profile := ⟨empty⟩

def bump (name : String) : List (String × Nat) → List (String × Nat)
  | [] => [(name, 1)]
  | (other, count) :: rest =>
    if other = name then (other, count + 1) :: rest else (other, count) :: bump name rest

def addKind (kind : ResumeKind) (p : Profile) : Profile :=
  match kind with
  | .send => { p with sends := p.sends + 1 }
  | .throw => { p with throws := p.throws + 1 }
  | .next | .close => p

def add (p : Profile) : TraceEvent → Profile
  | .resume name kind depth =>
    addKind kind { p with resumes := bump name p.resumes, maxDepth := max p.maxDepth depth }
  | .yield .. => { p with yields := p.yields + 1 }
  | .finish _ .returned => { p with returned := p.returned + 1 }
  | .finish _ .raised => { p with raised := p.raised + 1 }
  | .finish _ .closed => { p with closed := p.closed + 1 }
  | .lookup true => { p with cacheHits := p.cacheHits + 1 }
  | .lookup false => { p with cacheMisses := p.cacheMisses + 1 }

/-- One line of the list stands before another. -/
def before (a b : String × Nat) : Bool := b.2 < a.2 || (a.2 == b.2 && !(b.1 < a.1))

end Profile

structure ProfileReport where
  resumes : List (String × Nat)
  totalResumes : Nat
  sends : Nat
  throws : Nat
  yields : Nat
  returned : Nat
  raised : Nat
  closed : Nat
  maxDepth : Nat
  cacheHits : Nat
  cacheMisses : Nat
  deriving DecidableEq

def Profile.report (p : Profile) : ProfileReport :=
  let resumes := p.resumes.mergeSort Profile.before
  { resumes
    totalResumes := resumes.foldl (fun total line => total + line.2) 0
    sends := p.sends
    throws := p.throws
    yields := p.yields
    returned := p.returned
    raised := p.raised
    closed := p.closed
    maxDepth := p.maxDepth
    cacheHits := p.cacheHits
    cacheMisses := p.cacheMisses }

namespace ProfileReport

def line (name : String) (count : Nat) : String :=
  "  " ++ Text.padRight 30 name ++ " " ++ Text.padLeft 8 count.repr

def lines (r : ProfileReport) : List String :=
  ["=== Generator Profile ===",
    "resumes: " ++ r.totalResumes.repr ++ " (send " ++ r.sends.repr ++ ", throw " ++ r.throws.repr
      ++ "), yields: " ++ r.yields.repr ++ ", max depth: " ++ r.maxDepth.repr,
    "finished: " ++ r.returned.repr ++ " returned, " ++ r.raised.repr ++ " raised, "
      ++ r.closed.repr ++ " closed",
    "locals cache: " ++ r.cacheHits.repr ++ " hits, " ++ r.cacheMisses.repr ++ " misses"]
    ++ r.resumes.map fun (name, count) => line name count

def text (r : ProfileReport) : String := String.join (r.lines.map (· ++ "\n"))

end ProfileReport

end Resumable
