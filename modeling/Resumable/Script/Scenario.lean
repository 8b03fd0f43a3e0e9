import Resumable.Run.Answer
import Resumable.Script.Eval

/-!
# Scenarios

A scenario declares classes and targets and then evaluates its steps in one context. A step that
fails does not end the scenario. The report of a step shows its result or its failure, and what it
logged; if the context records events without a limit, the events of each step are taken with it.
-/

namespace Resumable.Script

-- ---------------------------------------------------------------------------
-- Declarations
-- ---------------------------------------------------------------------------

def ClassSpec.layer (spec : ClassSpec) (id : Identity) : Layer :=
  ⟨id, spec.name, spec.hash?.isSome, spec.compare?.isSome, spec.construct?.isSome⟩

/-- Declares a class: below its parent, else below an exception type, else of its own. -/
def ClassSpec.declare (spec : ClassSpec) : Eval Unit := do
  let layer := spec.layer (← Eval.lift (.create .identity))
  let cls ← match spec.parent?, spec.base? with
    | some parent, _ => do pure (Class.extend layer (← Eval.classNamed parent).cls)
    | none, some base => pure (Class.ofExceptions layer base)
    | none, none => pure (Class.root layer)
  Eval.modify fun s => { s with classes := ⟨spec, cls, 0, 0, 0⟩ :: s.classes }

def CodeSpec.code (spec : CodeSpec) : Eval Code := do
  let layout ← Eval.lift (Eval.newLayout spec.slots)
  let base := Code.ofName spec.name layout
  return { base with
    qualifiedName := spec.qualifiedName?.getD base.qualifiedName
    filename := spec.filename?.getD base.filename
    firstLine := spec.firstLine?.getD base.firstLine
    argumentCount := spec.argumentCount?.getD base.argumentCount
    lines := spec.lines.foldl (fun t (offset, line) => t.declare offset line) base.lines }

def TargetSpec.declare (spec : TargetSpec) (program : Nat) : Eval Unit := do
  let code ← match spec.code with
    | .inl other => do pure (← Eval.targetNamed other).code
    | .inr own => own.code
  Eval.modify fun s => { s with targets := s.targets.insert spec.name ⟨program, code⟩ }

def declareTargets : Nat → List TargetSpec → Eval Unit
  | _, [] => return
  | program, spec :: rest => do
    spec.declare program
    declareTargets (program + 1) rest

namespace Scenario

def declare (s : Scenario) : Eval Unit := do
  for spec in s.classes do spec.declare
  declareTargets 0 s.targets

-- ---------------------------------------------------------------------------
-- Steps
-- ---------------------------------------------------------------------------

def takesEvents (s : Scenario) : Bool :=
  match s.tracer with
  | .recording none => true
  | _ => false

def extras (s : Scenario) (log : List Json) (events : List TraceEvent) : List (String × Json) :=
  (if log.isEmpty then [] else [("log", Json.array log.reverse)])
    ++ (if s.takesEvents && !events.isEmpty then [("ev", Show.events events)] else [])

def step (s : Scenario) (e : Expr) : Prog Session Json := do
  let r ← Eval.outsideBody (Eval.expr e)
  let ending ← Prog.look fun w => Eval.ending w r
  let log ← Prog.look (·.host.log)
  let events := (← Prog.context).tracer.events?.getD []
  Prog.modifyHost fun session => { session with log := [] }
  if s.takesEvents then Prog.edit .clearEvents
  return .record (ending :: s.extras log events)

def evalSteps (s : Scenario) : List Expr → Prog Session (List Json)
  | [] => return []
  | e :: rest => do
    let j ← s.step e
    return j :: (← s.evalSteps rest)

def program (s : Scenario) : Prog Session Json := do
  match ← s.declare.run with
  | .ok () =>
    let reports ← s.evalSteps s.steps
    let depth := (← Prog.context).depth
    return .record [("steps", .array reports), ("depth", .ofNat depth)]
  | .error _ => return .record [("error", .ofText "script: declarations")]

def tracerOf : TracerSpec → Tracer
  | .silent => .silent
  | .recording none => .recording .unlimited
  | .recording (some limit) => .recording (.upTo limit)
  | .profiling => .profiling .empty

def context (s : Scenario) : Context :=
  let base := Context.ofOptions s.options
  { base with
    tracker := if s.depthOnly then .depthOnly else base.tracker
    tracer := tracerOf s.tracer }

/-- The nesting of requests that runs are cut off at. -/
def nesting : Nat := 10000000

def run (s : Scenario) : Option Json := do
  let w := World.initial Session.empty
  let (c, w) ← (Exec.newContext s.context).run w
  let (j, _) ← (s.host.run nesting c s.program).run w
  return j

def evaluate (classes : List ClassSpec) (e : Expr) : Option Json := do
  let report ← run ⟨.standard, false, .silent, classes, [], [e]⟩
  match report.field? "steps" with
  | some (.array [j]) => some j
  | _ => none

end Scenario

end Resumable.Script
