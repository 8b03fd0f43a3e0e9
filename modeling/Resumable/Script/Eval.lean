import Resumable.Script.Perform

/-!
# Evaluating scripts

`Eval.expr` is the program that an expression stands for, by recursion on the expression.
`Scenario.host` has these programs for bodies and hooks.
-/

namespace Resumable.Script

namespace Eval

/-- Handles the failure of an evaluation; suspending and returning pass through. -/
def recover {α : Type} (x : Eval α) (handle : Failure → Eval α) : Eval α := do
  match ← lift x.run with
  | .ok a => return a
  | .error (.failure f) => handle f
  | .error (.exit r) => throw (.exit r)

def firstHandler (f : Failure) (handlers : List (Option ExcType × Eval Result)) :
    Option (Eval Result) :=
  (handlers.find? fun (type?, _) => type?.all f.isCaughtBy).map (·.2)

def whileCaught (f : Failure) (x : Eval Result) : Eval Result := do
  modify fun s => { s with caught := f :: s.caught }
  let r ← lift x.run
  modify fun s => { s with caught := s.caught.tail }
  ExceptT.mk (pure r)

def addToLog (j : Json) : Eval Unit := modify fun s => { s with log := j :: s.log }

def loop : Nat → Eval Result → Result → Eval Result
  | 0, _, r => return r
  | n + 1, x, _ => do
    let r ← x
    loop n x r

def ending (w : World Session) : Except Failure Result → String × Json
  | .ok r => ("v", r.toJson w)
  | .error f => ("e", Show.failure w f)

mutual

def expr : Expr → Eval Result
  | .none => return .none
  | .bool b => bool b
  | .int i => value (.int i)
  | .text s => do value (.text (← lift (Prog.newText s)))
  | .apply op es => do
    let vs ← operands es
    perform op vs
  | .seq es => steps es .none
  | .loop n body => loop n (expr body) .none
  | .ite condition yes no => do
    let c ← expr condition
    if c.toValue.isTrue then expr yes else expr no
  | .assign name e => do
    let v ← expr e
    modify (·.setVariable name v.toValue)
    return .none
  | .tryWith body hs =>
    recover (expr body) fun f =>
      match firstHandler f (handlers hs) with
      | some h => whileCaught f h
      | none => fail f
  | .catchInto body =>
    recover (expr body) fun f =>
      match f.exc? with
      | some e => value e.value
      | none => fail f
  | .log body => do
    let r ← recover (do return Except.ok (← expr body)) fun f => return .error f
    addToLog (← lift (.look fun w => .record [ending w r]))
    return .none
  | .handling exc body => do
    let e ← asExc (← expr exc).toValue
    let r ← lift (Prog.whileHandling e (expr body).run)
    ExceptT.mk (pure r)
  | .inContext options body => do
    let c ← lift (.create (.context (.ofOptions options)))
    let r ← lift (Prog.inContext c (expr body).run)
    ExceptT.mk (pure r)
  | .yield v resumeAt delegate retarget => do
    let v ← expr v
    let delegate ← match delegate with
      | some e => do
        let g ← asGenerator (← expr e).toValue
        pure (some g)
      | none => pure none
    let retarget ← match retarget with
      | some name => do pure (some (← targetNamed name))
      | none => pure none
    throw (.exit (.yields ⟨v.toValue, resumeAt, delegate, retarget⟩))
  | .giveBack v => do
    let v ← expr v
    throw (.exit (.returns v.toValue))
  | .malformed problem => malformed problem

def operands : List Expr → Eval (List Value)
  | [] => return []
  | e :: rest => do
    let v ← expr e
    return v.toValue :: (← operands rest)

def steps : List Expr → Result → Eval Result
  | [], last => return last
  | e :: rest, _ => do
    let r ← expr e
    steps rest r

def handlers : List (Option ExcType × Expr) → List (Option ExcType × Eval Result)
  | [] => []
  | (type?, e) :: rest => (type?, expr e) :: handlers rest

end

-- ---------------------------------------------------------------------------
-- Hooks
-- ---------------------------------------------------------------------------

def outsideBody (x : Eval Result) : Prog Session (Except Failure Result) := do
  match ← x.run with
  | .ok r => return .ok r
  | .error (.failure f) => return .error f
  | .error (.exit _) => return .error (.internal "script: yield or return outside of a body")

def runHook (layer : Layer) (hook : ClassSpec → Option Expr)
    (count : DeclaredClass → DeclaredClass) (settings : List (String × Value)) :
    Prog Session (Except Failure Value) :=
  let x : Eval Result := do
    let d ← require "no such class" ((← session).declaration? layer)
    modify (·.modifyDeclaration layer count)
    for (name, v) in settings do modify (·.setVariable name v)
    expr ((hook d.spec).getD .none)
  return (← outsideBody x).map (·.toValue)

end Eval

open Eval

/-- The program of a target at a resume point: the one for this point, or the one for all others,
or none. -/
def TargetSpec.bodyAt (t : TargetSpec) (point : Int) : Expr :=
  (((t.body.find? (·.1 == point.repr)).or (t.body.find? (·.1 == "*"))).map (·.2)).getD .none

def TargetSpec.run (t : TargetSpec) : Prog Session (Except Failure BodyResult) := do
  let x : Eval Result := do
    let a ← currentActivation
    Eval.expr (t.bodyAt a.resumePoint)
  match ← x.run with
  | .ok _ => return .ok (.returns .none)
  | .error (.failure f) => return .error f
  | .error (.exit r) => return .ok r

def Scenario.host (s : Scenario) : Host Session where
  body t :=
    match s.targets[t.program]? with
    | some spec => spec.run
    | none => return .ok (.returns .none)
  hash layer i := do
    let r ← runHook layer (·.hash?) (fun d => { d with hashes := d.hashes + 1 })
      [("self", i.payload)]
    return r.map fun v => (number v).toUInt64
  compare layer i other := do
    let r ← runHook layer (·.compare?) (fun d => { d with compares := d.compares + 1 })
      [("self", i.payload), ("other", other)]
    return r.map (·.isTrue)
  construct layer cls args := do
    let tuple ← Prog.create .identity
    runHook layer (·.construct?) (fun d => { d with constructs := d.constructs + 1 })
      [("args", .tuple tuple args), ("cls", .cls cls)]

end Resumable.Script
