import Resumable.Value.Hooks

/-!
# Calling values

Exception types and classes are callable. A class without a construction hook makes an exception
of its arguments if it is a class of exceptions, and otherwise an instance whose payload is the
first argument.
-/

namespace Resumable.Value

variable {m : Type → Type} [Monad m]

def construct (h : Hooks m) (c : Class) (args : List Value) : ExceptT Failure m Value :=
  match c.constructionLayer?, c.base? with
  | some layer, _ => ExceptT.mk (h.construct layer c args)
  | .none, some type => do
    let e ← h.newExc type (some c) args
    return e.value
  | .none, .none => do
    let id ← h.newIdentity
    return .inst id c (args.head?.getD .none)

def call (h : Hooks m) (f : Value) (args : List Value) : ExceptT Failure m Value :=
  match f with
  | .excType type => do
    let e ← h.newExc type Option.none args
    return e.value
  | .cls c => construct h c args
  | v => h.fail (.notCallable v.typeName)

end Resumable.Value
