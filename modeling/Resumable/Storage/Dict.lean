import Resumable.Storage.Basic
import Resumable.Value.Repr

/-!
# Dictionaries

A dictionary is a storage for which a missing key is an error that carries the key. Its text shows
the entries in order.
-/

namespace Resumable

universe u

/-- Dictionaries need new exceptions besides what their storages need. -/
structure DictSurroundings (n : Type → Type u) extends Surroundings n where
  newExc : ExcType → List Value → n Exc

namespace Dict

variable {n : Type → Type u} [Monad n] [MonadStateOf Storage n] (s : DictSurroundings n)

def missing {α : Type} (key : Value) : ExceptT Failure n α := do
  let e ← ExceptT.lift (s.newExc .keyError [key])
  throw (.ofExc e)

def item (key : Value) : ExceptT Failure n Value := do
  match ← Storage.getItem s.toSurroundings key none with
  | some v => return v
  | none => missing s key

def get? (key : Value) : ExceptT Failure n (Option Value) := Storage.getItem s.toSurroundings key none

def contains (key : Value) : ExceptT Failure n Bool := return (← get? s key).isSome

def set (key v : Value) : ExceptT Failure n Unit := do
  let _ ← Storage.setItem s.toSurroundings key v

def delete (key : Value) : ExceptT Failure n Unit := do
  match ← Storage.pop s.toSurroundings key with
  | some _ => return
  | none => missing s key

end Dict

namespace Storage

def reprPairs (l : Lookup) (pairs : List (Value × Value)) : String :=
  "\x7b" ++ ", ".intercalate (pairs.map fun (key, v) => key.repr l ++ ": " ++ v.repr l) ++ "\x7d"

def shownEntries : Nat := 100

def showMap (l : Lookup) (m : Map) : String :=
  let shown := (m.pairs.take shownEntries).map fun (key, v) =>
    "(" ++ key.repr l ++ ", " ++ v.repr l ++ ")"
  "map(size=" ++ m.size.repr ++ ", \x7b" ++ ", ".intercalate shown
    ++ (if m.size > shownEntries then ", ..." else "") ++ "\x7d)"

def showLocals (mem : Memory) (view : Locals) (size : Nat) : String :=
  "locals(size=" ++ size.repr ++ ", frame=Frame \x7b addr: "
    ++ Text.address (Address.ofRef view.frame) ++ ", slots: "
    ++ (mem.layout view.frame).size.repr ++ " \x7d)"

end Storage

end Resumable
