import Resumable.Hash.Number
import Resumable.Hash.Text
import Resumable.Hash.Tuple
import Resumable.Value.Hooks

/-!
# Hashing values

Numbers, texts and tuples hash by content and everything else by identity, except for instances
of classes that declare hooks: they hash as the nearest hash hook says. A class with an equality
hook and no hash hook has no hash.
-/

namespace Resumable.Value

/-- The hash of the value that stands for nothing. -/
def noneHash : UInt64 := 0xFCA86420

variable {m : Type → Type} [Monad m]

def hashInstance (h : Hooks m) (i : Instance) : ExceptT Failure m UInt64 :=
  match i.cls.hashLayer?, i.cls.equalityLayer? with
  | some layer, _ => ExceptT.mk (h.hash layer i)
  | .none, some _ => h.fail (.unhashable i.cls.name)
  | .none, .none => pure (Address.hash (Address.ofIdentity i.id))

mutual

def hash (h : Hooks m) : Value → ExceptT Failure m UInt64
  | .unbound => throw (.internal "hash of an unbound slot")
  | .none => pure noneHash
  | .bool b => pure (Hash.ofInt (ofBool b).toInt)
  | .int i => pure (Hash.ofInt i.toInt)
  | .float x => pure (Hash.ofBinary64 x)
  | .text t => pure (Hash.ofText t.text)
  | .tuple _ items => do
    let hashes ← hashItems h items
    return Hash.ofItems hashes
  | .excType t => pure (Hash.ofText t.name)
  | .cell r => pure (Address.hash (Address.ofRef r))
  | .cls c => pure (Address.hash (Address.ofIdentity c.id))
  | .exception r .. => pure (Address.hash (Address.ofRef r))
  | .traceback t => pure (Address.hash (Address.ofIdentity t.id))
  | .generator r => pure (Address.hash (Address.ofRef r))
  | .inst id c payload => hashInstance h ⟨id, c, payload⟩

def hashItems (h : Hooks m) : List Value → ExceptT Failure m (List UInt64)
  | [] => pure []
  | v :: rest => do
    let first ← v.hash h
    let more ← hashItems h rest
    return first :: more

end

end Resumable.Value
