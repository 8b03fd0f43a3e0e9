import Resumable.Storage.Locals

/-!
# Storage of dictionaries

A storage is a map, or a view of the variables of a frame. The first write to a view turns it into
a map of the variables as they are then, so that no write reaches the frame. Operations run in any
monad that holds the storage, below their failures, so that what they did to it stays when they
fail. They work on the storage where it is: code that runs in the middle of an operation sees what
was done so far, and what such code made a view remember is not forgotten.
-/

namespace Resumable

universe u

inductive Storage where
  | map (m : Map)
  | locals (l : Locals)
  deriving Inhabited

/-- What operations on a storage need: keys are hashed and compared, frames are read, and the
look-ups of names in a view are reported with whether the cache knew the name. -/
structure Surroundings (n : Type → Type u) where
  keys : KeyOps n
  memory : n Memory
  noteLookup : Bool → n Unit

namespace Storage

def empty : Storage := .map .empty

def isLocals : Storage → Bool
  | .map _ => false
  | .locals _ => true

/-- A key whose hash or equality may run a program was stored; names are texts. -/
def runsCode : Storage → Bool
  | .map m => m.runsCode
  | .locals _ => false

def copy : Storage → Storage
  | .map m => .map m
  | .locals l => .locals l.copy

def toMap (mem : Memory) : Storage → Map
  | .map m => m
  | .locals l => l.toMap mem

def size (mem : Memory) : Storage → Nat × Storage
  | .map m => (m.size, .map m)
  | .locals l => let (n, l) := l.size mem; (n, .locals l)

def pairs (mem : Memory) : Storage → List (Value × Value)
  | .map m => m.pairs
  | .locals l => (l.pairs mem).map fun (name, v) => (.text name, v)

-- ---------------------------------------------------------------------------
-- Entries
-- ---------------------------------------------------------------------------

section

variable {n : Type → Type u} [Monad n] (s : Surroundings n)

def foldPairs {α : Type} (f : α → Value → Value → ExceptT Failure n α) :
    List (Value × Value) → α → ExceptT Failure n α
  | [], a => pure a
  | (key, v) :: rest, a => do
    let a ← f a key v
    foldPairs f rest a

def foldNames {α : Type} (frame : Ref .frame) (f : α → Value → Value → ExceptT Failure n α) :
    List (Nat × TextRef) → α → ExceptT Failure n α
  | [], a => pure a
  | (index, name) :: rest, a => do
    let mem ← ExceptT.lift s.memory
    match mem.load frame index with
    | some v =>
      let a ← f a (.text name) v
      foldNames frame f rest a
    | none => foldNames frame f rest a

def forEach {α : Type} (storage : Storage) (f : α → Value → Value → ExceptT Failure n α)
    (a : α) : ExceptT Failure n α :=
  match storage with
  | .map m => foldPairs f m.pairs a
  | .locals l => do
    let mem ← ExceptT.lift s.memory
    foldNames s l.frame f (mem.layout l.frame).visibleSlots a

/-- Compares a key with the names of a hash in the order of their slots, up to the first equal
one, whose variable is read then. -/
def searchNames (frame : Ref .frame) (key : Value) (hash : UInt64) :
    List (Nat × TextRef) → ExceptT Failure n (Option Value)
  | [] => pure none
  | (index, name) :: rest => do
    if Hash.ofText name.text != hash then searchNames frame key hash rest
    else
      let same ← s.keys.equals key (.text name)
      if same then
        let mem ← ExceptT.lift s.memory
        return mem.load frame index
      else searchNames frame key hash rest

end

-- ---------------------------------------------------------------------------
-- Operations
-- ---------------------------------------------------------------------------

section

variable {n : Type → Type u} [Monad n] [MonadStateOf Storage n] (s : Surroundings n)

def lookupName (l : Locals) (key : TextRef) : ExceptT Failure n (Option Value) := do
  let mem ← ExceptT.lift s.memory
  let (slot, hit, remembered) := l.findSlot (mem.layout l.frame) key
  set (Storage.locals remembered)
  ExceptT.lift (s.noteLookup hit)
  return slot.bind (mem.load l.frame)

/-- Looks a key up in a view. Only texts are looked up through the cache; any other key is compared
with the names. -/
def lookupKey (l : Locals) (key : Value) (hash? : Option UInt64) :
    ExceptT Failure n (Option Value) :=
  match key with
  | .text name => lookupName s l name
  | key => do
    let hash ← Map.hashOf s.keys key hash?
    let mem ← ExceptT.lift s.memory
    searchNames s l.frame key hash (mem.layout l.frame).visibleSlots

def getItem (key : Value) (hash? : Option UInt64) : ExceptT Failure n (Option Value) := do
  match ← getThe Storage with
  | .map m => m.get? s.keys key hash?
  | .locals l => lookupKey s l key hash?

def getText (key : TextRef) : ExceptT Failure n (Option Value) := do
  match ← getThe Storage with
  | .map m => m.get? s.keys (.text key) (some (Hash.ofText key.text))
  | .locals l => lookupName s l key

def promote : ExceptT Failure n Map := do
  let mem ← ExceptT.lift s.memory
  let m := (← getThe Storage).toMap mem
  set (Storage.map m)
  return m

def setItem (key v : Value) : ExceptT Failure n (Option Value) := do
  let m ← promote s
  let (old, m) ← m.set s.keys key v
  set (Storage.map m)
  return old

def removeItem (key : Value) : ExceptT Failure n (Option Entry) := do
  let m ← promote s
  let (old, m) ← m.remove s.keys key
  set (Storage.map m)
  return old

/-- Removes a key, with its value. A view in which the key is absent stays a view. -/
def pop (key : Value) : ExceptT Failure n (Option Value) := do
  match ← getThe Storage with
  | .map _ => return (← removeItem s key).map (·.value)
  | .locals l =>
    let found ← lookupKey s l key none
    if found.isSome then return (← removeItem s key).map (·.value) else return none

def clear : Storage → Storage
  | .map m => .map m.clear
  | .locals _ => empty

def markRunsCode : ExceptT Failure n Unit := do
  let m ← promote s
  set (Storage.map m.markRunsCode)

end

-- ---------------------------------------------------------------------------
-- Keys
-- ---------------------------------------------------------------------------

inductive Cursor where
  | keys (rest : List Value)
  | slots (c : Locals.Cursor)

namespace Cursor

def ofStorage (mem : Memory) : Storage → Cursor
  | .map m => .keys m.keys
  | .locals l => .slots (.ofLocals mem l)

def next (mem : Memory) : Cursor → Option Value × Cursor
  | .keys [] => (none, .keys [])
  | .keys (key :: rest) => (some key, .keys rest)
  | .slots c => let (key, c) := c.next mem; (key.map .text, .slots c)

def nextBack (mem : Memory) : Cursor → Option Value × Cursor
  | .keys rest => (rest.getLast?, .keys rest.dropLast)
  | .slots c => let (key, c) := c.nextBack mem; (key.map .text, .slots c)

end Cursor

end Storage

end Resumable
