import Resumable.Hash.Text
import Resumable.Storage.Table
import Resumable.Value.Hooks

/-!
# Ordered maps

A map keeps its entries in the order in which their keys were first inserted, each with the hash
its key had then, and a table of the places of the entries. Hashing and comparing keys may run
programs, in a monad of the caller's, and may fail; a map is a value, so an operation that fails
leaves no trace on it.
-/

namespace Resumable

universe u

structure KeyOps (m : Type → Type u) where
  hash : Value → ExceptT Failure m UInt64
  equals : Value → Value → ExceptT Failure m Bool

structure Entry where
  key : Value
  value : Value
  hash : UInt64
  deriving Inhabited

structure Map where
  entries : Array Entry
  /-- The places of the entries, filed under their hashes. -/
  index : Table
  runsCode : Bool

namespace Map

def empty : Map := ⟨#[], .empty, false⟩

instance : Inhabited Map := ⟨empty⟩

def size (m : Map) : Nat := m.entries.size

def isEmpty (m : Map) : Bool := m.entries.isEmpty

def places (m : Map) (hash : UInt64) : List Nat := m.index.shown hash

def pairs (m : Map) : List (Value × Value) := m.entries.toList.map fun e => (e.key, e.value)

def keys (m : Map) : List Value := m.entries.toList.map (·.key)

def append (m : Map) (e : Entry) : Map :=
  { m with
    entries := m.entries.push e
    index := m.index.insert e.hash m.entries.size }

def replaceValue (m : Map) (place : Nat) (v : Value) : Map :=
  { m with entries := m.entries.modify place ({ · with value := v }) }

def shiftPlace (gone place : Nat) : Nat := if gone < place then place - 1 else place

/-- Removes the entry at a place that a search for the hash has led to; later entries move up. -/
def eraseAt (m : Map) (hash : UInt64) (place : Nat) : Map :=
  { m with
    entries := m.entries.eraseIdxIfInBounds place
    index := (m.index.remove hash place).mapPlaces (shiftPlace place) }

def clear (m : Map) : Map := { m with entries := #[], index := .empty }

def markRunsCode (m : Map) : Map := { m with runsCode := true }

@[simp] theorem pairs_empty : empty.pairs = [] := rfl

@[simp] theorem pairs_append (m : Map) (e : Entry) :
    (m.append e).pairs = m.pairs ++ [(e.key, e.value)] := by
  simp [append, pairs]

@[simp] theorem keys_append (m : Map) (e : Entry) : (m.append e).keys = m.keys ++ [e.key] := by
  simp [append, keys]

@[simp] theorem keys_replaceValue (m : Map) (place : Nat) (v : Value) :
    (m.replaceValue place v).keys = m.keys := by
  apply List.ext_getElem
  · simp [replaceValue, keys]
  · simp only [replaceValue, keys, Array.toList_modify, List.getElem_map, List.getElem_modify]
    intro i _ _
    split <;> rfl

theorem map_eraseIdx {α β : Type} (f : α → β) (xs : List α) (place : Nat) :
    (xs.eraseIdx place).map f = (xs.map f).eraseIdx place := by
  induction xs generalizing place with
  | nil => simp
  | cons x xs ih => cases place <;> simp [ih]

@[simp] theorem keys_eraseAt (m : Map) (hash : UInt64) (place : Nat) :
    (m.eraseAt hash place).keys = m.keys.eraseIdx place := by
  simp [eraseAt, keys, Array.toList_eraseIdxIfInBounds, map_eraseIdx]

@[simp] theorem pairs_eraseAt (m : Map) (hash : UInt64) (place : Nat) :
    (m.eraseAt hash place).pairs = m.pairs.eraseIdx place := by
  simp [eraseAt, pairs, Array.toList_eraseIdxIfInBounds, map_eraseIdx]

@[simp] theorem pairs_clear (m : Map) : m.clear.pairs = [] := rfl

@[simp] theorem pairs_markRunsCode (m : Map) : m.markRunsCode.pairs = m.pairs := rfl

-- ---------------------------------------------------------------------------
-- Text keys
-- ---------------------------------------------------------------------------

def findText? (m : Map) (text : String) : Option Nat :=
  (m.places (Hash.ofText text)).find? fun place =>
    m.entries[place]?.any fun e => e.key.asText == some text

def setText (m : Map) (key : TextRef) (v : Value) : Option Value × Map :=
  match m.findText? key.text with
  | some place => (m.entries[place]?.map (·.value), m.replaceValue place v)
  | none => (none, m.append ⟨.text key, v, Hash.ofText key.text⟩)

def ofDistinctTexts (pairs : List (TextRef × Value)) : Map :=
  pairs.foldl (fun m (key, v) => m.append ⟨.text key, v, Hash.ofText key.text⟩) empty

-- ---------------------------------------------------------------------------
-- Any keys
-- ---------------------------------------------------------------------------

section

variable {n : Type → Type u} [Monad n] (ops : KeyOps n)

def hashOf (key : Value) : Option UInt64 → ExceptT Failure n UInt64
  | some hash => pure hash
  | none => ops.hash key

/-- Whether a place that a search is shown is the one it is for. Nothing stops a search on the way,
so the first failure is kept, and every place after it is turned down. -/
def accepts (m : Map) (key : Value) (hash : UInt64) (place : Nat) :
    StateT (Option Failure) n Bool := do
  if (← get).isSome then return false
  let some e := m.entries[place]? | return false
  if e.hash != hash then return false
  if e.key.identical key then return true
  match ← (ops.equals key e.key).run with
  | .ok same => return same
  | .error f =>
    set (some f)
    return false

def search (m : Map) (key : Value) (hash : UInt64) (places : List Nat) :
    ExceptT Failure n (Option Nat) := ExceptT.mk do
  let (found, failure) ← (places.findM? (m.accepts ops key hash)).run none
  return match failure with
  | some f => .error f
  | none => .ok found

def find? (m : Map) (key : Value) (hash : UInt64) : ExceptT Failure n (Option Nat) :=
  m.search ops key hash (m.places hash)

def get? (m : Map) (key : Value) (hash? : Option UInt64) : ExceptT Failure n (Option Value) := do
  let hash ← hashOf ops key hash?
  let place? ← m.find? ops key hash
  return place?.bind fun place => m.entries[place]?.map (·.value)

/-- Inserts or replaces, with what was replaced. A key that is there stays the key. -/
def set (m : Map) (key v : Value) : ExceptT Failure n (Option Value × Map) := do
  let hash ← ops.hash key
  let place? ← m.find? ops key hash
  match place? with
  | some place => return (m.entries[place]?.map (·.value), m.replaceValue place v)
  | none =>
    let m := if key.mayRunCode then m.markRunsCode else m
    return (none, m.append ⟨key, v, hash⟩)

def remove (m : Map) (key : Value) : ExceptT Failure n (Option Entry × Map) := do
  let hash ← ops.hash key
  let place? ← m.find? ops key hash
  match place? with
  | some place => return (m.entries[place]?, m.eraseAt hash place)
  | none => return (none, m)

end

end Map

end Resumable
