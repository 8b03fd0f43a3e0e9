import Resumable.Value.Equality
import Resumable.Value.Hash

/-!
# Values that run no code

Hashing and comparing values without hooks is a computation on the values alone: `plainHash` and
`plainEquals` are its results, in every monad and with any hooks. An unbound slot inside of a value
has no hash, and hashing the value fails before anything else happens.
-/

namespace Resumable

def Hooks.unused {m : Type → Type} [Monad m] : Hooks m where
  hash _ _ := pure (.ok 0)
  compare _ _ _ := pure (.ok false)
  construct _ _ _ := pure (.ok .none)
  newExc type class? args := pure ⟨⟨0⟩, type, class?, args⟩
  newText text := pure ⟨0, text⟩
  newIdentity := pure 0

namespace Value

mutual

/-- An unbound slot stands somewhere among the items of the value. -/
def containsUnbound : Value → Bool
  | .unbound => true
  | .tuple _ items => anyContainsUnbound items
  | _ => false

def anyContainsUnbound : List Value → Bool
  | [] => false
  | v :: rest => v.containsUnbound || anyContainsUnbound rest

end

mutual

/-- The hash of a value that runs no code and contains no unbound slot. -/
def plainHash : Value → UInt64
  | .unbound => 0
  | .none => noneHash
  | .bool b => Hash.ofInt (ofBool b).toInt
  | .int i => Hash.ofInt i.toInt
  | .float x => Hash.ofBinary64 x
  | .text t => Hash.ofText t.text
  | .tuple _ items => Hash.ofItems (plainHashes items)
  | .excType t => Hash.ofText t.name
  | .cell r => Address.hash (Address.ofRef r)
  | .cls c => Address.hash (Address.ofIdentity c.id)
  | .exception r .. => Address.hash (Address.ofRef r)
  | .traceback t => Address.hash (Address.ofIdentity t.id)
  | .generator r => Address.hash (Address.ofRef r)
  | .inst id .. => Address.hash (Address.ofIdentity id)

def plainHashes : List Value → List UInt64
  | [] => []
  | v :: rest => v.plainHash :: plainHashes rest

end

mutual

def plainEquals : Value → Value → Bool
  | .tuple _ xs, .tuple _ ys => if xs.length = ys.length then plainEqualsItems xs ys else false
  | a, b => a.equalsPlain b

def plainEqualsItems : List Value → List Value → Bool
  | x :: xs, y :: ys => (x.identical y || x.plainEquals y) && plainEqualsItems xs ys
  | _, _ => true

end

def unboundFailure : Failure := .internal "hash of an unbound slot"

-- ---------------------------------------------------------------------------
-- Without code
-- ---------------------------------------------------------------------------

section

variable {m : Type → Type} [Monad m] (h : Hooks m)

theorem hashInstance_plain {i : Instance} (hi : i.cls.hasHooks = false) :
    hashInstance h i = pure (Address.hash (Address.ofIdentity i.id)) := by
  simp only [Class.hasHooks, Bool.or_eq_false_iff, Option.isSome_eq_false_iff,
    Option.isNone_iff_eq_none] at hi
  simp only [hashInstance, hi.1, hi.2]

theorem compareByHook_plain {a b : Value} (ha : a.mayRunCode = false) :
    compareByHook h a b = pure Option.none := by
  cases a with
  | inst id c payload =>
    simp only [mayRunCode, Class.hasHooks, Bool.or_eq_false_iff, Option.isSome_eq_false_iff,
      Option.isNone_iff_eq_none] at ha
    simp only [compareByHook, ha.2]
  | _ => rfl

variable [LawfulMonad m]

mutual

theorem hash_plain : ∀ {v : Value}, v.mayRunCode = false →
    v.hash h = if v.containsUnbound then throw unboundFailure else pure v.plainHash
  | .tuple id items, hv => by
    have ih := hashItems_plain (show anyMayRunCode items = false by simpa [mayRunCode] using hv)
    simp only [hash, ih, containsUnbound, plainHash]
    by_cases hu : anyContainsUnbound items = true
    · simp [hu]
    · simp [hu]
  | .inst id c payload, hv => by
    simp only [mayRunCode] at hv
    simp [hash, hashInstance_plain h (i := ⟨id, c, payload⟩) hv, containsUnbound, plainHash]
  | .unbound, _ | .none, _ | .bool _, _ | .int _, _ | .float _, _ | .text _, _ | .cell _, _
  | .excType _, _ | .cls _, _ | .exception .., _ | .traceback _, _ | .generator _, _ => by
    simp [hash, containsUnbound, plainHash, unboundFailure]

theorem hashItems_plain : ∀ {items : List Value}, anyMayRunCode items = false →
    hashItems h items =
      if anyContainsUnbound items then throw unboundFailure else pure (plainHashes items)
  | [], _ => by simp [hashItems, anyContainsUnbound, plainHashes]
  | v :: rest, hi => by
    simp only [anyMayRunCode, Bool.or_eq_false_iff] at hi
    have ihv := hash_plain hi.1
    have ihr := hashItems_plain hi.2
    simp only [hashItems, ihv, ihr, anyContainsUnbound, plainHashes]
    by_cases hv : v.containsUnbound = true
    · simp [hv]
    · by_cases hr : anyContainsUnbound rest = true
      · simp [hv, hr]
      · simp [hv, hr]

end

/-- Values that are not both tuples are compared without items, if no hook answers. -/
theorem equals_of_not_tuples {a b : Value} (ha : compareByHook h a b = pure Option.none)
    (hb : compareByHook h b a = pure Option.none)
    (ht : ∀ i xs j ys, a = .tuple i xs → b = .tuple j ys → False) :
    a.equals h b = pure (a.plainEquals b) := by
  rw [equals, ha, hb, plainEquals]
  · simp
  · exact ht
  · exact ht

mutual

theorem equals_plain : ∀ {a b : Value}, a.mayRunCode = false → b.mayRunCode = false →
    a.equals h b = pure (a.plainEquals b)
  | .tuple i xs, b, ha, hb => by
    cases b with
    | tuple j ys =>
      have hx : anyMayRunCode xs = false := by simpa [mayRunCode] using ha
      have hy : anyMayRunCode ys = false := by simpa [mayRunCode] using hb
      have ih := equalsItems_plain hx hy
      simp only [equals, compareByHook_plain h ha, compareByHook_plain h hb, pure_bind, ih,
        plainEquals]
      split
      · rfl
      · rfl
    | _ =>
      exact equals_of_not_tuples h (compareByHook_plain h ha) (compareByHook_plain h hb) (by simp)
  | .unbound, b, ha, hb | .none, b, ha, hb | .bool _, b, ha, hb | .int _, b, ha, hb
  | .float _, b, ha, hb | .text _, b, ha, hb | .cell _, b, ha, hb | .excType _, b, ha, hb
  | .cls _, b, ha, hb | .exception .., b, ha, hb | .inst .., b, ha, hb | .traceback _, b, ha, hb
  | .generator _, b, ha, hb =>
    equals_of_not_tuples h (compareByHook_plain h ha) (compareByHook_plain h hb) (by simp)

theorem equalsItems_plain : ∀ {xs ys : List Value}, anyMayRunCode xs = false →
    anyMayRunCode ys = false →
    equalsItems h xs ys = pure (plainEqualsItems xs ys)
  | x :: xs, y :: ys, hx, hy => by
    simp only [anyMayRunCode, Bool.or_eq_false_iff] at hx hy
    have ih := equals_plain hx.1 hy.1
    have ihs := equalsItems_plain hx.2 hy.2
    simp only [equalsItems, plainEqualsItems, ih, ihs, pure_bind]
    by_cases hi : x.identical y = true
    · simp [hi]
    · by_cases he : x.plainEquals y = true
      · simp [hi, he]
      · simp [hi, he]
  | [], _, _, _ => by simp [equalsItems, plainEqualsItems]
  | _ :: _, [], _, _ => by simp [equalsItems, plainEqualsItems]

end

end

end Value

end Resumable
