import Resumable.Proofs.Value.Canonical
import Resumable.Run.Answer

/-!
# Equal values hash alike

A program that compares two values without hooks and hashes them gets one hash if it was told that
they are equal: wherever, in whatever context and at whatever time it asks.
-/

namespace Resumable

variable {σ : Type}

namespace Host

def inert : Host σ where
  body _ := .done (.ok (.returns .none))
  hash _ _ := .done (.ok 0)
  compare _ _ _ := .done (.ok false)
  construct _ _ _ := .done (.ok .none)

variable (host : Host σ) (n : Nat) (c : Ref .context)

theorem answer_equals_plain {a b : Value} (ha : a.mayRunCode = false) (hb : b.mayRunCode = false) :
    host.answer (n + 1) c (.equals a b) = pure (.ok (a.plainEquals b)) := by
  simp only [answer, Engine.answer, Engine.equals, Value.equals_plain _ ha hb]
  rfl

theorem answer_hash_plain {v : Value} (hv : v.mayRunCode = false) :
    host.answer (n + 1) c (.hash v) =
      pure (if v.containsUnbound then .error Value.unboundFailure else .ok v.plainHash) := by
  simp only [answer, Engine.answer, Engine.hash, Value.hash_plain _ hv]
  split
  · rfl
  · rfl

variable {host n c}

theorem equals_of_answer {a b : Value} {w w' : World σ} {same : Bool} (ha : a.mayRunCode = false)
    (hb : b.mayRunCode = false)
    (h : (host.answer n c (.equals a b)).run w = some (.ok same, w')) : a.plainEquals b = same := by
  cases n with
  | zero => cases h
  | succ n =>
    rw [answer_equals_plain host n c ha hb] at h
    cases h
    rfl

theorem hash_of_answer {v : Value} {w w' : World σ} {x : UInt64} (hv : v.mayRunCode = false)
    (h : (host.answer n c (.hash v)).run w = some (.ok x, w')) : x = v.plainHash := by
  cases n with
  | zero => cases h
  | succ n =>
    rw [answer_hash_plain host n c hv] at h
    split at h
    · cases h
    · cases h
      rfl

end Host

/-- Values that run no code have one hash if they are equal. An identity is taken to belong to one
object, so that texts and tuples with one identity have the same contents. -/
theorem hash_eq_of_equals (host : Host σ) (o : Objects) {a b : Value}
    (ha : a.mayRunCode = false) (hb : b.mayRunCode = false) (hao : a.In o) (hbo : b.In o)
    {n k m : Nat} {c d e : Ref .context} {w w' u u' v v' : World σ} {x y : UInt64}
    (heq : (host.answer n c (.equals a b)).run w = some (.ok true, w'))
    (hx : (host.answer k d (.hash a)).run u = some (.ok x, u'))
    (hy : (host.answer m e (.hash b)).run v = some (.ok y, v')) : x = y := by
  have hsame : a.sameKey b = true := by
    rw [Value.sameKey, Host.equals_of_answer ha hb heq, Bool.or_true]
  calc
    x = a.plainHash := Host.hash_of_answer ha hx
    _ = b.plainHash := Value.plainHash_of_sameKey hao hbo hsame
    _ = y := (Host.hash_of_answer hb hy).symm

namespace Value

def integerItems : Value :=
  .tuple 0 [.int 1, .float ⟨0x7FF8000000000000⟩, .tuple 1 [.text ⟨2, "x"⟩, .bool false], .int 0]

def floatItems : Value :=
  .tuple 3 [.float ⟨0x3FF0000000000000⟩, .float ⟨0x7FF8000000000000⟩,
    .tuple 4 [.text ⟨5, "x"⟩, .float ⟨0⟩], .float ⟨0x8000000000000000⟩]

def itemObjects : Objects where
  text _ := "x"
  items
    | 0 => [.int 1, .float ⟨0x7FF8000000000000⟩, .tuple 1 [.text ⟨2, "x"⟩, .bool false], .int 0]
    | 1 => [.text ⟨2, "x"⟩, .bool false]
    | 3 => [.float ⟨0x3FF0000000000000⟩, .float ⟨0x7FF8000000000000⟩,
        .tuple 4 [.text ⟨5, "x"⟩, .float ⟨0⟩], .float ⟨0x8000000000000000⟩]
    | _ => [.text ⟨5, "x"⟩, .float ⟨0⟩]

end Value

open Value in
theorem hash_eq_of_equals_items :
    integerItems.mayRunCode = false ∧ floatItems.mayRunCode = false ∧
    integerItems.In itemObjects ∧ floatItems.In itemObjects ∧
    (Host.inert.answer 1 ⟨0⟩ (.equals integerItems floatItems)).run (.initial ()) =
      some (.ok true, .initial ()) ∧
    (Host.inert.answer 1 ⟨0⟩ (.hash integerItems)).run (.initial ()) =
      some (.ok integerItems.plainHash, .initial ()) ∧
    (Host.inert.answer 1 ⟨0⟩ (.hash floatItems)).run (.initial ()) =
      some (.ok floatItems.plainHash, .initial ()) ∧
    integerItems.plainHash = floatItems.plainHash := by
  have hequal : integerItems.plainEquals floatItems = true := by decide +kernel
  have ha : integerItems.In itemObjects := by
    simp [integerItems, itemObjects, In, AllIn]
  have hb : floatItems.In itemObjects := by
    simp [floatItems, itemObjects, In, AllIn]
  have heq : (Host.inert.answer 1 ⟨0⟩ (.equals integerItems floatItems)).run (.initial ()) =
      some (.ok true, .initial ()) := by
    rw [Host.answer_equals_plain _ _ _ rfl rfl, hequal]
    rfl
  exact ⟨rfl, rfl, ha, hb, heq, rfl, rfl,
    hash_eq_of_equals .inert itemObjects rfl rfl ha hb heq
      (show (Host.inert.answer 1 ⟨0⟩ (.hash integerItems)).run (.initial ()) = _ from rfl)
      (show (Host.inert.answer 1 ⟨0⟩ (.hash floatItems)).run (.initial ()) = _ from rfl)⟩

end Resumable
