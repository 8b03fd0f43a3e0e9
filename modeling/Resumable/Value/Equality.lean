import Resumable.Value.Hooks

/-!
# Equality of values

Numbers are compared by exact value across their types, texts by characters, tuples item by item
where identical items need no comparison, all else by identity. An instance whose class declares
an equality hook is compared by that hook instead, the left operand before the right one.
-/

namespace Resumable.Value

variable {m : Type → Type} [Monad m]

def compareByHook (h : Hooks m) : Value → Value → ExceptT Failure m (Option Bool)
  | .inst id c payload, other =>
    match c.equalityLayer? with
    | some layer => do
      let answer ← ExceptT.mk (h.compare layer ⟨id, c, payload⟩ other)
      return some answer
    | Option.none => pure Option.none
  | _, _ => pure Option.none

/-- Equality of two values that are not both tuples and have no hooks. -/
def equalsPlain : Value → Value → Bool
  | .text a, .text b => a.text == b.text
  | .float x, .float y => x.equals y
  | .float x, v | v, .float x => v.asInt.any x.equalsInt
  | a, b =>
    match a.asInt, b.asInt with
    | some i, some j => i == j
    | _, _ => a.identical b

mutual

def equals (h : Hooks m) : Value → Value → ExceptT Failure m Bool
  | a, b => do
    if let some answer ← compareByHook h a b then return answer
    if let some answer ← compareByHook h b a then return answer
    match a, b with
    | .tuple _ xs, .tuple _ ys =>
      if xs.length = ys.length then equalsItems h xs ys else return false
    | a, b => return a.equalsPlain b

def equalsItems (h : Hooks m) : List Value → List Value → ExceptT Failure m Bool
  | x :: xs, y :: ys => do
    if x.identical y then equalsItems h xs ys
    else
      let same ← x.equals h y
      if same then equalsItems h xs ys else return false
  | _, _ => pure true

end

end Resumable.Value
