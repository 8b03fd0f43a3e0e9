import Resumable.Proofs.Value.Plain

/-!
# Hooks that only answer

A hook without effects gives one answer for the same operands, always. An instance whose hooks are
of this kind is hashed and compared as a value that runs no code is, but by the answers.
-/

namespace Resumable

structure PureHooks where
  hash : Layer → Instance → UInt64
  compare : Layer → Instance → Value → Bool

namespace PureHooks

variable (p : PureHooks)

def compare? : Value → Value → Option Bool
  | .inst id c payload, other =>
    c.equalityLayer?.map fun layer => p.compare layer ⟨id, c, payload⟩ other
  | _, _ => none

def equals (a b : Value) : Bool := ((p.compare? a b).or (p.compare? b a)).getD (a.plainEquals b)

def hashOf : Value → UInt64
  | .inst id c payload =>
    match c.hashLayer? with
    | some layer => p.hash layer ⟨id, c, payload⟩
    | none => (Value.inst id c payload).plainHash
  | v => v.plainHash

section

variable {m : Type → Type} [Monad m] (h : Hooks m)

/-- The instance has a hash hook, and the hooks it has do nothing but answer. -/
structure Answers (i : Instance) : Prop where
  hashes : i.cls.hashLayer?.isSome
  hash : ∀ layer, i.cls.hashLayer? = some layer → h.hash layer i = pure (.ok (p.hash layer i))
  compare : ∀ layer, i.cls.equalityLayer? = some layer → ∀ other,
    h.compare layer i other = pure (.ok (p.compare layer i other))

def hooks : Hooks m :=
  { Hooks.unused with
    hash := fun layer i => pure (.ok (p.hash layer i))
    compare := fun layer i other => pure (.ok (p.compare layer i other)) }

theorem answers_hooks {i : Instance} (hi : i.cls.hashLayer?.isSome) :
    p.Answers (p.hooks (m := m)) i := ⟨hi, fun _ _ => rfl, fun _ _ _ => rfl⟩

/-- The value runs no code, or is an instance whose hooks do nothing but answer. -/
def Settled (v : Value) : Prop :=
  v.mayRunCode = false ∨ ∃ i : Instance, v = i.value ∧ p.Answers h i

variable {p h} {a b v : Value}

theorem compare?_plain (ha : a.mayRunCode = false) : p.compare? a b = none := by
  cases a with
  | inst id c payload =>
    simp only [Value.mayRunCode, Class.hasHooks, Bool.or_eq_false_iff,
      Option.isSome_eq_false_iff, Option.isNone_iff_eq_none] at ha
    simp [compare?, ha.2]
  | _ => rfl

theorem compareByHook_settled [LawfulMonad m] (ha : p.Settled h a) (b : Value) :
    Value.compareByHook h a b = pure (p.compare? a b) := by
  obtain ha | ⟨i, rfl, hi⟩ := ha
  · rw [Value.compareByHook_plain h ha, compare?_plain ha]
  · cases he : i.cls.equalityLayer? with
    | none => simp [Instance.value, Value.compareByHook, compare?, he]
    | some layer =>
      have hc : (ExceptT.mk (h.compare layer i b) : ExceptT Failure m Bool) =
          pure (p.compare layer i b) := by rw [hi.compare layer he b]; rfl
      simp only [Instance.value, Value.compareByHook, compare?, he, Option.map_some]
      rw [hc, pure_bind]

theorem hash_settled [LawfulMonad m] (hv : p.Settled h v) :
    v.hash h =
      if v.containsUnbound then throw Value.unboundFailure else pure (p.hashOf v) := by
  obtain hv | ⟨i, rfl, hi⟩ := hv
  · rw [Value.hash_plain h hv]
    cases v with
    | inst id c payload =>
      simp only [Value.mayRunCode, Class.hasHooks, Bool.or_eq_false_iff,
        Option.isSome_eq_false_iff, Option.isNone_iff_eq_none] at hv
      simp [hashOf, hv.1]
    | _ => rfl
  · obtain ⟨layer, hl⟩ := Option.isSome_iff_exists.mp hi.hashes
    have hh : (ExceptT.mk (h.hash layer i) : ExceptT Failure m UInt64) =
        pure (p.hash layer i) := by rw [hi.hash layer hl]; rfl
    simp only [Instance.value, Value.hash, Value.hashInstance, hashOf, hl,
      Value.containsUnbound]
    exact hh

theorem equals_plain (ha : a.mayRunCode = false) (hb : b.mayRunCode = false) :
    p.equals a b = a.plainEquals b := by
  rw [equals, compare?_plain ha, compare?_plain hb]
  rfl

/-- If one operand is no tuple, the first hook that there is answers. -/
theorem equals_of_not_tuples [LawfulMonad m] (ha : p.Settled h a) (hb : p.Settled h b)
    (ht : ∀ i xs j ys, a = .tuple i xs → b = .tuple j ys → False) :
    a.equals h b = pure (p.equals a b) := by
  have hab := compareByHook_settled ha b
  have hba := compareByHook_settled hb a
  rw [equals]
  cases hca : p.compare? a b with
  | some answer =>
    rw [Value.equals, hab, hca]
    · simp
    · exact ht
  | none =>
    cases hcb : p.compare? b a with
    | some answer =>
      rw [Value.equals, hab, hba, hca, hcb]
      · simp
      · exact ht
    | none =>
      rw [hca] at hab
      rw [hcb] at hba
      exact Value.equals_of_not_tuples h hab hba ht

theorem equals_settled [LawfulMonad m] (ha : p.Settled h a) (hb : p.Settled h b) :
    a.equals h b = pure (p.equals a b) := by
  obtain hpa | ⟨i, rfl, -⟩ := id ha
  · obtain hpb | ⟨i, rfl, -⟩ := id hb
    · rw [Value.equals_plain h hpa hpb, equals_plain hpa hpb]
    · exact equals_of_not_tuples ha hb (by simp [Instance.value])
  · exact equals_of_not_tuples ha hb (by simp [Instance.value])

end

end PureHooks

end Resumable
