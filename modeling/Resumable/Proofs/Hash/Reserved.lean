import Resumable.Proofs.Hash.Floats
import Resumable.Run.Answer

/-!
# The reserved hash

The word of `-1` is kept free of hashes. The hashes of scalars and texts avoid it by moving to `-2`,
that of a sequence by taking another word, and an address is rotated to a word whose highest bits
are zero. Only the answer of a hash hook is taken as it is: an instance has the reserved hash
exactly if its hook says so, and nothing else ever has, whatever it contains.
-/

namespace Resumable

variable {σ : Type}

namespace Hash

-- ---------------------------------------------------------------------------
-- Hashes by content
-- ---------------------------------------------------------------------------

theorem word_ne_reserved {n : Int} (hn : n ≠ -1) (hl : -2 ^ 63 ≤ n) (hu : n < 2 ^ 63) :
    word n ≠ reserved := by
  intro h
  have hsigned : signed reserved = -1 := by decide
  rw [← h, signed_word hl hu] at hsigned
  exact hn hsigned

theorem word_avoidReserved_ne {n : Int} (hl : -2 ^ 63 ≤ n) (hu : n < 2 ^ 63) :
    word (avoidReserved n) ≠ reserved := by
  refine word_ne_reserved (avoidReserved_ne n) ?_ ?_ <;> unfold avoidReserved <;> split <;> omega

theorem ofInt_ne_reserved (n : Int) : ofInt n ≠ reserved := by
  have hmod : n.natAbs % modulus < 2 ^ 61 - 1 := modulus_eq ▸ Nat.mod_lt _ modulus_pos
  apply word_avoidReserved_ne <;> split <;> omega

theorem word_signed_ne (w : UInt64) : word (avoidReserved (signed w)) ≠ reserved :=
  word_avoidReserved_ne w.toInt64.minValue_le_toInt w.toInt64.toInt_lt

theorem signedOfScaled_ne_reserved (negative : Bool) (m : Nat) (e : Int) :
    word (signedOfScaled negative m e) ≠ reserved := by
  have hpos : (0 : Int) < modulus := by decide
  have hmax : (modulus : Int) ≤ 2 ^ 63 := by decide
  apply word_avoidReserved_ne
  · exact (Int.neg_le_neg hmax).trans (Int.lt_tmod_of_pos _ hpos).le
  · exact (Int.tmod_lt_of_pos _ hpos).trans_le hmax

theorem ofBinary64_ne_reserved (x : Binary64) : ofBinary64 x ≠ reserved := by
  rw [ofBinary64, signedOfBinary64]
  split
  · decide
  · next negative _ => cases negative <;> decide
  · next negative m e _ =>
    split
    · split
      · exact ofInt_ne_reserved _
      · exact signedOfScaled_ne_reserved negative m e
    · exact signedOfScaled_ne_reserved negative m e

theorem ofText_ne_reserved (text : String) : ofText text ≠ reserved := by
  unfold ofText
  split
  · decide
  · exact word_signed_ne _

theorem ofItems_ne_reserved (items : List UInt64) : ofItems items ≠ reserved := by
  unfold ofItems Tuple.finish
  dsimp only
  split
  · decide
  · next h => exact h

/-- A word that ends in four zeros is rotated to one that begins with them. -/
theorem rotateRight_ne_reserved {w : UInt64} (hw : w.toNat % 16 = 0) :
    rotateRight w 4 ≠ reserved := by
  have hlt := w.toNat_lt
  have hshift : (64 : UInt64) - 4 = 60 := by decide
  have hleft : w <<< 60 = 0 := by
    rw [← UInt64.toNat_inj, UInt64.toNat_shiftLeft, Nat.shiftLeft_eq]
    change w.toNat * 2 ^ 60 % 2 ^ 64 = 0
    omega
  have hright : (w >>> 4).toNat = w.toNat / 16 := by
    rw [UInt64.toNat_shiftRight, Nat.shiftRight_eq_div_pow]
    rfl
  have hreserved : reserved.toNat = 2 ^ 64 - 1 := by decide
  intro h
  rw [rotateRight, hshift, hleft, UInt64.or_zero] at h
  rw [h, hreserved] at hright
  omega

end Hash

theorem Address.hash_ne_reserved (row column : Nat) :
    Address.hash (place row column) ≠ Hash.reserved := by
  apply Hash.rotateRight_ne_reserved
  rw [UInt64.toNat_ofNat', place]
  omega

-- ---------------------------------------------------------------------------
-- Hashes of values
-- ---------------------------------------------------------------------------

namespace Engine

variable {e : Engine σ} {c : Ref .context} {w w' : World σ} {x : UInt64}

theorem hash_ne_reserved {v : Value}
    (hv : ∀ i : Instance, v = i.value → i.cls.hashLayer? = none)
    (h : (e.hash c v).run w = some (.ok x, w')) : x ≠ Hash.reserved := by
  rw [hash] at h
  cases v with
  | unbound => cases h
  | none =>
    cases h
    decide
  | bool | int =>
    cases h
    exact Hash.ofInt_ne_reserved _
  | float x =>
    cases h
    exact Hash.ofBinary64_ne_reserved x
  | text | excType =>
    cases h
    exact Hash.ofText_ne_reserved _
  | tuple id items =>
    rw [Value.hash, ExceptT.run_bind, StateT.run_bind] at h
    obtain ⟨⟨hashes | _, v⟩, -, hr⟩ := Option.bind_eq_some_iff.mp h
    · cases hr
    · cases hr
      exact Hash.ofItems_ne_reserved _
  | inst id cls payload =>
    have hl := hv ⟨id, cls, payload⟩ rfl
    rw [Value.hash, Value.hashInstance, hl] at h
    cases hq : cls.equalityLayer? with
    | none =>
      rw [hq] at h
      cases h
      exact Address.hash_ne_reserved _ _
    | some layer =>
      rw [hq] at h
      cases h
  | cell | cls | exception | traceback | generator =>
    cases h
    exact Address.hash_ne_reserved _ _

theorem hash_instance {i : Instance} {layer : Layer} (hl : i.cls.hashLayer? = some layer) :
    e.hash c i.value = e.performHook c (e.host.hash layer i) := by
  simp only [hash, Instance.value, Value.hash, Value.hashInstance, hl]
  rfl

end Engine

/-- A value hashes to the reserved word exactly if it is an instance with a hash hook and that is
the answer of the hook. -/
theorem hash_reserved_iff (host : Host σ) (n : Nat) (c : Ref .context) (v : Value)
    (w w' : World σ) :
    (host.answer (n + 1) c (.hash v)).run w = some (.ok Hash.reserved, w') ↔
      ∃ (i : Instance) (layer : Layer), v = i.value ∧ i.cls.hashLayer? = some layer ∧
        (Engine.performHook ⟨host, host.answer n⟩ c (host.hash layer i)).run w =
          some (.ok Hash.reserved, w') := by
  change (Engine.hash ⟨host, host.answer n⟩ c v).run w = _ ↔ _
  constructor
  · intro h
    by_contra hne
    refine Engine.hash_ne_reserved ?_ h rfl
    rintro i rfl
    cases hl : i.cls.hashLayer? with
    | none => rfl
    | some layer =>
      rw [Engine.hash_instance hl] at h
      exact absurd ⟨i, layer, rfl, hl, h⟩ hne
  · rintro ⟨i, layer, rfl, hl, h⟩
    rwa [Engine.hash_instance hl]

def Host.hashingToReserved : Host Unit where
  body _ := .done (.ok (.returns .none))
  hash _ _ := .done (.ok Hash.reserved)
  compare _ _ _ := .done (.ok false)
  construct _ _ _ := .done (.ok .none)

def hashedInstance : Instance := ⟨1, .root ⟨2, "Hashed", true, false, false⟩, .none⟩

theorem hash_reserved_by_hook :
    (Host.hashingToReserved.answer 1 ⟨0⟩ (.hash hashedInstance.value)).run (.initial ()) =
      some (.ok Hash.reserved, .initial ()) ∧
    ∀ w', (Host.hashingToReserved.answer 1 ⟨0⟩ (.hash (.tuple 3 [hashedInstance.value]))).run
      (.initial ()) ≠ some (.ok Hash.reserved, w') := by
  refine ⟨?_, fun w' h => ?_⟩
  · exact (hash_reserved_iff ..).mpr ⟨hashedInstance, hashedInstance.cls.layer, rfl, rfl, rfl⟩
  · obtain ⟨i, layer, hi, -⟩ := (hash_reserved_iff ..).mp h
    cases hi

end Resumable
