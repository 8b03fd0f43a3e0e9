import Mathlib.Tactic.Linarith
import Resumable.Proofs.Binary64.Values
import Resumable.Proofs.Hash.Residues

/-!
# The hash of a floating-point number

The hash of a finite number is the residue of its value, with the sign of the number, and with
`-1` moved out of the way. The only exception is `2 ^ 63`: it is hashed as the greatest 64-bit
integer, which is one less. The chunk by chunk reading would hash that number too as it should be.
-/

namespace Resumable

def Binary64.twoPow63 : Binary64 := ⟨0x43E0000000000000⟩

theorem Binary64.lt_of_finite {x : Binary64} {s : Bool} {m : Nat} {e : Int}
    (h : x.view = .finite s m e) : m < 2 ^ 53 := by
  have hbit : leadingBit = 2 ^ 52 := by decide
  obtain ⟨hm, -⟩ | ⟨-, hm, -⟩ := view_finite h <;> omega

namespace Hash

-- ---------------------------------------------------------------------------
-- Integers and fractions
-- ---------------------------------------------------------------------------

theorem signed_word {n : Int} (hl : -2 ^ 63 ≤ n) (hu : n < 2 ^ 63) : signed (word n) = n := by
  have hbits : (word n).toBitVec = BitVec.ofInt 64 n := by
    apply BitVec.eq_of_toNat_eq
    rw [BitVec.toNat_ofInt]
    change (UInt64.ofNat (n % 2 ^ 64).toNat).toNat = _
    rw [UInt64.toNat_ofNat']
    omega
  have hword : (word n).toInt64 = Int64.ofInt n := by
    rw [Int64.ofInt, ← hbits]
    rfl
  rw [signed, hword]
  exact Int64.toInt_ofInt_of_le hl hu

theorem signedOfInt_sign (negative : Bool) (k : Nat) :
    signedOfInt (sign negative * k) = avoidReserved (sign negative * (k % modulus : Nat)) := by
  have habs : (sign negative * k).natAbs = k := by cases negative <;> simp [sign]
  simp only [signedOfInt, habs]
  congr 1
  cases negative with
  | false => simp [sign]
  | true =>
    cases k with
    | zero => rfl
    | succ k =>
      have hneg : sign true * ((k + 1 : Nat) : Int) < 0 := by
        simp only [sign, if_true]
        omega
      rw [if_pos hneg]
      simp [sign]

theorem Fraction.State.ofScaled_reduced {m : Nat} (hm : m < 2 ^ 53) (e : Int) :
    (ofScaled m e).Reduced ∧ (ofScaled m e).residue = Hash.residue m e := by
  have hlength : m.log2 + 1 ≤ 53 := by
    by_cases hz : m = 0
    · subst hz
      decide
    · exact (Nat.log2_lt hz).mpr hm
  have hrest : m * 2 ^ (53 - (m.log2 + 1)) < 2 ^ 53 := by
    calc m * 2 ^ (53 - (m.log2 + 1))
        < 2 ^ (m.log2 + 1) * 2 ^ (53 - (m.log2 + 1)) :=
          Nat.mul_lt_mul_of_pos_right Nat.lt_log2_self (Nat.two_pow_pos _)
      _ = 2 ^ 53 := by rw [← pow_add, Nat.add_sub_of_le hlength]
  have hexp : e + (m.log2 + 1 : Nat) - (53 : Nat) + (53 - (m.log2 + 1) : Nat) = e := by omega
  refine ⟨⟨modulus_pos, ?_⟩, ?_⟩
  · simpa only [ofScaled, Nat.shiftLeft_eq] using hrest
  · simp only [residue, ofScaled, Nat.shiftLeft_eq]
    rw [UInt64.toNat_zero, zero_mul, zero_add, residue_mul_two_pow, hexp]

/-- Reading in chunks computes the residue of any number with 53 significant bits. -/
theorem signedOfScaled_sign {m : Nat} (hm : m < 2 ^ 53) (negative : Bool) (e : Int) :
    signedOfScaled negative m e = avoidReserved (sign negative * residue m e) := by
  obtain ⟨hreduced, hresidue⟩ := Fraction.State.ofScaled_reduced hm e
  obtain ⟨hread, hkept, -⟩ := hreduced.read 2
  have hresult := hread.result (Fraction.State.rest_read_two (by decide : 53 ≤ 56))
  have hlt : (residue m e : Int) < modulus := by exact_mod_cast residue_lt m e
  have htmod : Int.tmod (residue m e) modulus = residue m e :=
    Int.tmod_eq_of_lt (Int.natCast_nonneg _) hlt
  simp only [signedOfScaled]
  rw [hresult, hkept, hresidue]
  cases negative with
  | false => simp [sign, htmod]
  | true => simp [sign, Int.neg_tmod, htmod]

-- ---------------------------------------------------------------------------
-- Finite numbers
-- ---------------------------------------------------------------------------

variable {x : Binary64}

theorem eq_twoPow63 (h : x.integer? = some (2 ^ 63)) : x = .twoPow63 :=
  Binary64.eq_of_integer? h (by decide +kernel) (by decide)

theorem signedOfBinary64_twoPow63 : signedOfBinary64 .twoPow63 = 3 := by decide +kernel

theorem residue_of_scaled? {m k : Nat} {e : Int} (h : Binary64.scaled? m e = some k) :
    residue m e = k % modulus := by
  have hspec := Binary64.scaled?_spec (d := (-e).toNat) (by omega) h
  have hk : residue (k * 2 ^ (-e).toNat) (-(-e).toNat) = k % modulus := by
    rw [residue_mul_two_pow]
    simp [residue]
  rw [← hk, hspec, residue_mul_two_pow]
  congr 1
  omega

theorem signedOfBinary64_finite {s : Bool} {m : Nat} {e : Int} (hv : x.view = .finite s m e)
    (hx : x ≠ .twoPow63) : signedOfBinary64 x = avoidReserved (sign s * residue m e) := by
  have hscaled := signedOfScaled_sign (Binary64.lt_of_finite hv) s e
  rw [signedOfBinary64, hv]
  dsimp only
  split
  · next n hn =>
    obtain ⟨s', m', e', k, hv', hk, rfl⟩ := Binary64.integer?_eq_some hn
    obtain ⟨rfl, rfl, rfl⟩ : s = s' ∧ m = m' ∧ e = e' := by simpa using hv.symm.trans hv'
    have hsign : (if s then -(k : Int) else k) = sign s * k := by cases s <;> simp [sign]
    rw [hsign] at hn ⊢
    split
    · next hr =>
      have hmax : Int64.maxValue.toInt = 2 ^ 63 - 1 := by decide
      have hne : sign s * k ≠ 2 ^ 63 := fun he => hx (eq_twoPow63 (he ▸ hn))
      rw [min_eq_left (by omega), signedOfInt_sign, residue_of_scaled? hk]
    · exact hscaled
  · exact hscaled

theorem sign_mul_residue {s s' : Bool} {m m' : Nat} {e e' : Int}
    (h : (sign s * m * 2 ^ e : ℚ) = sign s' * m' * 2 ^ e') :
    sign s * (residue m e : Int) = sign s' * residue m' e' := by
  by_cases hs : s = s'
  · subst hs
    have hne : (sign s : ℚ) ≠ 0 := by cases s <;> simp [sign]
    rw [mul_assoc, mul_assoc] at h
    rw [residue_congr (mul_left_cancel₀ hne h)]
  · have hpos : ∀ (l : Nat) (f : Int), (0 : ℚ) ≤ l * 2 ^ f := fun l f =>
      mul_nonneg (Nat.cast_nonneg l) (zpow_nonneg two_pos.le f)
    have hzero : ∀ (l : Nat) (f : Int), (l : ℚ) * 2 ^ f = 0 → l = 0 := fun l f hl => by
      exact_mod_cast (mul_eq_zero.mp hl).resolve_right (zpow_ne_zero f two_ne_zero)
    have hopp : (sign s' : ℚ) = -sign s := by cases s <;> cases s' <;> simp_all [sign]
    have hboth : (m : ℚ) * 2 ^ e = 0 ∧ (m' : ℚ) * 2 ^ e' = 0 := by
      have hm := hpos m e
      have hm' := hpos m' e'
      rw [hopp, mul_assoc, mul_assoc] at h
      constructor <;> cases s <;> simp [sign] at h <;> linarith
    rw [hzero m e hboth.1, hzero m' e' hboth.2, residue_zero_left, residue_zero_left]
    simp

theorem range_avoidReserved (s : Bool) (m : Nat) (e : Int) :
    (-2 ^ 63 : Int) ≤ avoidReserved (sign s * residue m e) ∧
      avoidReserved (sign s * residue m e) < 2 ^ 63 := by
  have hlt := residue_lt m e
  rw [modulus_eq] at hlt
  unfold avoidReserved
  cases s <;> simp only [sign] <;> split <;> omega

/-- The hash of every bit pattern. A finite number is hashed as the residue of its value, however
that is written as a signed natural number times a power of two, unless it is `2 ^ 63`. -/
theorem signed_ofBinary64 (x : Binary64) :
    match x.view with
    | .nan => signed (ofBinary64 x) = 0
    | .infinite negative => signed (ofBinary64 x) = if negative then -314159 else 314159
    | .finite s l f =>
      (∀ (negative : Bool) (m : Nat) (e : Int), x.value? = some (sign negative * m * 2 ^ e : ℚ) →
        (signed (ofBinary64 x) = avoidReserved (sign negative * residue m e) ↔ x ≠ .twoPow63)) ∧
      -- Two steps read all of the fraction, and after any number of them the word is reduced.
      ((Fraction.State.ofScaled l f).read 2).rest = 0 ∧
      (∀ k, ((Fraction.State.ofScaled l f).read k).acc.toNat < modulus) ∧
      signedOfScaled s l f = avoidReserved (sign s * residue l f) := by
  split
  · next hv =>
    rw [ofBinary64, signedOfBinary64, hv]
    dsimp only
    exact signed_word (by decide) (by decide)
  · next negative hv =>
    rw [ofBinary64, signedOfBinary64, hv]
    dsimp only
    cases negative <;> exact signed_word (by decide) (by decide)
  · next s l f hv =>
    have hl := Binary64.lt_of_finite hv
    obtain ⟨hreduced, -⟩ := Fraction.State.ofScaled_reduced hl f
    refine ⟨fun negative m e hvalue => ?_, Fraction.State.rest_read_two (by decide : 53 ≤ 56),
      fun k => (hreduced.read k).1.acc, signedOfScaled_sign hl s f⟩
    have hsame : sign s * (residue l f : Int) = sign negative * residue m e := by
      refine sign_mul_residue (Option.some.inj (Eq.trans ?_ hvalue))
      rw [Binary64.value?, hv]
    obtain ⟨hlow, hhigh⟩ := range_avoidReserved negative m e
    constructor
    · rintro heq rfl
      obtain ⟨rfl, rfl, rfl⟩ : false = s ∧ 2 ^ 52 = l ∧ 11 = f := by
        simpa using (show Binary64.twoPow63.view = .finite false (2 ^ 52) 11 by decide).symm.trans hv
      rw [← hsame, ofBinary64, signedOfBinary64_twoPow63] at heq
      exact absurd heq (by decide +kernel)
    · intro hx
      rw [ofBinary64, signedOfBinary64_finite hv hx, hsame, signed_word hlow hhigh]

theorem signed_ofBinary64_twoPow63 :
    Binary64.twoPow63.value? = some (sign false * (1 : Nat) * 2 ^ (63 : Int) : ℚ) ∧
      signed (ofBinary64 .twoPow63) ≠ avoidReserved (sign false * residue 1 63) ∧
      avoidReserved (sign false * residue 1 63) = 4 ∧ signed (ofBinary64 .twoPow63) = 3 := by
  have hview : Binary64.twoPow63.view = .finite false (2 ^ 52) 11 := by decide
  have hvalue : Binary64.twoPow63.value? = some (sign false * (1 : Nat) * 2 ^ (63 : Int) : ℚ) := by
    rw [Binary64.value?, hview]
    norm_num [sign]
  have hhash := signed_ofBinary64 .twoPow63
  rw [hview] at hhash
  refine ⟨hvalue, fun heq => ?_, by decide +kernel, by decide +kernel⟩
  exact (hhash.1 false 1 63 hvalue).mp heq rfl

end Hash

end Resumable
