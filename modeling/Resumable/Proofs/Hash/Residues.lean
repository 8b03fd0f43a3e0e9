import Mathlib.Data.Nat.ModEq
import Mathlib.Data.Rat.Cast.CharZero
import Mathlib.Tactic.NormNum
import Resumable.Proofs.Binary64.Integers

/-!
# Hashes of floating-point numbers as residues

Modulo `2 ^ 61 - 1` the powers of two repeat every 61 exponents, so `m * 2 ^ e` has a residue for
negative exponents too, and the residue depends on the number alone. Reading a fraction in chunks
computes it, as each step rotates the accumulator, which is multiplication by a power of two. The
conversion of integers computes it as well, but at `2 ^ 63`, which is converted to the integer
below it.
-/

namespace Resumable

namespace Hash

-- ---------------------------------------------------------------------------
-- Residues
-- ---------------------------------------------------------------------------

def residue (m : Nat) (e : Int) : Nat := m * 2 ^ (e % 61).toNat % modulus

theorem modulus_eq : modulus = 2 ^ 61 - 1 := by decide

theorem modulus_pos : 0 < modulus := by decide

theorem residue_lt (m : Nat) (e : Int) : residue m e < modulus := Nat.mod_lt _ modulus_pos

theorem two_pow_add_mul (a k : Nat) : 2 ^ (a + 61 * k) ≡ 2 ^ a [MOD modulus] := by
  have hone : 2 ^ 61 ≡ 1 [MOD modulus] := by decide
  have hpow := (hone.pow k).mul_left (2 ^ a)
  rwa [← pow_mul, ← pow_add, one_pow, mul_one] at hpow

theorem two_pow_congr {a b : Nat} (h : a % 61 = b % 61) : 2 ^ a ≡ 2 ^ b [MOD modulus] := by
  have ha := two_pow_add_mul (a % 61) (a / 61)
  have hb := two_pow_add_mul (b % 61) (b / 61)
  rw [Nat.mod_add_div] at ha hb
  rw [h] at ha
  exact ha.trans hb.symm

theorem residue_mul_two_pow (m k : Nat) (e : Int) :
    residue (m * 2 ^ k) e = residue m (e + k) := by
  have hexp : (k + (e % 61).toNat) % 61 = ((e + k) % 61).toNat % 61 := by omega
  have hpow := (two_pow_congr hexp).mul_left m
  rwa [pow_add, ← mul_assoc] at hpow

/-- The residue is one of the number, however it is written. -/
theorem residue_congr {m l : Nat} {e f : Int} (h : (m : ℚ) * 2 ^ e = l * 2 ^ f) :
    residue m e = residue l f := by
  wlog hef : e ≤ f generalizing m l e f
  · exact (this h.symm (by omega)).symm
  obtain ⟨k, rfl⟩ := Int.le.dest hef
  have hm : m = l * 2 ^ k := by
    rw [zpow_add₀ two_ne_zero, zpow_natCast, mul_comm ((2 : ℚ) ^ e), ← mul_assoc] at h
    exact_mod_cast mul_right_cancel₀ (zpow_ne_zero e two_ne_zero) h
  rw [hm, residue_mul_two_pow]

theorem residue_zero_left (e : Int) : residue 0 e = 0 := by simp [residue]

theorem residue_add_left {m n k : Nat} (h : m ≡ n [MOD modulus]) (e : Int) :
    residue (m + k) e = residue (n + k) e := (h.add_right k).mul_right _

-- ---------------------------------------------------------------------------
-- Rotation within 61 bits
-- ---------------------------------------------------------------------------

theorem toNat_rotated {w k : UInt64} (hw : w.toNat < 2 ^ 61) (hk : k.toNat < 61) :
    (((w <<< k) &&& Fraction.mask) ||| (w >>> (61 - k))).toNat =
      w.toNat % 2 ^ (61 - k.toNat) * 2 ^ k.toNat + w.toNat / 2 ^ (61 - k.toNat) := by
  have hsub : (61 - k).toNat = 61 - k.toNat :=
    UInt64.toNat_sub_of_le _ _ (UInt64.le_iff_toNat_le.mpr (le_of_lt hk))
  have hpow : 2 ^ k.toNat * 2 ^ (61 - k.toNat) = 2 ^ 61 := by
    rw [← pow_add, Nat.add_sub_of_le (le_of_lt hk)]
  have hleft : (w <<< k &&& Fraction.mask).toNat =
      (w.toNat % 2 ^ (61 - k.toNat)) <<< k.toNat := by
    have hmask : Fraction.mask.toNat = 2 ^ 61 - 1 := by decide
    have hdvd : 2 ^ 61 ∣ 2 ^ 64 := pow_dvd_pow 2 (by decide)
    rw [UInt64.toNat_and, hmask, Nat.and_two_pow_sub_one_eq_mod, UInt64.toNat_shiftLeft,
      Nat.mod_mod_of_dvd _ hdvd, Nat.mod_eq_of_lt (show k.toNat < 64 by omega), Nat.shiftLeft_eq,
      Nat.shiftLeft_eq, ← hpow, mul_comm (2 ^ k.toNat) (2 ^ (61 - k.toNat)), Nat.mul_mod_mul_right]
  have hright : (w >>> (61 - k)).toNat = w.toNat / 2 ^ (61 - k.toNat) := by
    rw [UInt64.toNat_shiftRight, hsub, Nat.mod_eq_of_lt (show 61 - k.toNat < 64 by omega),
      Nat.shiftRight_eq_div_pow]
  have hlt : w.toNat / 2 ^ (61 - k.toNat) < 2 ^ k.toNat := by
    rw [Nat.div_lt_iff_lt_mul (Nat.two_pow_pos _), hpow]
    exact hw
  rw [UInt64.toNat_or, hleft, hright, ← Nat.shiftLeft_add_eq_or_of_lt hlt, Nat.shiftLeft_eq]

/-- Rotation is multiplication by a power of two. -/
theorem rotated_modEq {w k : UInt64} (hw : w.toNat < 2 ^ 61) (hk : k.toNat < 61) :
    (((w <<< k) &&& Fraction.mask) ||| (w >>> (61 - k))).toNat ≡
      w.toNat * 2 ^ k.toNat [MOD modulus] := by
  have hpow : 2 ^ (61 - k.toNat) * 2 ^ k.toNat = 2 ^ 61 := by
    rw [← pow_add, Nat.sub_add_cancel (le_of_lt hk)]
  have hone : 2 ^ 61 ≡ 1 [MOD modulus] := by decide
  have hwrap := (hone.mul_right (w.toNat / 2 ^ (61 - k.toNat))).add_left
    (w.toNat % 2 ^ (61 - k.toNat) * 2 ^ k.toNat)
  have hsplit := Nat.mod_add_div w.toNat (2 ^ (61 - k.toNat))
  rw [toNat_rotated hw hk]
  calc w.toNat % 2 ^ (61 - k.toNat) * 2 ^ k.toNat + w.toNat / 2 ^ (61 - k.toNat)
      ≡ w.toNat % 2 ^ (61 - k.toNat) * 2 ^ k.toNat
        + 2 ^ 61 * (w.toNat / 2 ^ (61 - k.toNat)) [MOD modulus] := by simpa using hwrap.symm
    _ = (w.toNat % 2 ^ (61 - k.toNat)
        + 2 ^ (61 - k.toNat) * (w.toNat / 2 ^ (61 - k.toNat))) * 2 ^ k.toNat := by
      rw [← hpow]
      ring
    _ = w.toNat * 2 ^ k.toNat := by rw [hsplit]

theorem rotated_lt {w k : UInt64} (hw : w.toNat < 2 ^ 61) (hk : k.toNat < 61) :
    (((w <<< k) &&& Fraction.mask) ||| (w >>> (61 - k))).toNat < 2 ^ 61 := by
  have hpow : 2 ^ (61 - k.toNat) * 2 ^ k.toNat = 2 ^ 61 := by
    rw [← pow_add, Nat.sub_add_cancel (le_of_lt hk)]
  have hhigh : w.toNat / 2 ^ (61 - k.toNat) < 2 ^ k.toNat := by
    rw [Nat.div_lt_iff_lt_mul (Nat.two_pow_pos _), mul_comm, hpow]
    exact hw
  have hlow := Nat.mod_lt w.toNat (Nat.two_pow_pos (61 - k.toNat))
  have hstep := Nat.mul_le_mul_right (2 ^ k.toNat) (Nat.succ_le_of_lt hlow)
  rw [hpow, Nat.succ_mul] at hstep
  rw [toNat_rotated hw hk]
  omega

/-- A reduced word stays reduced: only the word of all ones rotates to it. -/
theorem rotated_lt_modulus {w k : UInt64} (hw : w.toNat < modulus) (hk : k.toNat < 61) :
    (((w <<< k) &&& Fraction.mask) ||| (w >>> (61 - k))).toNat < modulus := by
  have hw' : w.toNat < 2 ^ 61 := hw.trans (by decide)
  have hlt := rotated_lt hw' hk
  have hmod := rotated_modEq hw' hk
  refine lt_of_le_of_ne (by rw [modulus_eq]; omega) fun heq => ?_
  have hdvd : modulus ∣ w.toNat * 2 ^ k.toNat := by
    rw [heq] at hmod
    exact (Nat.modEq_zero_iff_dvd.mp (hmod.symm.trans (Nat.mod_self modulus)))
  have hcoprime : modulus.Coprime (2 ^ k.toNat) := Nat.Coprime.pow_right _ (by decide)
  have hzero : w.toNat = 0 := Nat.eq_zero_of_dvd_of_lt (hcoprime.dvd_of_dvd_mul_right hdvd) hw
  rw [toNat_rotated hw' hk, hzero] at heq
  simp [modulus] at heq

-- ---------------------------------------------------------------------------
-- Reading a fraction
-- ---------------------------------------------------------------------------

namespace Fraction.State

variable {s : State}

def residue (s : State) : Nat :=
  Hash.residue (s.acc.toNat * 2 ^ s.width + s.rest) (s.exponent - s.width)

theorem width_step (s : State) : s.step.width = s.width := by simp only [step]

theorem exponent_step (s : State) : s.step.exponent = s.exponent - 28 := by simp only [step]

theorem rest_step (s : State) : s.step.rest = s.rest * 2 ^ 28 % 2 ^ s.width := by
  simp only [step, Nat.shiftLeft_eq, one_mul]

structure Reduced (s : State) : Prop where
  acc : s.acc.toNat < modulus
  rest : s.rest < 2 ^ s.width

theorem Reduced.acc_lt (h : s.Reduced) : s.acc.toNat < 2 ^ 61 := by
  have := h.acc
  rw [modulus_eq] at this
  omega

/-- One step multiplies the accumulator by `2 ^ 28` and adds the next chunk. -/
theorem Reduced.acc_step (h : s.Reduced) :
    s.step.acc.toNat < modulus ∧
      s.step.acc.toNat ≡ s.acc.toNat * 2 ^ 28 + s.rest * 2 ^ 28 / 2 ^ s.width [MOD modulus] := by
  obtain ⟨hacc, hrest⟩ := h
  have hacc := Reduced.acc_lt ⟨hacc, hrest⟩
  have hchunk : s.rest * 2 ^ 28 / 2 ^ s.width < 2 ^ 28 := by
    rw [Nat.div_lt_iff_lt_mul (Nat.two_pow_pos _), mul_comm]
    exact Nat.mul_lt_mul_of_pos_left hrest (Nat.two_pow_pos _)
  have hrotated := rotated_lt (k := 28) hacc (by decide)
  have hmod := (rotated_modEq (k := 28) hacc (by decide)).add_right
    (s.rest * 2 ^ 28 / 2 ^ s.width)
  simp only [step, Nat.shiftLeft_eq, Nat.shiftRight_eq_div_pow]
  generalize s.rest * 2 ^ 28 / 2 ^ s.width = chunk at hchunk hmod ⊢
  change _ + chunk ≡ s.acc.toNat * 2 ^ 28 + chunk [MOD modulus] at hmod
  change ((s.acc <<< 28 &&& mask) ||| s.acc >>> 33).toNat < _ at hrotated
  change ((s.acc <<< 28 &&& mask) ||| s.acc >>> 33).toNat + chunk ≡ _ [MOD modulus] at hmod
  generalize (s.acc <<< 28 &&& mask) ||| s.acc >>> 33 = rotated at hrotated hmod ⊢
  have hsum : (rotated + UInt64.ofNat chunk).toNat = rotated.toNat + chunk := by
    rw [UInt64.toNat_add, UInt64.toNat_ofNat']
    omega
  have hmask : mask.toNat = modulus := by decide
  rw [← hsum] at hmod
  split
  · next hge =>
    have hle : modulus ≤ (rotated + UInt64.ofNat chunk).toNat := hmask ▸ UInt64.le_iff_toNat_le.mp hge
    rw [UInt64.toNat_sub_of_le _ _ hge, hmask]
    refine ⟨?_, Nat.ModEq.trans (Nat.mod_eq_sub_mod hle).symm hmod⟩
    rw [modulus_eq]
    omega
  · next hlt =>
    refine ⟨?_, hmod⟩
    have hlt := UInt64.not_le.mp hlt
    exact hmask ▸ UInt64.lt_iff_toNat_lt.mp hlt

theorem Reduced.step (h : s.Reduced) : s.step.Reduced where
  acc := h.acc_step.1
  rest := by
    rw [rest_step, width_step]
    exact Nat.mod_lt _ (Nat.two_pow_pos _)

theorem Reduced.residue_step (h : s.Reduced) : s.step.residue = s.residue := by
  have hacc := h.acc_step.2.mul_right (2 ^ s.width)
  have hsplit := Nat.div_add_mod' (s.rest * 2 ^ 28) (2 ^ s.width)
  have hnext : (s.acc.toNat * 2 ^ 28 + s.rest * 2 ^ 28 / 2 ^ s.width) * 2 ^ s.width
      + s.rest * 2 ^ 28 % 2 ^ s.width = (s.acc.toNat * 2 ^ s.width + s.rest) * 2 ^ 28 := by
    rw [add_mul, add_assoc, hsplit, add_mul, mul_right_comm]
  have hexp : s.exponent - 28 - s.width + (28 : Nat) = s.exponent - s.width := by omega
  rw [residue, rest_step, width_step, exponent_step, residue_add_left hacc, hnext,
    residue_mul_two_pow, hexp, residue]

theorem Reduced.read (h : s.Reduced) (n : Nat) :
    (s.read n).Reduced ∧ (s.read n).residue = s.residue ∧ (s.read n).width = s.width := by
  induction n generalizing s with
  | zero => exact ⟨h, rfl, rfl⟩
  | succ n ih =>
    unfold State.read
    split
    · exact ⟨h, rfl, rfl⟩
    · obtain ⟨hr, hs, hw⟩ := ih h.step
      exact ⟨hr, hs.trans h.residue_step, hw.trans s.width_step⟩

theorem rest_read_two (h : s.width ≤ 56) : (s.read 2).rest = 0 := by
  have hdvd : 2 ^ s.width ∣ s.rest * 2 ^ 28 * 2 ^ 28 := by
    rw [mul_assoc, ← pow_add]
    exact (pow_dvd_pow 2 h).mul_left _
  have htwo : s.step.step.rest = 0 := by
    rw [rest_step, rest_step, width_step, Nat.mod_mul_mod]
    exact Nat.mod_eq_zero_of_dvd hdvd
  have hread : s.read 2 =
      if s.rest = 0 then s else if s.step.rest = 0 then s.step else s.step.step := by
    simp only [read]
  rw [hread]
  split_ifs with hnone hone
  · exact hnone
  · exact hone
  · exact htwo

theorem toNat_exponent (e : Int) : ((e % 61).toNat.toUInt64).toNat = (e % 61).toNat := by
  rw [Nat.toUInt64, UInt64.toNat_ofNat']
  omega

theorem Reduced.result (h : s.Reduced) (hrest : s.rest = 0) : s.result.toNat = s.residue := by
  have hexp := toNat_exponent s.exponent
  have hk : (s.exponent % 61).toNat.toUInt64.toNat < 61 := by omega
  have hmod : s.result.toNat ≡ s.acc.toNat * 2 ^ (s.exponent % 61).toNat [MOD modulus] := by
    have hrotated := rotated_modEq h.acc_lt hk
    rwa [hexp] at hrotated
  have hlt : s.result.toNat < modulus := rotated_lt_modulus h.acc hk
  calc s.result.toNat
      = s.acc.toNat * 2 ^ (s.exponent % 61).toNat % modulus :=
        (Nat.mod_eq_of_lt hlt).symm.trans hmod
    _ = Hash.residue s.acc.toNat (s.exponent - s.width + s.width) := by
      rw [sub_add_cancel, Hash.residue]
    _ = s.residue := by rw [← residue_mul_two_pow, residue, hrest, add_zero]

end Fraction.State

end Hash

end Resumable
