import Mathlib.Data.Rat.Cast.CharZero
import Mathlib.Tactic.NormNum
import Mathlib.Tactic.Positivity
import Resumable.Proofs.Binary64.Integers

/-!
# Exact values of floating-point numbers

A finite number stands for a rational number. It is taken for an integer exactly if that is its
value, and converting it to 64 bits loses nothing exactly if it is found to be a 64-bit integer
before.
-/

namespace Resumable

def sign (negative : Bool) : Int := if negative then -1 else 1

theorem sign_mul (negative : Bool) (n : Int) :
    sign negative * n = if negative then -n else n := by
  cases negative <;> simp [sign]

namespace Binary64

/-- The exact value of a number that has one. -/
def value? (x : Binary64) : Option ℚ :=
  match x.view with
  | .finite negative m e => some (sign negative * m * 2 ^ e)
  | _ => none

theorem scaled?_iff {m k : Nat} {e : Int} : scaled? m e = some k ↔ (m : ℚ) * 2 ^ e = k := by
  obtain he | he := le_or_gt 0 e
  · obtain ⟨j, rfl⟩ := Int.eq_ofNat_of_zero_le he
    simp only [scaled?, if_pos he, Int.toNat_natCast, Nat.shiftLeft_eq, Option.some_inj,
      zpow_natCast]
    norm_cast
  · obtain ⟨j, hj⟩ := Int.eq_ofNat_of_zero_le (show 0 ≤ -e by omega)
    have hdiv : (m : ℚ) * 2 ^ e = k ↔ m = k * 2 ^ j := by
      rw [show e = -(j : Int) by omega, zpow_neg, zpow_natCast, ← div_eq_mul_inv,
        div_eq_iff (by positivity)]
      norm_cast
    rw [hdiv, scaled?, if_neg (not_le.mpr he), hj, Int.toNat_natCast, Nat.one_shiftLeft,
      Nat.shiftRight_eq_div_pow]
    constructor
    · intro h
      split at h
      · next hm =>
        rw [← Option.some.inj h, Nat.div_mul_cancel (Nat.dvd_of_mod_eq_zero hm)]
      · cases h
    · rintro rfl
      rw [if_pos (Nat.mul_mod_left _ _), Nat.mul_div_cancel _ (Nat.two_pow_pos j)]

theorem value?_of_finite {x : Binary64} {s : Bool} {m : Nat} {e : Int}
    (h : x.view = .finite s m e) : x.value? = some (sign s * (m * 2 ^ e) : ℚ) := by
  rw [value?, h, ← mul_assoc]

/-- A number is taken for an integer exactly if that is its value. -/
theorem integer?_iff_value? {x : Binary64} {n : Int} :
    x.integer? = some n ↔ x.value? = some (n : ℚ) := by
  constructor
  · intro h
    obtain ⟨s, m, e, k, hv, hk, rfl⟩ := integer?_eq_some h
    rw [value?_of_finite hv, scaled?_iff.mp hk, ← sign_mul]
    norm_cast
  · intro h
    cases hv : x.view with
    | nan => simp [value?, hv] at h
    | infinite s => simp [value?, hv] at h
    | finite s m e =>
      rw [value?_of_finite hv, Option.some_inj] at h
      obtain ⟨k, hk⟩ : ∃ k : Nat, (m : ℚ) * 2 ^ e = k := by
        have hpos : (0 : ℚ) ≤ m * 2 ^ e := mul_nonneg m.cast_nonneg (zpow_nonneg two_pos.le e)
        have hsign : |(sign s : ℚ)| = 1 := by cases s <;> simp [sign]
        refine ⟨n.natAbs, ?_⟩
        rw [Nat.cast_natAbs, Int.cast_abs, ← h, abs_mul, hsign, one_mul, abs_of_nonneg hpos]
      rw [hk] at h
      have hn : sign s * (k : Int) = n := by exact_mod_cast h
      rw [sign_mul] at hn
      simp [integer?, hv, scaled?_iff.mpr hk, hn]

theorem isInt64_iff_integer? {x : Binary64} :
    x.isInt64 = true ↔
      ∃ n, x.integer? = some n ∧ Int64.minValue.toInt ≤ n ∧ n ≤ Int64.maxValue.toInt := by
  rw [isInt64, Bool.and_eq_true, Option.isSome_iff_exists]
  constructor
  · rintro ⟨⟨n, hn⟩, hrange⟩
    exact ⟨n, hn, (inInt64Range_of_integer? hn).mp hrange⟩
  · rintro ⟨n, hn, hrange⟩
    exact ⟨⟨n, hn⟩, (inInt64Range_of_integer? hn).mpr hrange⟩

theorem isInt64_iff_value? {x : Binary64} :
    x.isInt64 = true ↔ x.value? = some (x.toInt64.toInt : ℚ) := by
  rw [isInt64_iff_integer?, ← integer?_iff_value?]
  constructor
  · rintro ⟨n, hn, hl, hu⟩
    rwa [toInt64_of_integer? hn hl hu, Int64.toInt_ofInt_of_le hl (Int.lt_add_one_of_le hu)]
  · intro hn
    exact ⟨_, hn, x.toInt64.minValue_le_toInt, x.toInt64.toInt_le⟩

theorem isInt64_iff {x : Binary64} :
    x.isInt64 = true ↔ ∃ n : Int, x.value? = some (n : ℚ) ∧ -2 ^ 63 ≤ n ∧ n < 2 ^ 63 := by
  have hmin : Int64.minValue.toInt = -2 ^ 63 := by decide
  have hmax : Int64.maxValue.toInt = 2 ^ 63 - 1 := by decide
  simp only [isInt64_iff_integer?, integer?_iff_value?, hmin, hmax, Int.le_sub_one_iff]

/-- A number equals an integer exactly if that is its value. -/
theorem equalsInt_iff_value? (x : Binary64) (i : Int64) :
    x.equalsInt i = true ↔ x.value? = some (i.toInt : ℚ) := by
  rw [equalsInt_iff, int64?_eq_some, integer?_iff_value?]

end Binary64

end Resumable
