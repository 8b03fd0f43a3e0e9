import Mathlib.Tactic.Ring
import Resumable.Hash.Number

/-!
# Numbers with one integer value

A bit pattern that is not a NaN is determined by what it denotes, and a finite number whose value
is a nonzero integer by that value. So two numbers with one integer value are equal, and only the
two zeros are equal without being one pattern.
-/

namespace Resumable.Binary64

-- ---------------------------------------------------------------------------
-- Patterns
-- ---------------------------------------------------------------------------

theorem fraction_eq (x : Binary64) : x.fraction = x.bits.toNat % 2 ^ 52 := by
  have h := Nat.and_two_pow_sub_one_eq_mod x.bits.toNat 52
  simpa [fraction] using h

theorem exponentField_eq (x : Binary64) :
    x.exponentField = x.bits.toNat / 2 ^ 52 % 2 ^ 11 := by
  have h := Nat.and_two_pow_sub_one_eq_mod (x.bits.toNat / 2 ^ 52) 11
  simpa [exponentField, Nat.shiftRight_eq_div_pow] using h

theorem negative_iff (x : Binary64) : x.negative = true ↔ x.bits.toNat / 2 ^ 63 = 1 := by
  simp [negative, ← UInt64.toNat_inj, Nat.shiftRight_eq_div_pow]

theorem eq_of_fields {x y : Binary64} (hn : x.negative = y.negative)
    (he : x.exponentField = y.exponentField) (hf : x.fraction = y.fraction) : x = y := by
  have hs : x.bits.toNat / 2 ^ 63 = 1 ↔ y.bits.toNat / 2 ^ 63 = 1 := by
    rw [← negative_iff, ← negative_iff, hn]
  rw [exponentField_eq, exponentField_eq] at he
  rw [fraction_eq, fraction_eq] at hf
  have hx := x.bits.toNat_lt
  have hy := y.bits.toNat_lt
  have h : x.bits.toNat = y.bits.toNat := by omega
  cases x
  cases y
  simpa [UInt64.toNat_inj] using h

theorem fraction_lt (x : Binary64) : x.fraction < leadingBit := by
  rw [fraction_eq]
  exact Nat.mod_lt _ (by decide)

theorem view_injective {x y : Binary64} (h : x.view = y.view) (hx : x.view ≠ .nan) : x = y := by
  have fx := x.fraction_lt
  have fy := y.fraction_lt
  simp only [view] at h hx
  refine eq_of_fields ?_ ?_ ?_ <;> grind

theorem view_finite {x : Binary64} {s : Bool} {m : Nat} {e : Int} (h : x.view = .finite s m e) :
    m < leadingBit ∧ e = -1074 ∨ leadingBit ≤ m ∧ m < 2 * leadingBit ∧ -1074 ≤ e := by
  have hf := x.fraction_lt
  simp only [view] at h
  grind

-- ---------------------------------------------------------------------------
-- Scaled integers
-- ---------------------------------------------------------------------------

theorem scaled?_zero (e : Int) : scaled? 0 e = some 0 := by
  simp [scaled?]

theorem scaled?_spec {m n d : Nat} {e : Int} (he : -(d : Int) ≤ e) (h : scaled? m e = some n) :
    n * 2 ^ d = m * 2 ^ (e + d).toNat := by
  simp only [scaled?, Nat.shiftLeft_eq, Nat.shiftRight_eq_div_pow, one_mul] at h
  split at h
  · cases h
    have hk : (e + d).toNat = e.toNat + d := by omega
    rw [hk, pow_add]
    ring
  · split at h
    · next hm =>
      cases h
      have hk : d = (-e).toNat + (e + d).toNat := by omega
      rw [congrArg (2 ^ ·) hk, pow_add, ← mul_assoc, Nat.div_mul_cancel (Nat.dvd_of_mod_eq_zero hm)]
    · cases h

theorem eq_zero_of_scaled? {m : Nat} {e : Int} (h : scaled? m e = some 0) : m = 0 := by
  have hz := scaled?_spec (d := (-e).toNat) (by omega) h
  rw [zero_mul] at hz
  obtain hz | hz := Nat.mul_eq_zero.mp hz.symm
  · exact hz
  · exact absurd hz (Nat.two_pow_pos _).ne'

theorem significand_unique {b m k a c : Nat} (hm : b ≤ m ∧ m < 2 * b) (hk : b ≤ k ∧ k < 2 * b)
    (h : m * 2 ^ a = k * 2 ^ c) : m = k ∧ a = c := by
  wlog hac : a ≤ c generalizing m k a c
  · obtain ⟨h₁, h₂⟩ := this hk hm h.symm (by omega)
    exact ⟨h₁.symm, h₂.symm⟩
  obtain ⟨i, rfl⟩ := Nat.exists_eq_add_of_le hac
  have hi : m = k * 2 ^ i := by
    rw [pow_add, mul_comm (2 ^ a), ← mul_assoc] at h
    exact Nat.eq_of_mul_eq_mul_right (Nat.two_pow_pos a) h
  cases i with
  | zero => exact ⟨by simpa using hi, rfl⟩
  | succ i =>
    have hp : k * 2 ≤ k * 2 ^ (i + 1) := by
      rw [pow_succ]
      exact Nat.mul_le_mul_left k (Nat.le_mul_of_pos_left 2 (Nat.two_pow_pos i))
    omega

theorem normal_of_scaled {x : Binary64} {s : Bool} {m n : Nat} {e : Int}
    (hv : x.view = .finite s m e) (hs : scaled? m e = some n) (hn : n ≠ 0) :
    leadingBit ≤ m ∧ m < 2 * leadingBit ∧ -1074 ≤ e := by
  obtain ⟨hm, rfl⟩ | h := view_finite hv
  · obtain ⟨d, hd⟩ : ∃ d : Nat, d = 1074 := ⟨_, rfl⟩
    have h := scaled?_spec (d := d) (by omega) hs
    have he : (-1074 + (d : Int)).toNat = 0 := by omega
    rw [he, pow_zero, mul_one] at h
    have hb : leadingBit ≤ 2 ^ d :=
      Nat.pow_le_pow_right (show 0 < 2 by decide) (show 52 ≤ d by omega)
    have hp : 2 ^ d ≤ n * 2 ^ d := Nat.le_mul_of_pos_left _ (Nat.pos_of_ne_zero hn)
    exact absurd (hb.trans (hp.trans_eq h)) (Nat.not_le_of_lt hm)
  · exact h

-- ---------------------------------------------------------------------------
-- Integer values
-- ---------------------------------------------------------------------------

theorem integer?_eq_some {x : Binary64} {n : Int} (h : x.integer? = some n) :
    ∃ (s : Bool) (m : Nat) (e : Int) (k : Nat), x.view = .finite s m e ∧
      scaled? m e = some k ∧ n = if s then -(k : Int) else k := by
  simp only [integer?] at h
  split at h
  · next s m e hv =>
    obtain ⟨_, hc, rfl⟩ := Option.map_eq_some_iff.mp h
    obtain ⟨k, hk, ⟨⟩⟩ := Option.bind_eq_some_iff.mp hc
    exact ⟨s, m, e, k, hv, hk, rfl⟩
  · cases h

theorem isZero_view_iff (x : Binary64) : isZero x.view = true ↔ x.integer? = some 0 := by
  constructor
  · intro h
    cases hv : x.view with
    | nan => rw [hv] at h; cases h
    | infinite s => rw [hv] at h; cases h
    | finite s m e =>
      cases m with
      | zero => simp [integer?, hv, scaled?_zero]
      | succ m => rw [hv] at h; cases h
  · intro h
    obtain ⟨s, m, e, k, hv, hs, hk⟩ := integer?_eq_some h
    have hk : k = 0 := by split at hk <;> omega
    subst hk
    rw [hv, eq_zero_of_scaled? hs]
    rfl

theorem eq_of_integer? {x y : Binary64} {n : Int} (hx : x.integer? = some n)
    (hy : y.integer? = some n) (hn : n ≠ 0) : x = y := by
  obtain ⟨s, m, e, k, hvx, hsx, rfl⟩ := integer?_eq_some hx
  obtain ⟨t, l, f, j, hvy, hsy, hkj⟩ := integer?_eq_some hy
  have hk : k ≠ 0 := by rintro rfl; simp at hn
  have hj : j ≠ 0 := by rintro rfl; split at hkj <;> split at hkj <;> omega
  obtain ⟨hm, hm', he⟩ := normal_of_scaled hvx hsx hk
  obtain ⟨hl, hl', hf⟩ := normal_of_scaled hvy hsy hj
  have hst : s = t ∧ k = j := by
    cases s <;> cases t <;> simp at hkj ⊢ <;> omega
  obtain ⟨rfl, rfl⟩ := hst
  have hx := scaled?_spec (d := 1074) (by omega) hsx
  have hy := scaled?_spec (d := 1074) (by omega) hsy
  obtain ⟨rfl, hef⟩ := significand_unique ⟨hm, hm'⟩ ⟨hl, hl'⟩ (hx.symm.trans hy)
  have hef : e = f := by omega
  subst hef
  exact view_injective (hvx.trans hvy.symm) (by rw [hvx]; simp)

theorem equals_iff (x y : Binary64) :
    x.equals y = true ↔
      x.view ≠ .nan ∧ (x = y ∨ x.integer? = some 0 ∧ y.integer? = some 0) := by
  have hb : x.bits = y.bits ↔ x = y := by
    cases x
    cases y
    simp
  simp [equals, isZero_view_iff, hb]

theorem view_ne_nan_of_integer? {x : Binary64} {n : Int} (h : x.integer? = some n) :
    x.view ≠ .nan := by
  obtain ⟨s, m, e, k, hv, -⟩ := integer?_eq_some h
  simp [hv]

theorem equals_of_integer? {x y : Binary64} {n : Int} (hx : x.integer? = some n)
    (hy : y.integer? = some n) : x.equals y = true := by
  rw [equals_iff]
  refine ⟨view_ne_nan_of_integer? hx, ?_⟩
  by_cases hn : n = 0
  · subst hn
    exact .inr ⟨hx, hy⟩
  · exact .inl (eq_of_integer? hx hy hn)

-- ---------------------------------------------------------------------------
-- 64-bit integers
-- ---------------------------------------------------------------------------

def int64? (x : Binary64) : Option Int64 :=
  x.integer?.bind fun n =>
    if Int64.minValue.toInt ≤ n ∧ n ≤ Int64.maxValue.toInt then some (Int64.ofInt n) else none

theorem int64?_eq_some (x : Binary64) (i : Int64) :
    x.int64? = some i ↔ x.integer? = some i.toInt := by
  constructor
  · intro h
    obtain ⟨n, hn, hi⟩ := Option.bind_eq_some_iff.mp h
    split at hi
    · next hr =>
      cases hi
      rw [hn, Int64.toInt_ofInt_of_le hr.1 (Int.lt_add_one_of_le hr.2)]
    · cases hi
  · intro h
    have hr := And.intro i.minValue_le_toInt i.toInt_le
    simp only [int64?, h, Option.bind_some, if_pos hr, Int64.ofInt_toInt]

theorem wholePart_of_scaled? {m k : Nat} {e : Int} (h : scaled? m e = some k) :
    wholePart m e = k := by
  simp only [scaled?] at h
  simp only [wholePart]
  split at h
  · next he =>
    rw [if_pos he]
    exact Option.some.inj h
  · next he =>
    rw [if_neg he]
    split at h
    · exact Option.some.inj h
    · cases h

theorem toInt64_of_integer? {x : Binary64} {n : Int} (h : x.integer? = some n)
    (hl : Int64.minValue.toInt ≤ n) (hu : n ≤ Int64.maxValue.toInt) :
    x.toInt64 = Int64.ofInt n := by
  obtain ⟨s, m, e, k, hv, hk, rfl⟩ := integer?_eq_some h
  rw [toInt64, hv]
  simp only [wholePart_of_scaled? hk, min_eq_left hu, max_eq_right hl]

theorem inInt64Range_of_integer? {x : Binary64} {n : Int} (h : x.integer? = some n) :
    x.inInt64Range = true ↔ Int64.minValue.toInt ≤ n ∧ n ≤ Int64.maxValue.toInt := by
  obtain ⟨s, m, e, k, hv, hk, rfl⟩ := integer?_eq_some h
  have hspec := scaled?_spec (d := (-e).toNat) (by omega) hk
  have hexp : (e + (-e).toNat).toNat = e.toNat := by omega
  rw [hexp] at hspec
  have hle : k * 2 ^ (-e).toNat ≤ 2 ^ 63 * 2 ^ (-e).toNat ↔ k ≤ 2 ^ 63 :=
    Nat.mul_le_mul_right_iff (Nat.two_pow_pos _)
  have hlt : k * 2 ^ (-e).toNat < 2 ^ 63 * 2 ^ (-e).toNat ↔ k < 2 ^ 63 :=
    Nat.mul_lt_mul_right (Nat.two_pow_pos _)
  have hmin : Int64.minValue.toInt = -2 ^ 63 := by decide
  have hmax : Int64.maxValue.toInt = 2 ^ 63 - 1 := by decide
  rw [inInt64Range, hv, hmin, hmax]
  simp only [Nat.shiftLeft_eq, ← hspec]
  cases s with
  | true =>
    simp only [if_true, decide_eq_true_eq]
    exact hle.trans (by omega)
  | false =>
    simp only [Bool.false_eq_true, if_false, decide_eq_true_eq]
    exact hlt.trans (by omega)

theorem equalsInt_iff (x : Binary64) (i : Int64) : x.equalsInt i = true ↔ x.int64? = some i := by
  rw [equalsInt, isInt64, int64?]
  cases h : x.integer? with
  | none => simp
  | some n =>
    simp only [Option.isSome_some, Bool.true_and, Bool.and_eq_true, beq_iff_eq,
      inInt64Range_of_integer? h, Option.bind_some]
    split
    · next hn => rw [and_iff_right hn, toInt64_of_integer? h hn.1 hn.2, Option.some_inj]
    · next hn => simp only [hn, false_and, reduceCtorEq]

/-- Equality in terms of the integers that numbers equal. -/
theorem equals_iff_int64? (x y : Binary64) :
    x = y ∨ x.equals y = true ↔ x = y ∨ ∃ i, x.int64? = some i ∧ y.int64? = some i := by
  constructor
  · rintro (rfl | h)
    · exact .inl rfl
    · obtain ⟨-, rfl | ⟨hx, hy⟩⟩ := (equals_iff x y).mp h
      · exact .inl rfl
      · exact .inr ⟨0, (int64?_eq_some x 0).mpr hx, (int64?_eq_some y 0).mpr hy⟩
  · rintro (rfl | ⟨i, hx, hy⟩)
    · exact .inl rfl
    · rw [int64?_eq_some] at hx hy
      exact .inr (equals_of_integer? hx hy)

theorem hash_of_int64? {x : Binary64} {i : Int64} (h : x.int64? = some i) :
    Hash.ofBinary64 x = Hash.ofInt i.toInt := by
  rw [int64?_eq_some] at h
  obtain ⟨s, m, e, k, hv, -, -⟩ := integer?_eq_some h
  have hl := i.minValue_le_toInt
  have hu := i.toInt_le
  have hr : Int64.minValue.toInt ≤ i.toInt ∧ i.toInt ≤ Int64.maxValue.toInt + 1 := ⟨hl, by omega⟩
  rw [Hash.ofBinary64, Hash.signedOfBinary64, hv]
  simp only [h, if_pos hr, min_eq_left hu, Hash.ofInt]

end Resumable.Binary64
