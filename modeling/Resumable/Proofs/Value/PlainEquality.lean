import Resumable.Proofs.Binary64.Values
import Resumable.Proofs.Value.EqualHashes

/-!
# Equality of values that run no code

Comparing two values that run no code ends with an answer, which depends on nothing but the values.
A floating-point number equals an integer or a truth value exactly if that is its value. Equality
is symmetric and transitive; a number that is none does not equal itself, but to be identical or
equal, as keys and the items of tuples are compared, is an equivalence relation, and tuples respect
it at any depth.
-/

namespace Resumable

variable {σ : Type}

namespace Value

-- ---------------------------------------------------------------------------
-- Numbers
-- ---------------------------------------------------------------------------

theorem plainEquals_float_right (x : Binary64) {v : Value} (hv : ∀ y, v ≠ .float y) :
    (Value.float x).plainEquals v = v.asInt.any x.equalsInt := by
  cases v with
  | float y => exact absurd rfl (hv y)
  | _ => rfl

theorem plainEquals_float_left (x : Binary64) {v : Value} (hv : ∀ y, v ≠ .float y) :
    v.plainEquals (.float x) = v.asInt.any x.equalsInt := by
  cases v with
  | float y => exact absurd rfl (hv y)
  | _ => rfl

theorem equalsInt_eq_decide (x : Binary64) (i : Int64) :
    x.equalsInt i = decide (x.value? = some (i.toInt : ℚ)) := by
  rw [Bool.eq_iff_iff, decide_eq_true_iff, Binary64.equalsInt_iff_value?]

theorem toInt_ofBool (b : Bool) : ((ofBool b).toInt : ℚ) = if b then 1 else 0 := by
  cases b
  · rfl
  · rfl

-- ---------------------------------------------------------------------------
-- Tuples
-- ---------------------------------------------------------------------------

theorem identical_refl (v : Value) : v.identical v = true := by
  cases v <;> simp [identical, TextRef.same]

theorem sameKey_refl (v : Value) : v.sameKey v = true := by
  rw [sameKey, identical_refl, Bool.true_or]

theorem plainEqualsItems_iff {xs ys : List Value} (hl : xs.length = ys.length) :
    plainEqualsItems xs ys = true ↔ List.Forall₂ (fun x y => x.sameKey y = true) xs ys := by
  induction xs generalizing ys with
  | nil =>
    cases ys with
    | nil => simp [plainEqualsItems]
    | cons y ys => cases hl
  | cons x xs ih =>
    cases ys with
    | nil => cases hl
    | cons y ys =>
      rw [plainEqualsItems, Bool.and_eq_true, List.forall₂_cons, ih (Nat.succ.inj hl)]
      rfl

theorem plainEquals_tuple_iff {i j : Identity} {xs ys : List Value} :
    (Value.tuple i xs).plainEquals (.tuple j ys) = true ↔
      List.Forall₂ (fun x y => x.sameKey y = true) xs ys := by
  rw [plainEquals]
  split
  · next hl => exact plainEqualsItems_iff hl
  · next hl => exact ⟨fun h => (by cases h), fun h => absurd h.length_eq hl⟩

/-- A tuple and the same one, as another object, with one element somewhere inside of it replaced by
one that is identical or equal. -/
inductive Replaced : Value → Value → Prop
  | item {x y : Value} (i j : Identity) (before after : List Value) : x.sameKey y = true →
      Replaced (.tuple i (before ++ x :: after)) (.tuple j (before ++ y :: after))
  | inside {x y : Value} (i j : Identity) (before after : List Value) : Replaced x y →
      Replaced (.tuple i (before ++ x :: after)) (.tuple j (before ++ y :: after))

theorem plainEquals_item {x y : Value} (h : x.sameKey y = true) (i j : Identity)
    (before after : List Value) :
    (Value.tuple i (before ++ x :: after)).plainEquals (.tuple j (before ++ y :: after)) =
      true := by
  have hrefl : ∀ zs : List Value, List.Forall₂ (fun x y => x.sameKey y = true) zs zs := fun zs =>
    List.forall₂_same.mpr fun z _ => sameKey_refl z
  exact plainEquals_tuple_iff.mpr (List.rel_append (hrefl before) (.cons h (hrefl after)))

theorem Replaced.plainEquals {a b : Value} (h : Replaced a b) : a.plainEquals b = true := by
  induction h with
  | item i j before after h => exact plainEquals_item h i j before after
  | inside i j before after _ ih =>
    refine plainEquals_item ?_ i j before after
    rw [sameKey, ih, Bool.or_true]

-- ---------------------------------------------------------------------------
-- Equal and identical values
-- ---------------------------------------------------------------------------

def isNaN : Value → Bool
  | .float x => x.view == .nan
  | _ => false

theorem isNaN_float_eq_false {x : Binary64} :
    (Value.float x).isNaN = false ↔ x.view ≠ .nan := by
  simp [isNaN]

theorem isNaN_canonical (v : Value) : v.canonical.isNaN = v.isNaN := by
  cases v with
  | float x =>
    rw [canonical]
    split
    · next i hi =>
      have hview := Binary64.view_ne_nan_of_integer? ((Binary64.int64?_eq_some x i).mp hi)
      exact (isNaN_float_eq_false.mpr hview).symm
    · rfl
  | _ => rfl

theorem isNaN_of_plainEquals {a b : Value} (h : a.plainEquals b = true) : a.isNaN = false := by
  cases a with
  | float x =>
    rw [isNaN_float_eq_false]
    by_cases hb : ∃ y, b = .float y
    · obtain ⟨y, rfl⟩ := hb
      exact ((Binary64.equals_iff x y).mp h).1
    · rw [plainEquals_float_right x (not_exists.mp hb), Option.any_eq_true] at h
      obtain ⟨i, -, hi⟩ := h
      rw [Binary64.equalsInt_iff, Binary64.int64?_eq_some] at hi
      exact Binary64.view_ne_nan_of_integer? hi
  | _ => rfl

variable {o : Objects} {a b c : Value}

theorem plainEquals_of_identical (ha : a.In o) (hb : b.In o) (hi : a.identical b = true)
    (hn : a.isNaN = false) : a.plainEquals b = true := by
  cases a with
  | float x =>
    cases b <;> simp_all [identical, plainEquals, equalsPlain, isNaN, Binary64.equals]
  | tuple i xs =>
    cases b with
    | tuple j ys =>
      obtain rfl : i = j := by simpa [identical] using hi
      obtain rfl : xs = ys := ha.1.trans hb.1.symm
      exact plainEquals_tuple_iff.mpr (List.forall₂_same.mpr fun z _ => sameKey_refl z)
    | _ => cases hi
  | text s =>
    cases b <;> simp_all [identical, plainEquals, equalsPlain, In, TextRef.same]
  | _ =>
    cases b <;> simp_all [identical, plainEquals, equalsPlain, asInt]

/-- Equality is being the same up to the canonical form, but for numbers that are none. -/
theorem plainEquals_iff (ha : a.In o) (hb : b.In o) :
    a.plainEquals b = true ↔ a.canonical = b.canonical ∧ a.isNaN = false := by
  have hsame := sameKey_iff ha hb
  rw [sameKey, Bool.or_eq_true] at hsame
  constructor
  · intro h
    exact ⟨hsame.mp (.inr h), isNaN_of_plainEquals h⟩
  · rintro ⟨hc, hn⟩
    exact (hsame.mpr hc).elim (fun hi => plainEquals_of_identical ha hb hi hn) id

theorem plainEquals_comm (ha : a.In o) (hb : b.In o) : a.plainEquals b = b.plainEquals a := by
  rw [Bool.eq_iff_iff, plainEquals_iff ha hb, plainEquals_iff hb ha, eq_comm (a := a.canonical)]
  refine and_congr_right fun hc => ?_
  rw [← isNaN_canonical a, ← hc, isNaN_canonical b]

theorem plainEquals_trans (ha : a.In o) (hb : b.In o) (hc : c.In o) (hab : a.plainEquals b = true)
    (hbc : b.plainEquals c = true) : a.plainEquals c = true := by
  obtain ⟨hcab, hna⟩ := (plainEquals_iff ha hb).mp hab
  obtain ⟨hcbc, -⟩ := (plainEquals_iff hb hc).mp hbc
  exact (plainEquals_iff ha hc).mpr ⟨hcab.trans hcbc, hna⟩

end Value

structure PlainValue (o : Objects) where
  value : Value
  runsNoCode : value.mayRunCode = false
  known : value.In o

namespace PlainValue

variable {o : Objects}

theorem sameKey_equivalence :
    Equivalence fun a b : PlainValue o => a.value.sameKey b.value = true where
  refl a := Value.sameKey_refl a.value
  symm {a b} h := by rwa [← Value.sameKey_comm a.known b.known]
  trans {a b c} hab hbc := by
    rw [Value.sameKey_iff a.known b.known] at hab
    rw [Value.sameKey_iff b.known c.known] at hbc
    rw [Value.sameKey_iff a.known c.known, hab, hbc]

end PlainValue

-- ---------------------------------------------------------------------------
-- Results
-- ---------------------------------------------------------------------------

/-- A floating-point number equals an integer exactly if it is finite and that is its value, on
either side; a truth value counts as one or zero. A number is converted only if it is one of the
64-bit integers, which are exactly the numbers that keep their value. -/
theorem number_equality_exact (host : Host σ) (n : Nat) (c : Ref .context) (x : Binary64) :
    (∀ i : Int64,
      host.answer (n + 1) c (.equals (.float x) (.int i)) =
        pure (.ok (decide (x.value? = some (i.toInt : ℚ)))) ∧
      host.answer (n + 1) c (.equals (.int i) (.float x)) =
        pure (.ok (decide (x.value? = some (i.toInt : ℚ))))) ∧
    (∀ b : Bool,
      host.answer (n + 1) c (.equals (.float x) (.bool b)) =
        pure (.ok (decide (x.value? = some (if b then 1 else 0)))) ∧
      host.answer (n + 1) c (.equals (.bool b) (.float x)) =
        pure (.ok (decide (x.value? = some (if b then 1 else 0))))) ∧
    (∀ i : Int64, x.equalsInt i = true ↔ x.isInt64 = true ∧ x.toInt64 = i) ∧
    (x.isInt64 = true ↔ ∃ k : Int, x.value? = some (k : ℚ) ∧ -2 ^ 63 ≤ k ∧ k < 2 ^ 63) ∧
    (x.isInt64 = true ↔ x.value? = some (x.toInt64.toInt : ℚ)) := by
  have hfloat : ∀ v : Value, v.mayRunCode = false → (∀ y, v ≠ .float y) →
      host.answer (n + 1) c (.equals (.float x) v) = pure (.ok (v.asInt.any x.equalsInt)) ∧
      host.answer (n + 1) c (.equals v (.float x)) = pure (.ok (v.asInt.any x.equalsInt)) := by
    intro v hv hne
    rw [Host.answer_equals_plain host n c rfl hv, Host.answer_equals_plain host n c hv rfl,
      Value.plainEquals_float_right x hne, Value.plainEquals_float_left x hne]
    exact ⟨rfl, rfl⟩
  refine ⟨fun i => ?_, fun b => ?_, fun i => ?_, Binary64.isInt64_iff,
    Binary64.isInt64_iff_value?⟩
  · rw [← Value.equalsInt_eq_decide]
    exact hfloat (.int i) rfl nofun
  · rw [← Value.toInt_ofBool, ← Value.equalsInt_eq_decide]
    exact hfloat (.bool b) rfl nofun
  · rw [Binary64.equalsInt, Bool.and_eq_true, beq_iff_eq]

/-- Comparing values that run no code never fails, whatever the host is, and gives one answer at all
times. This equality is symmetric and transitive. With identity it is an equivalence relation; two
tuples are equal exactly if their items are related by it in pairs, and so a tuple equals what it
becomes when an element at any depth is replaced by one that is identical or equal. -/
theorem plain_equality_sane (host : Host σ) (o : Objects) :
    (∀ (a b : PlainValue o) (n : Nat) (c : Ref .context),
      host.answer (n + 1) c (.equals a.value b.value) =
        pure (.ok (a.value.plainEquals b.value))) ∧
    (∀ a b : PlainValue o, a.value.plainEquals b.value = b.value.plainEquals a.value) ∧
    (∀ a b c : PlainValue o, a.value.plainEquals b.value = true →
      b.value.plainEquals c.value = true → a.value.plainEquals c.value = true) ∧
    (∀ a b : Value, a.sameKey b = true ↔ a.identical b = true ∨ a.plainEquals b = true) ∧
    (Equivalence fun a b : PlainValue o => a.value.sameKey b.value = true) ∧
    (∀ (i j : Identity) (xs ys : List Value),
      (Value.tuple i xs).plainEquals (.tuple j ys) = true ↔
        List.Forall₂ (fun x y => x.sameKey y = true) xs ys) ∧
    ∀ a b : Value, a.Replaced b → a.plainEquals b = true := by
  refine ⟨fun a b n c => ?_, fun a b => ?_, fun a b c => ?_, fun a b => ?_,
    PlainValue.sameKey_equivalence, fun _ _ _ _ => Value.plainEquals_tuple_iff,
    fun _ _ h => h.plainEquals⟩
  · exact Host.answer_equals_plain host n c a.runsNoCode b.runsNoCode
  · exact Value.plainEquals_comm a.known b.known
  · exact Value.plainEquals_trans a.known b.known c.known
  · rw [Value.sameKey, Bool.or_eq_true]

def Value.replacedItems : Value :=
  .tuple 6 [.int 1, .float ⟨0x7FF8000000000000⟩, .tuple 7 [.text ⟨2, "x"⟩,
    .float ⟨0x8000000000000000⟩], .int 0]

open Value in
theorem plain_equality_sane_items :
    integerItems.plainEquals floatItems = true ∧ floatItems.plainEquals integerItems = true ∧
    integerItems.plainEquals integerItems = true ∧
    (Value.float ⟨0x7FF8000000000000⟩).plainEquals (.float ⟨0x7FF8000000000000⟩) = false ∧
    integerItems.Replaced replacedItems ∧ integerItems.plainEquals replacedItems = true := by
  have ha : integerItems.In itemObjects := by simp [integerItems, itemObjects, In, AllIn]
  have hb : floatItems.In itemObjects := by simp [floatItems, itemObjects, In, AllIn]
  obtain ⟨-, hcomm, htrans, -, -, -, hreplaced⟩ :=
    plain_equality_sane (.inert : Host Unit) itemObjects
  have hab : integerItems.plainEquals floatItems = true := by decide +kernel
  have hba := (hcomm ⟨floatItems, rfl, hb⟩ ⟨integerItems, rfl, ha⟩).trans hab
  have hr : integerItems.Replaced replacedItems :=
    .inside (x := .tuple 1 [.text ⟨2, "x"⟩, .bool false])
      (y := .tuple 7 [.text ⟨2, "x"⟩, .float ⟨0x8000000000000000⟩]) 0 6
      [.int 1, .float ⟨0x7FF8000000000000⟩] [.int 0]
      (.item 1 7 [.text ⟨2, "x"⟩] [] (by decide +kernel))
  exact ⟨hab, hba, htrans ⟨_, rfl, ha⟩ ⟨_, rfl, hb⟩ ⟨_, rfl, ha⟩ hab hba, by decide +kernel, hr,
    hreplaced _ _ hr⟩

end Resumable
