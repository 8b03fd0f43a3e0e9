import Resumable.Proofs.Binary64.Integers
import Resumable.Proofs.Value.Plain

/-!
# Values up to equality

A key matches another if the two are identical or equal. `canonical` picks one value of each class
of matching values: numbers that are 64-bit integers become that integer, texts and tuples lose
their identity, all other objects keep nothing else. So matching is an equivalence, and matching
keys have one hash.

An identity belongs to one object, so two texts or two tuples with one identity have the same
contents; `Objects` says what these are.
-/

namespace Resumable

/-- What the texts and the tuples of a program are made of. -/
structure Objects where
  text : Identity → String
  items : Identity → List Value

namespace Value

def sameKey (a b : Value) : Bool := a.identical b || a.plainEquals b

mutual

def In (o : Objects) : Value → Prop
  | .text t => t.text = o.text t.id
  | .tuple id items => items = o.items id ∧ AllIn o items
  | _ => True

def AllIn (o : Objects) : List Value → Prop
  | [] => True
  | v :: rest => v.In o ∧ AllIn o rest

end

mutual

def canonical : Value → Value
  | .bool b => .int (ofBool b)
  | .float x =>
    match x.int64? with
    | some i => .int i
    | Option.none => .float x
  | .text t => .text ⟨0, t.text⟩
  | .tuple _ items => .tuple 0 (canonicals items)
  | .cls c => .cls (.root { (default : Layer) with id := c.id })
  | .exception r .. => .exception r default Option.none []
  | .inst id .. => .inst id default .unbound
  | .traceback t => .traceback ⟨{ (default : TracebackEntry) with id := t.id }, []⟩
  | .unbound => .unbound
  | .none => .none
  | .int i => .int i
  | .cell r => .cell r
  | .excType t => .excType t
  | .generator r => .generator r

def canonicals : List Value → List Value
  | [] => []
  | v :: rest => v.canonical :: canonicals rest

end

@[simp] theorem length_canonicals (items : List Value) :
    (canonicals items).length = items.length := by
  induction items with
  | nil => rfl
  | cons v rest ih => simp [canonicals, ih]

-- ---------------------------------------------------------------------------
-- Matching
-- ---------------------------------------------------------------------------

theorem identical_comm (a b : Value) : a.identical b = b.identical a := by
  cases a <;> cases b <;> simp only [identical, TextRef.same, Bool.beq_comm]

theorem sameKey_float (x y : Binary64) :
    (Value.float x).sameKey (.float y) = true ↔
      (Value.float x).canonical = (Value.float y).canonical := by
  have h := Binary64.equals_iff_int64? x y
  simp only [sameKey, identical, plainEquals, equalsPlain, Bool.or_eq_true, beq_iff_eq, h]
  cases hx : x.int64? <;> cases hy : y.int64? <;> grind [canonical]

theorem sameKey_float_right {x : Binary64} {b : Value} (hb : ∀ y, b ≠ .float y) :
    (Value.float x).sameKey b = true ↔ (Value.float x).canonical = b.canonical := by
  cases b <;>
    simp_all [sameKey, identical, plainEquals, equalsPlain, canonical, asInt,
      Binary64.equalsInt_iff] <;>
    cases hx : x.int64? <;> simp

theorem sameKey_float_left {x : Binary64} {b : Value} (hb : ∀ y, b ≠ .float y) :
    b.sameKey (.float x) = true ↔ b.canonical = (Value.float x).canonical := by
  cases b <;>
    simp_all [sameKey, identical, plainEquals, equalsPlain, canonical, asInt,
      Binary64.equalsInt_iff] <;>
    cases hx : x.int64? <;> simp [eq_comm]

variable {o : Objects}

theorem sameKey_of_atoms {a b : Value} (ha : a.In o) (hb : b.In o)
    (hta : ∀ i xs, a ≠ .tuple i xs) (hfa : ∀ x, a ≠ .float x) (hfb : ∀ y, b ≠ .float y) :
    a.sameKey b = true ↔ a.canonical = b.canonical := by
  cases a <;> cases b <;>
    simp_all [sameKey, identical, plainEquals, equalsPlain, canonical, asInt, In, TextRef.same,
      Class.id, Class.root, Traceback.id]

theorem sameKey_of_not_tuple {a b : Value} (ha : a.In o) (hb : b.In o)
    (hta : ∀ i xs, a ≠ .tuple i xs) : a.sameKey b = true ↔ a.canonical = b.canonical := by
  by_cases hfb : ∃ y, b = .float y
  · obtain ⟨y, rfl⟩ := hfb
    by_cases hfa : ∃ x, a = .float x
    · obtain ⟨x, rfl⟩ := hfa
      exact sameKey_float x y
    · exact sameKey_float_left (not_exists.mp hfa)
  · by_cases hfa : ∃ x, a = .float x
    · obtain ⟨x, rfl⟩ := hfa
      exact sameKey_float_right (not_exists.mp hfb)
    · exact sameKey_of_atoms ha hb hta (not_exists.mp hfa) (not_exists.mp hfb)

mutual

/-- Matching is being the same up to the canonical form. -/
theorem sameKey_iff : ∀ {a b : Value}, a.In o → b.In o →
    (a.sameKey b = true ↔ a.canonical = b.canonical)
  | .tuple i xs, b, ha, hb => by
    cases b with
    | tuple j ys =>
      have ih := matchItems_iff ha.2 hb.2
      have hij : i = j → canonicals xs = canonicals ys := by
        rintro rfl
        rw [ha.1, hb.1]
      have hlen : canonicals xs = canonicals ys → xs.length = ys.length := by
        intro h
        rw [← length_canonicals xs, h, length_canonicals]
      simp only [sameKey, identical, plainEquals, canonical, Bool.or_eq_true, beq_iff_eq,
        Value.tuple.injEq, true_and]
      constructor
      · rintro (h | h)
        · exact hij h
        · split at h
          · next hl => exact (ih hl).mp h
          · cases h
      · intro h
        rw [if_pos (hlen h)]
        exact .inr ((ih (hlen h)).mpr h)
    | float y => exact sameKey_float_left (by simp)
    | _ => simp [sameKey, identical, plainEquals, equalsPlain, canonical, asInt]
  | .unbound, b, ha, hb | .none, b, ha, hb | .bool _, b, ha, hb | .int _, b, ha, hb
  | .float _, b, ha, hb | .text _, b, ha, hb | .cell _, b, ha, hb | .excType _, b, ha, hb
  | .cls _, b, ha, hb | .exception .., b, ha, hb | .inst .., b, ha, hb | .traceback _, b, ha, hb
  | .generator _, b, ha, hb => sameKey_of_not_tuple ha hb (by simp)

theorem matchItems_iff : ∀ {xs ys : List Value}, AllIn o xs → AllIn o ys →
    xs.length = ys.length → (plainEqualsItems xs ys = true ↔ canonicals xs = canonicals ys)
  | [], ys, _, _, hl => by
    cases ys with
    | nil => simp [plainEqualsItems]
    | cons y ys => simp at hl
  | x :: xs, ys, hx, hy, hl => by
    cases ys with
    | nil => simp at hl
    | cons y ys =>
      have ih := sameKey_iff hx.1 hy.1
      have ihs := matchItems_iff hx.2 hy.2 (by simpa using hl)
      simp only [sameKey] at ih
      simp only [plainEqualsItems, Bool.and_eq_true, ih, ihs, canonicals, List.cons.injEq]

end

theorem sameKey_comm {a b : Value} (ha : a.In o) (hb : b.In o) : a.sameKey b = b.sameKey a := by
  rw [Bool.eq_iff_iff, sameKey_iff ha hb, sameKey_iff hb ha, eq_comm]

-- ---------------------------------------------------------------------------
-- Hashing
-- ---------------------------------------------------------------------------

mutual

@[simp] theorem plainHash_canonical : ∀ v : Value, v.canonical.plainHash = v.plainHash
  | .tuple id items => by simp only [canonical, plainHash, plainHashes_canonicals items]
  | .float x => by
    simp only [canonical]
    split
    · next i hi => simp only [plainHash, Binary64.hash_of_int64? hi]
    · rfl
  | .unbound | .none | .bool _ | .int _ | .text _ | .cell _ | .excType _ | .cls _
  | .exception .. | .inst .. | .traceback _ | .generator _ => rfl

theorem plainHashes_canonicals : ∀ items : List Value,
    plainHashes (canonicals items) = plainHashes items
  | [] => rfl
  | v :: rest => by
    simp only [canonicals, plainHashes, plainHash_canonical v, plainHashes_canonicals rest]

end

theorem plainHash_of_sameKey {a b : Value} (ha : a.In o) (hb : b.In o) (h : a.sameKey b = true) :
    a.plainHash = b.plainHash := by
  rw [← plainHash_canonical a, (sameKey_iff ha hb).mp h, plainHash_canonical]

end Value

end Resumable
