import Mathlib.Data.List.Basic
import Resumable.Storage.Map

/-!
# The index of a map

`Indexed` says that the index files the place of every entry under its hash, in order, and nothing
else. The operations on maps keep it, removal by moving later places up. Under it, a search of the
places of a hash is a search through all entries in order, if comparing keys has no effects.
-/

namespace Resumable.Map

def Indexed (m : Map) : Prop :=
  m.index.slots = m.entries.toList.mapIdx fun place e => ⟨e.hash, place⟩

def filed (m : Map) (hash : UInt64) : List Nat := m.index.filed hash

/-- The entry at a place, if it has the hash. -/
def holder? (m : Map) (hash : UInt64) (place : Nat) : Option Entry :=
  m.entries[place]?.filter (·.hash == hash)

/-- A search for the hash may be shown these places: all of them are places of entries, and those
of the hash come once, in any order, among any others. -/
structure Shows (m : Map) (hash : UInt64) (places : List Nat) : Prop where
  lt_size : ∀ place ∈ places, place < m.size
  once : ∀ (place : Nat) (e : Entry), m.entries[place]? = some e → e.hash = hash →
    places.count place = 1

-- ---------------------------------------------------------------------------
-- Lists of places
-- ---------------------------------------------------------------------------

section

variable {α : Type} (p q : α → Bool)

theorem findIdxs_cons_succ (x : α) (xs : List α) :
    (x :: xs).findIdxs p =
      if p x then 0 :: (xs.findIdxs p).map (· + 1) else (xs.findIdxs p).map (· + 1) := by
  rw [List.findIdxs_cons, Nat.zero_add, List.findIdxs_start]

theorem find?_findIdxs (xs : List α) :
    (xs.findIdxs p).find? (fun place => xs[place]?.any q) = xs.findIdx? fun x => p x && q x := by
  induction xs with
  | nil => rfl
  | cons x xs ih =>
    have hr : ((xs.findIdxs p).map (· + 1)).find? (fun place => (x :: xs)[place]?.any q) =
        (xs.findIdx? fun x => p x && q x).map (· + 1) := by
      rw [List.find?_map, ← ih]
      rfl
    rw [findIdxs_cons_succ, List.findIdx?_cons]
    by_cases hp : p x = true
    · by_cases hq : q x = true
      · simp [hp, hq]
      · rw [if_pos hp, List.find?_cons_of_neg (by simpa using hq), hr]
        simp [hq]
    · rw [if_neg hp, hr]
      simp [hp]

/-- Where one element satisfies it at most, the places may be tried in any order. -/
theorem find?_any_order {xs : List α} {q : α → Bool} {places : List Nat}
    (hplaces : ∀ (place : Nat) (x : α), xs[place]? = some x → q x = true → place ∈ places)
    (hone : xs.Pairwise fun x y => q x = true → q y = false) :
    places.find? (fun place => xs[place]?.any q) = xs.findIdx? q := by
  have hfound : ∀ place : Nat, xs[place]?.any q = true →
      ∃ hlt : place < xs.length, q xs[place] = true := fun place hany => by
    obtain ⟨x, hx, hq⟩ := (Option.any_eq_true _ _).mp hany
    obtain ⟨hlt, rfl⟩ := List.getElem?_eq_some_iff.mp hx
    exact ⟨hlt, hq⟩
  have hone := List.pairwise_iff_getElem.mp hone
  cases hfirst : xs.findIdx? q with
  | none =>
    rw [List.find?_eq_none]
    intro place _ hany
    obtain ⟨hlt, hq⟩ := hfound place hany
    rw [List.findIdx?_eq_none_iff.mp hfirst _ (List.getElem_mem hlt)] at hq
    cases hq
  | some first =>
    obtain ⟨hlt, hq, -⟩ := List.findIdx?_eq_some_iff_getElem.mp hfirst
    have hx : xs[first]? = some xs[first] := List.getElem?_eq_getElem hlt
    cases hfind : places.find? fun place => xs[place]?.any q with
    | none =>
      have hnone := List.find?_eq_none.mp hfind first (hplaces first _ hx hq)
      rw [hx, Option.any_some] at hnone
      exact absurd hq hnone
    | some place =>
      have hany := List.find?_some hfind
      obtain ⟨hlt', hq'⟩ := hfound place hany
      obtain h | rfl | h := Nat.lt_trichotomy place first
      · rw [hone place first hlt' hlt h hq'] at hq
        cases hq
      · rfl
      · rw [hone first place hlt hlt' h hq] at hq'
        cases hq'

theorem mem_findIdxs {place : Nat} (xs : List α) :
    place ∈ xs.findIdxs p ↔ xs[place]?.any p = true := by
  rw [List.mem_findIdxs_iff_exists_getElem_pos, Option.any_eq_true]
  constructor
  · rintro ⟨hi, hp⟩
    exact ⟨_, List.getElem?_eq_getElem hi, hp⟩
  · rintro ⟨x, hx, hp⟩
    obtain ⟨hi, rfl⟩ := List.getElem?_eq_some_iff.mp hx
    exact ⟨hi, hp⟩

end

theorem findIdx?_congr {α : Type} {p q : α → Bool} {xs : List α} (h : ∀ x ∈ xs, p x = q x) :
    xs.findIdx? p = xs.findIdx? q := by
  induction xs with
  | nil => rfl
  | cons x xs ih =>
    rw [List.findIdx?_cons, List.findIdx?_cons, h x (by simp), ih fun y hy => h y (by simp [hy])]

theorem places_mapIdx (p : UInt64 → Bool) (entries : List Entry) :
    ((entries.mapIdx fun place e => (⟨e.hash, place⟩ : Slot)).filter (p ·.hash)).map (·.place) =
      entries.findIdxs (p ·.hash) := by
  rw [List.findIdxs_eq_filterMap_zipIdx, List.mapIdx_eq_zipIdx_map, List.filter_map, List.map_map]
  generalize entries.zipIdx = placed
  induction placed with
  | nil => rfl
  | cons x placed ih => cases hp : p x.1.hash <;> simp_all

-- ---------------------------------------------------------------------------
-- What keeps it
-- ---------------------------------------------------------------------------

theorem indexed_empty : empty.Indexed := rfl

theorem indexed_clear (m : Map) : m.clear.Indexed := rfl

section

variable {m : Map} {hash : UInt64} {place : Nat}

theorem Indexed.places (h : m.Indexed) (hash : UInt64) :
    m.places hash = m.entries.toList.findIdxs fun e => Table.tag e.hash == Table.tag hash := by
  rw [Map.places, Table.shown, h]
  exact places_mapIdx (fun other => Table.tag other == Table.tag hash) _

theorem Indexed.filed (h : m.Indexed) (hash : UInt64) :
    m.filed hash = m.entries.toList.findIdxs (·.hash == hash) := by
  rw [Map.filed, Table.filed, h]
  exact places_mapIdx (· == hash) _

theorem Indexed.mem_places (h : m.Indexed) : place ∈ m.places hash ↔
    m.entries[place]?.any (fun e => Table.tag e.hash == Table.tag hash) = true := by
  rw [h.places, mem_findIdxs, Array.getElem?_toList]

theorem Indexed.entry (h : m.Indexed) (hp : place ∈ m.places hash) :
    ∃ e, m.entries[place]? = some e ∧ Table.tag e.hash = Table.tag hash := by
  obtain ⟨e, he, ht⟩ := (Option.any_eq_true _ _).mp (h.mem_places.mp hp)
  exact ⟨e, he, by simpa using ht⟩

theorem Indexed.shown (h : m.Indexed) {e : Entry} (he : m.entries[place]? = some e) :
    place ∈ m.places e.hash := h.mem_places.mpr (by simp [he])

theorem Indexed.append (h : m.Indexed) (e : Entry) : (m.append e).Indexed := by
  simp only [Indexed, Map.append, Table.insert, Array.toList_push, List.mapIdx_concat,
    Array.length_toList]
  rw [h]

theorem Indexed.replaceValue (h : m.Indexed) (place : Nat) (v : Value) :
    (m.replaceValue place v).Indexed := by
  rw [Indexed, Map.replaceValue, h]
  apply List.ext_getElem
  · simp
  · intro i _ _
    simp only [Array.toList_modify, List.getElem_mapIdx, List.getElem_modify]
    split <;> rfl

theorem Indexed.markRunsCode (h : m.Indexed) : m.markRunsCode.Indexed := h

/-- Only one slot holds the place, whatever other places a search for the hash is shown. -/
theorem Indexed.remove (h : m.Indexed) (hp : place ∈ m.places hash) :
    (m.index.remove hash place).slots = m.index.slots.eraseIdx place := by
  obtain ⟨e, he, ht⟩ := h.entry hp
  obtain ⟨hlt, rfl⟩ := Array.getElem?_eq_some_iff.mp he
  have hfirst : m.index.slots.findIdx?
      (fun slot => Table.tag slot.hash == Table.tag hash && slot.place == place) = some place := by
    rw [h, List.findIdx?_eq_some_iff_getElem]
    refine ⟨by simpa using hlt, by simpa using ht, fun i hi => ?_⟩
    simp [Nat.ne_of_lt hi]
  rw [Table.remove, List.eraseP_eq_eraseIdx, hfirst]

theorem Indexed.eraseAt (h : m.Indexed) (hp : place ∈ m.places hash) :
    (m.eraseAt hash place).Indexed := by
  rw [Indexed, Map.eraseAt, Table.mapPlaces, h.remove hp, h, Array.toList_eraseIdxIfInBounds]
  apply List.ext_getElem
  · simp [List.length_eraseIdx]
  · intro i _ _
    simp only [List.getElem_map, List.getElem_mapIdx, List.getElem_eraseIdx, shiftPlace]
    split
    · next hi => rw [if_neg (Nat.not_lt_of_lt hi)]
    · next hi => rw [if_pos (Nat.lt_succ_of_le (Nat.le_of_not_lt hi)), Nat.add_sub_cancel]

end

theorem mem_of_holder {m : Map} {hash : UInt64} {place : Nat} {e : Entry}
    (h : m.holder? hash place = some e) : e ∈ m.entries.toList := by
  obtain ⟨he, -⟩ := Option.filter_eq_some_iff.mp h
  exact Array.mem_toList_iff.mpr (Array.mem_of_getElem? he)

-- ---------------------------------------------------------------------------
-- Searching
-- ---------------------------------------------------------------------------

section

universe u

variable {n : Type → Type u} [Monad n] [LawfulMonad n] {ops : KeyOps n} {m : Map} {key : Value}
  {hash : UInt64} {place : Nat} {e : Entry} {eq : Value → Bool}

theorem findM?_failed (places : List Nat) (f : Failure) :
    (places.findM? (m.accepts ops key hash)).run (some f) = pure (none, some f) := by
  induction places with
  | nil => rfl
  | cons place rest ih => simp [List.findM?, accepts, ih]

theorem search_nil : m.search ops key hash [] = pure none := by
  simp only [search, List.findM?, StateT.run_pure, pure_bind]
  rfl

theorem search_none (h : m.holder? hash place = none) (rest : List Nat) :
    m.search ops key hash (place :: rest) = m.search ops key hash rest := by
  have haccepts : (m.accepts ops key hash place).run none = pure (false, none) := by
    cases he : m.entries[place]? with
    | none => simp [accepts, he]
    | some e =>
      have hh : e.hash ≠ hash := by simpa [holder?, he] using h
      simp [accepts, he, hh]
  simp only [search, List.findM?, StateT.run_bind, haccepts, pure_bind]

theorem search_some (h : m.holder? hash place = some e) (rest : List Nat) :
    m.search ops key hash (place :: rest) =
      if e.key.identical key then pure (some place)
      else ops.equals key e.key >>= fun same =>
        if same then pure (some place) else m.search ops key hash rest := by
  obtain ⟨he, hhash⟩ := Option.filter_eq_some_iff.mp h
  have hh : e.hash = hash := by simpa using hhash
  by_cases hid : e.key.identical key = true
  · have haccepts : (m.accepts ops key hash place).run none = pure (true, none) := by
      simp [accepts, he, hh, hid]
    rw [if_pos hid]
    simp only [search, List.findM?, StateT.run_bind, haccepts, pure_bind, StateT.run_pure]
    rfl
  · rw [if_neg hid]
    apply ExceptT.ext
    simp only [search, List.findM?, accepts, he, hh, hid, bne_self_eq_false, ExceptT.run_mk,
      ExceptT.run_bind, StateT.run_bind, StateT.run_get, StateT.run_monadLift, monadLift_self,
      Option.isSome_none, Bool.false_eq_true, if_false, bind_assoc, pure_bind]
    refine bind_congr fun r => ?_
    cases r with
    | error f => simp [findM?_failed]
    | ok same => cases same <;> simp

theorem search_pure (he : ∀ e ∈ m.entries.toList, ops.equals key e.key = pure (eq e.key))
    (places : List Nat) :
    m.search ops key hash places =
      pure (places.find? fun place => m.entries.toList[place]?.any fun e =>
        e.hash == hash && (e.key.identical key || eq e.key)) := by
  induction places with
  | nil => exact search_nil
  | cons place rest ih =>
    have hany : (m.entries.toList[place]?.any fun e =>
        e.hash == hash && (e.key.identical key || eq e.key)) =
        (m.holder? hash place).any fun e => e.key.identical key || eq e.key := by
      rw [holder?, Option.any_filter, Array.getElem?_toList]
    rw [List.find?_cons, hany]
    cases hp : m.holder? hash place with
    | none => exact (search_none hp rest).trans ih
    | some e =>
      rw [search_some hp, he e (mem_of_holder hp), Option.any_some, pure_bind, ih]
      cases e.key.identical key <;> cases eq e.key <;> rfl

/-- A search of the index is a search of the entries. -/
theorem find?_pure (hi : m.Indexed)
    (he : ∀ e ∈ m.entries.toList, ops.equals key e.key = pure (eq e.key)) (hash : UInt64) :
    m.find? ops key hash =
      pure (m.entries.toList.findIdx? fun e =>
        e.hash == hash && (e.key.identical key || eq e.key)) := by
  rw [Map.find?, search_pure he, hi.places, find?_findIdxs]
  refine congrArg pure (findIdx?_congr fun e _ => ?_)
  by_cases hh : e.hash = hash
  · simp [hh]
  · simp [hh]

end

end Resumable.Map
