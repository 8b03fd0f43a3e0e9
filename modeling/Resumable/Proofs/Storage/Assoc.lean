import Resumable.Proofs.Storage.Index

/-!
# Association lists

A list of pairs, searched from the front for the first key that fits, is what a map is read
against. The operations on maps are those on the pairs of their entries, whatever the hashes are,
if hashing and comparing have no effects. Those on texts never have any.
-/

namespace Resumable

namespace Assoc

variable (fits : Value → Bool)

def get? : List (Value × Value) → Option Value
  | [] => none
  | (key, v) :: rest => if fits key then some v else get? rest

def replace (v : Value) : List (Value × Value) → List (Value × Value)
  | [] => []
  | (key, old) :: rest => if fits key then (key, v) :: rest else (key, old) :: replace v rest

/-- A new key goes to the end. -/
def set (key v : Value) (l : List (Value × Value)) : List (Value × Value) :=
  if (get? fits l).isSome then replace fits v l else l ++ [(key, v)]

def erase : List (Value × Value) → List (Value × Value)
  | [] => []
  | (key, v) :: rest => if fits key then rest else (key, v) :: erase rest

-- ---------------------------------------------------------------------------
-- By place
-- ---------------------------------------------------------------------------

variable {fits}

theorem get?_eq (l : List (Value × Value)) :
    get? fits l = (l.findIdx? fun pair => fits pair.1).bind fun place => l[place]?.map (·.2) := by
  induction l with
  | nil => rfl
  | cons pair rest ih =>
    obtain ⟨key, v⟩ := pair
    rw [get?, List.findIdx?_cons, ih]
    by_cases h : fits key = true
    · simp [h]
    · cases hr : rest.findIdx? fun pair => fits pair.1 <;> simp [h]

theorem get?_isSome (l : List (Value × Value)) :
    (get? fits l).isSome = (l.findIdx? fun pair => fits pair.1).isSome := by
  induction l with
  | nil => rfl
  | cons pair rest ih =>
    obtain ⟨key, v⟩ := pair
    rw [get?, List.findIdx?_cons]
    by_cases h : fits key = true
    · simp [h]
    · simpa [h] using ih

theorem replace_eq {l : List (Value × Value)} {place : Nat} (v : Value)
    (h : (l.findIdx? fun pair => fits pair.1) = some place) :
    replace fits v l = l.modify place fun pair => (pair.1, v) := by
  induction l generalizing place with
  | nil => simp at h
  | cons pair rest ih =>
    obtain ⟨key, old⟩ := pair
    rw [List.findIdx?_cons] at h
    rw [replace]
    split at h
    · next hf =>
      cases h
      rw [if_pos hf]
      rfl
    · next hf =>
      obtain ⟨i, hi, rfl⟩ := Option.map_eq_some_iff.mp h
      rw [if_neg hf, ih hi, List.modify_succ_cons]

theorem erase_eq {l : List (Value × Value)} {place : Nat}
    (h : (l.findIdx? fun pair => fits pair.1) = some place) :
    erase fits l = l.eraseIdx place := by
  induction l generalizing place with
  | nil => simp at h
  | cons pair rest ih =>
    obtain ⟨key, old⟩ := pair
    rw [List.findIdx?_cons] at h
    rw [erase]
    split at h
    · next hf =>
      cases h
      rw [if_pos hf]
      rfl
    · next hf =>
      obtain ⟨i, hi, rfl⟩ := Option.map_eq_some_iff.mp h
      rw [if_neg hf, ih hi, List.eraseIdx_cons_succ]

theorem get?_eq_none {l : List (Value × Value)} :
    get? fits l = none ↔ ∀ pair ∈ l, fits pair.1 = false := by
  induction l with
  | nil => simp [get?]
  | cons pair rest ih =>
    rw [get?]
    split
    · next hf => simp [hf]
    · next hf => simp [ih, hf]

theorem erase_of_none {l : List (Value × Value)} (h : get? fits l = none) : erase fits l = l := by
  induction l with
  | nil => rfl
  | cons pair rest ih =>
    obtain ⟨key, v⟩ := pair
    rw [get?] at h
    split at h
    · cases h
    · next hf => rw [erase, if_neg hf, ih h]

/-- Where one key fits at most, none fits once it is removed. -/
theorem get?_erase {l : List (Value × Value)}
    (h : l.Pairwise fun p q => fits p.1 = true → fits q.1 = false) :
    get? fits (erase fits l) = none := by
  induction l with
  | nil => rfl
  | cons pair rest ih =>
    obtain ⟨hp, hr⟩ := List.pairwise_cons.mp h
    rw [erase]
    split
    · next hf => exact get?_eq_none.mpr fun q hq => hp q hq hf
    · next hf => rw [get?, if_neg hf, ih hr]

-- ---------------------------------------------------------------------------
-- Other keys
-- ---------------------------------------------------------------------------

variable {other : Value → Bool}

theorem get?_congr {l : List (Value × Value)} (h : ∀ pair ∈ l, fits pair.1 = other pair.1) :
    get? fits l = get? other l := by
  induction l with
  | nil => rfl
  | cons pair rest ih =>
    rw [get?, get?, h pair (by simp), ih fun q hq => h q (by simp [hq])]

theorem replace_congr {l : List (Value × Value)} (v : Value)
    (h : ∀ pair ∈ l, fits pair.1 = other pair.1) : replace fits v l = replace other v l := by
  induction l with
  | nil => rfl
  | cons pair rest ih =>
    rw [replace, replace, h pair (by simp), ih fun q hq => h q (by simp [hq])]

theorem set_congr {l : List (Value × Value)} (key v : Value)
    (h : ∀ pair ∈ l, fits pair.1 = other pair.1) : set fits key v l = set other key v l := by
  rw [set, set, get?_congr h, replace_congr v h]

theorem erase_congr {l : List (Value × Value)} (h : ∀ pair ∈ l, fits pair.1 = other pair.1) :
    erase fits l = erase other l := by
  induction l with
  | nil => rfl
  | cons pair rest ih =>
    rw [erase, erase, h pair (by simp), ih fun q hq => h q (by simp [hq])]

theorem keys_replace (v : Value) (l : List (Value × Value)) :
    (replace fits v l).map (·.1) = l.map (·.1) := by
  induction l with
  | nil => rfl
  | cons pair rest ih =>
    rw [replace]
    split
    · rfl
    · simp [ih]

theorem mem_set {l : List (Value × Value)} {key v : Value} {pair : Value × Value}
    (h : pair ∈ set fits key v l) : pair.1 = key ∨ ∃ q ∈ l, q.1 = pair.1 := by
  have hk : pair.1 ∈ (set fits key v l).map (·.1) := List.mem_map_of_mem h
  rw [set] at hk
  split at hk
  · rw [keys_replace] at hk
    exact .inr (List.mem_map.mp hk)
  · rw [List.map_append, List.mem_append] at hk
    obtain hk | hk := hk
    · exact .inr (List.mem_map.mp hk)
    · exact .inl (by simpa using hk)

theorem erase_sublist (l : List (Value × Value)) : (erase fits l).Sublist l := by
  induction l with
  | nil => exact .slnil
  | cons pair rest ih =>
    rw [erase]
    split
    · exact List.sublist_cons_self _ _
    · exact ih.cons_cons _

theorem get?_replace_other (v : Value) {l : List (Value × Value)}
    (h : ∀ pair ∈ l, fits pair.1 = true → other pair.1 = false) :
    get? other (replace fits v l) = get? other l := by
  induction l with
  | nil => rfl
  | cons pair rest ih =>
    rw [replace]
    split
    · next hf => simp [get?, h pair (by simp) hf]
    · rw [get?, get?, ih fun q hq => h q (by simp [hq])]

theorem get?_append_other {key v : Value} (hk : other key = false) (l : List (Value × Value)) :
    get? other (l ++ [(key, v)]) = get? other l := by
  induction l with
  | nil => simp [get?, hk]
  | cons pair rest ih => rw [List.cons_append, get?, get?, ih]

theorem get?_set_other {key : Value} (v : Value) {l : List (Value × Value)}
    (hk : other key = false) (h : ∀ pair ∈ l, fits pair.1 = true → other pair.1 = false) :
    get? other (set fits key v l) = get? other l := by
  rw [set]
  split
  · exact get?_replace_other v h
  · exact get?_append_other hk l

theorem get?_erase_other {l : List (Value × Value)}
    (h : ∀ pair ∈ l, fits pair.1 = true → other pair.1 = false) :
    get? other (erase fits l) = get? other l := by
  induction l with
  | nil => rfl
  | cons pair rest ih =>
    rw [erase]
    split
    · next hf => rw [get?, h pair (by simp) hf, if_neg Bool.false_ne_true]
    · rw [get?, get?, ih fun q hq => h q (by simp [hq])]

end Assoc

namespace Map

def Hashed (hash : Value → UInt64) (m : Map) : Prop :=
  ∀ e ∈ m.entries.toList, e.hash = hash e.key

/-- What the index promises, for a function that hashes keys. -/
structure Filed (hash : Value → UInt64) (m : Map) : Prop where
  indexed : m.Indexed
  hashed : m.Hashed hash

section

universe u

variable {n : Type → Type u} [Monad n] [LawfulMonad n] {ops : KeyOps n} {m : Map} {key : Value}
  {hash : Value → UInt64} {eq : Value → Bool}

/-- The stored keys that a search for a key stops at. -/
def fits (hash : Value → UInt64) (eq : Value → Bool) (key : Value) (stored : Value) : Bool :=
  hash stored == hash key && (stored.identical key || eq stored)

theorem find?_pairs (hm : m.Filed hash)
    (he : ∀ k ∈ m.keys, ops.equals key k = pure (eq k)) :
    m.find? ops key (hash key) =
      pure (m.pairs.findIdx? fun pair => fits hash eq key pair.1) := by
  have he' : ∀ e ∈ m.entries.toList, ops.equals key e.key = pure (eq e.key) := fun e h =>
    he e.key (List.mem_map_of_mem h)
  rw [find?_pure hm.indexed he', pairs, List.findIdx?_map]
  refine congrArg pure (findIdx?_congr ?_)
  intro e h
  simp only [Function.comp_apply, fits, hm.hashed e h]

theorem keys_eq (m : Map) : m.pairs.map (·.1) = m.keys := by simp [keys, pairs]

theorem length_pairs (m : Map) : m.pairs.length = m.size := by simp [size, pairs]

theorem getElem?_value (m : Map) (place : Nat) :
    m.entries[place]?.map (·.value) = m.pairs[place]?.map (·.2) := by
  rw [pairs, List.getElem?_map, Array.getElem?_toList, Option.map_map]
  rfl

theorem pairs_replaceValue (m : Map) (place : Nat) (v : Value) :
    (m.replaceValue place v).pairs = m.pairs.modify place fun pair => (pair.1, v) := by
  apply List.ext_getElem
  · simp [replaceValue, pairs]
  · simp only [replaceValue, pairs, Array.toList_modify, List.getElem_map, List.getElem_modify]
    intro i _ _
    split <;> rfl

variable {hash? : Option UInt64}

theorem get?_pairs (hm : m.Filed hash) (hk : hashOf ops key hash? = pure (hash key))
    (he : ∀ k ∈ m.keys, ops.equals key k = pure (eq k)) :
    m.get? ops key hash? = pure (Assoc.get? (fits hash eq key) m.pairs) := by
  rw [Map.get?, hk, pure_bind, find?_pairs hm he, pure_bind, Assoc.get?_eq]
  simp only [getElem?_value]

theorem Filed.append (hm : m.Filed hash) (key v : Value) :
    (m.append ⟨key, v, hash key⟩).Filed hash := by
  refine ⟨hm.indexed.append _, fun e he => ?_⟩
  simp only [Map.append, Array.toList_push, List.mem_append, List.mem_singleton] at he
  obtain he | rfl := he
  · exact hm.hashed e he
  · rfl

theorem Filed.replaceValue (hm : m.Filed hash) (place : Nat) (v : Value) :
    (m.replaceValue place v).Filed hash := by
  refine ⟨hm.indexed.replaceValue place v, fun e he => ?_⟩
  simp only [Map.replaceValue, Array.toList_modify] at he
  obtain ⟨i, hi, rfl⟩ := List.getElem_of_mem he
  have hi' : i < m.entries.toList.length := by simpa using hi
  have h := hm.hashed _ (List.getElem_mem hi')
  rw [List.getElem_modify]
  split
  · exact h
  · exact h

theorem Filed.eraseAt (hm : m.Filed hash) {given : UInt64} {place : Nat}
    (hp : place ∈ m.places given) : (m.eraseAt given place).Filed hash := by
  refine ⟨hm.indexed.eraseAt hp, fun e he => ?_⟩
  rw [Map.eraseAt, Array.toList_eraseIdxIfInBounds] at he
  exact hm.hashed e (List.mem_of_mem_eraseIdx he)

theorem Filed.markRunsCode (hm : m.Filed hash) : m.markRunsCode.Filed hash := ⟨hm.1, hm.2⟩

theorem filed_empty : empty.Filed hash := ⟨indexed_empty, fun e he => by simp [empty] at he⟩

theorem filed_clear (m : Map) : m.clear.Filed hash :=
  ⟨indexed_clear m, fun e he => by simp [clear] at he⟩

theorem set_pairs (hm : m.Filed hash) (hk : ops.hash key = pure (hash key))
    (he : ∀ k ∈ m.keys, ops.equals key k = pure (eq k)) (v : Value) :
    ∃ m', m.set ops key v = pure (Assoc.get? (fits hash eq key) m.pairs, m') ∧
      m'.Filed hash ∧ m'.pairs = Assoc.set (fits hash eq key) key v m.pairs := by
  have hs : (Assoc.get? (fits hash eq key) m.pairs).isSome =
      (m.pairs.findIdx? fun pair => fits hash eq key pair.1).isSome := Assoc.get?_isSome m.pairs
  rw [Map.set, hk, pure_bind, find?_pairs hm he, pure_bind, Assoc.set, hs, Assoc.get?_eq]
  cases hp : m.pairs.findIdx? fun pair => fits hash eq key pair.1 with
  | some place =>
    refine ⟨m.replaceValue place v, ?_, hm.replaceValue place v, ?_⟩
    · simp only [Option.bind_some, getElem?_value]
    · rw [pairs_replaceValue, Option.isSome_some, if_pos rfl, Assoc.replace_eq v hp]
  | none =>
    refine ⟨_, rfl, ?_, ?_⟩
    · split
      · exact hm.markRunsCode.append key v
      · exact hm.append key v
    · split <;> simp

theorem Filed.shown (hm : m.Filed hash) {place : Nat}
    (hp : (m.pairs.findIdx? fun pair => fits hash eq key pair.1) = some place) :
    place ∈ m.places (hash key) := by
  obtain ⟨hlt, hfits, -⟩ := List.findIdx?_eq_some_iff_getElem.mp hp
  have hlt : place < m.entries.size := by simpa [pairs] using hlt
  have hhash : m.entries[place].hash = hash key := by
    rw [hm.hashed _ (Array.mem_toList_iff.mpr (Array.getElem_mem hlt))]
    simp only [fits, pairs, List.getElem_map, Array.getElem_toList, Bool.and_eq_true,
      beq_iff_eq] at hfits
    exact hfits.1
  rw [← hhash]
  exact hm.indexed.shown (Array.getElem?_eq_getElem hlt)

theorem remove_pairs (hm : m.Filed hash) (hk : ops.hash key = pure (hash key))
    (he : ∀ k ∈ m.keys, ops.equals key k = pure (eq k)) :
    ∃ old m', m.remove ops key = pure (old, m') ∧
      old.map (·.value) = Assoc.get? (fits hash eq key) m.pairs ∧
      m'.Filed hash ∧ m'.pairs = Assoc.erase (fits hash eq key) m.pairs := by
  rw [Map.remove, hk, pure_bind, find?_pairs hm he, pure_bind, Assoc.get?_eq]
  cases hp : m.pairs.findIdx? fun pair => fits hash eq key pair.1 with
  | some place =>
    refine ⟨m.entries[place]?, m.eraseAt _ place, rfl, ?_, hm.eraseAt (hm.shown hp), ?_⟩
    · rw [getElem?_value, Option.bind_some]
    · rw [pairs_eraseAt, Assoc.erase_eq hp]
  | none =>
    refine ⟨none, m, rfl, rfl, hm, ?_⟩
    rw [Assoc.erase_of_none]
    rw [Assoc.get?_eq, hp, Option.bind_none]

end

end Map

-- ---------------------------------------------------------------------------
-- Texts
-- ---------------------------------------------------------------------------

namespace Assoc

/-- The pairs of texts that are set one after the other. A text that comes again keeps its place and
gets the later value. -/
def ofTexts (l : List (TextRef × Value)) : List (Value × Value) :=
  l.foldl (fun pairs x => set (·.asText == some x.1.text) (.text x.1) x.2 pairs) []

theorem setTexts_distinct {l : List (TextRef × Value)} {pairs : List (Value × Value)}
    (hd : (l.map (·.1.text)).Nodup)
    (hn : ∀ x ∈ l, ∀ pair ∈ pairs, pair.1.asText ≠ some x.1.text) :
    l.foldl (fun pairs x => set (·.asText == some x.1.text) (.text x.1) x.2 pairs) pairs =
      pairs ++ l.map fun x => (.text x.1, x.2) := by
  induction l generalizing pairs with
  | nil => simp
  | cons x l ih =>
    obtain ⟨hx, hd⟩ := List.nodup_cons.mp hd
    have hnone : get? (·.asText == some x.1.text) pairs = none :=
      get?_eq_none.mpr fun pair hp => beq_false_of_ne (hn x List.mem_cons_self pair hp)
    have hset : set (·.asText == some x.1.text) (.text x.1) x.2 pairs =
        pairs ++ [(.text x.1, x.2)] := by
      rw [set, hnone]
      rfl
    rw [List.foldl_cons, hset, ih hd, List.append_assoc]
    · rfl
    · intro y hy pair hp
      obtain hp | hp := List.mem_append.mp hp
      · exact hn y (List.mem_cons_of_mem _ hy) pair hp
      · rw [List.mem_singleton.mp hp]
        exact fun he => hx (List.mem_map.mpr ⟨y, hy, (Option.some.inj he).symm⟩)

theorem ofTexts_distinct {l : List (TextRef × Value)} (hd : (l.map (·.1.text)).Nodup) :
    ofTexts l = l.map fun x => (.text x.1, x.2) :=
  setTexts_distinct hd fun _ _ _ h => absurd h List.not_mem_nil

end Assoc

namespace Map

/-- The hash of a text; no other key is asked for one. -/
def textHash (key : Value) : UInt64 := Hash.ofText (key.asText.getD "")

variable {m : Map}

theorem Filed.findText? (h : m.Filed textHash) (text : String) :
    m.findText? text = m.pairs.findIdx? fun pair => pair.1.asText == some text := by
  have hsearch : m.findText? text = (m.entries.toList.findIdxs fun e =>
      Table.tag e.hash == Table.tag (Hash.ofText text)).find? fun place =>
        m.entries.toList[place]?.any fun e => e.key.asText == some text := by
    rw [Map.findText?, h.indexed.places]
    simp only [Array.getElem?_toList]
  rw [hsearch, find?_findIdxs, pairs, List.findIdx?_map]
  refine findIdx?_congr fun e he => ?_
  by_cases ht : e.key.asText = some text
  · simp [h.hashed e he, textHash, ht]
  · simp [ht]

theorem Filed.setText (h : m.Filed textHash) (key : TextRef) (v : Value) :
    (m.setText key v).2.Filed textHash ∧ (m.setText key v).2.pairs =
      Assoc.set (·.asText == some key.text) (.text key) v m.pairs := by
  rw [Map.setText, h.findText?, Assoc.set, Assoc.get?_isSome]
  cases hp : m.pairs.findIdx? fun pair => pair.1.asText == some key.text with
  | none => exact ⟨h.append (.text key) v, pairs_append m _⟩
  | some place =>
    refine ⟨h.replaceValue place v, ?_⟩
    rw [Option.isSome_some, if_pos rfl, Assoc.replace_eq v hp]
    exact pairs_replaceValue m place v

theorem Filed.setTexts (h : m.Filed textHash) (l : List (TextRef × Value)) :
    (l.foldl (fun m x => (m.setText x.1 x.2).2) m).Filed textHash ∧
      (l.foldl (fun m x => (m.setText x.1 x.2).2) m).pairs = l.foldl (fun pairs x =>
        Assoc.set (·.asText == some x.1.text) (.text x.1) x.2 pairs) m.pairs := by
  induction l generalizing m with
  | nil => exact ⟨h, rfl⟩
  | cons x l ih =>
    obtain ⟨hset, hpairs⟩ := h.setText x.1 x.2
    rw [List.foldl_cons, List.foldl_cons, ← hpairs]
    exact ih hset

end Map

end Resumable
