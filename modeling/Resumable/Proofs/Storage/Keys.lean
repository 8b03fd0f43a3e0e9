import Resumable.Proofs.Storage.Assoc
import Resumable.Proofs.Storage.Setting
import Resumable.Proofs.Value.Plain

/-!
# Keys without effects

A `KeyLaw` says for which keys hashing and comparing have no effects, and what the results are.
With such keys every operation on a map is the operation on the list of its pairs that searches for
the first key that fits; `Assoc.perform` does operations on lists. A key that contains an unbound
slot has no hash, so nothing is done with it.
-/

namespace Resumable

namespace Assoc

open Storage (Op Answer)

def takeEnds : List Bool → List Value → List (Option Value)
  | [], _ => []
  | true :: ends, l => l.head? :: takeEnds ends l.tail
  | false :: ends, l => l.getLast? :: takeEnds ends l.dropLast

variable {α : Type} (fits : Value → Value → Bool)

def lookup (key : Value) (l : List (Value × Value)) : Except Failure (Option Value) :=
  if key.containsUnbound then .error Value.unboundFailure else .ok (get? (fits key) l)

def insert (key v : Value) (l : List (Value × Value)) : List (Value × Value) :=
  if key.containsUnbound then l else set (fits key) key v l

def remove (key : Value) (l : List (Value × Value)) : List (Value × Value) :=
  if key.containsUnbound then l else erase (fits key) l

variable {fits}

theorem lookup_insert_other {key other : Value} (v : Value) {l : List (Value × Value)}
    (hk : fits other key = false)
    (hl : ∀ pair ∈ l, fits key pair.1 = true → fits other pair.1 = false) :
    lookup fits other (insert fits key v l) = lookup fits other l := by
  rw [lookup, lookup, insert]
  split
  · rfl
  · split
    · rfl
    · rw [get?_set_other v hk hl]

theorem lookup_remove_other {key other : Value} {l : List (Value × Value)}
    (hl : ∀ pair ∈ l, fits key pair.1 = true → fits other pair.1 = false) :
    lookup fits other (remove fits key l) = lookup fits other l := by
  rw [lookup, lookup, remove]
  split
  · rfl
  · split
    · rfl
    · rw [get?_erase_other hl]

variable (fits)

/-- The answer to an operation on a list, and the list after it; `fits key stored` says that a
stored key is the one that is looked for. -/
def perform : Op α → List (Value × Value) → Answer α × List (Value × Value)
  | .set key v, l => (.value (lookup fits key l), insert fits key v l)
  | .get key _, l => (.value (lookup fits key l), l)
  | .getText key, l => (.value (lookup fits (.text key) l), l)
  | .pop key, l => (.value (lookup fits key l), remove fits key l)
  | .clear, _ => (.done, [])
  | .keys ends, l => (.keys (takeEnds ends (l.map (·.1))), l)
  | .forEach f start, l => (.folded (l.foldlM (fun a pair => f a pair.1 pair.2) start), l)
  | .len, l => (.number l.length, l)
  | .copy, l => (.done, l)
  | .markRunsCode, l => (.done, l)

def performAll : List (Op α) → List (Value × Value) → List (Answer α) × List (Value × Value)
  | [], l => ([], l)
  | op :: ops, l =>
    let (answer, l) := perform fits op l
    let (answers, l) := performAll ops l
    (answer :: answers, l)

end Assoc

namespace Storage

def Given (hash : Value → UInt64) (key : Value) (hash? : Option UInt64) : Prop :=
  ∀ given, hash? = some given → key.containsUnbound = false ∧ given = hash key

/-- The keys of an operation are good, and a hash that is given is the key's. -/
def Op.Uses {α : Type} (good : Value → Prop) (hash : Value → UInt64) : Op α → Prop
  | .set key _ | .pop key => good key
  | .get key hash? => good key ∧ Given hash key hash?
  | .getText key => good (.text key)
  | .clear | .keys _ | .forEach .. | .len | .copy | .markRunsCode => True

variable {m : Type → Type} [Monad m]

/-- The keys that are hashed and compared without effects. -/
structure KeyLaw (h : Hooks (StateT Setting m)) where
  good : Value → Prop
  hash : Value → UInt64
  equals : Value → Value → Bool
  hash_good : ∀ key, good key →
    key.hash h = if key.containsUnbound then throw Value.unboundFailure else pure (hash key)
  equals_good : ∀ a b, good a → good b → a.equals h b = pure (equals a b)
  hash_text : ∀ t : TextRef, hash (.text t) = Hash.ofText t.text
  equals_text : ∀ t u : TextRef, equals (.text t) (.text u) = (t.text == u.text)

namespace KeyLaw

variable {h : Hooks (StateT Setting m)} (law : KeyLaw h)

def fits (key stored : Value) : Bool := Map.fits law.hash (law.equals key) key stored

structure Holds (map : Map) : Prop where
  filed : map.Filed law.hash
  good : ∀ pair ∈ map.pairs, law.good pair.1

variable {law} {map : Map} {key : Value}

theorem holds_empty : law.Holds .empty := ⟨Map.filed_empty, fun pair hp => by simp at hp⟩

theorem holds_clear (map : Map) : law.Holds map.clear :=
  ⟨Map.filed_clear map, fun pair hp => by simp at hp⟩

theorem hash_bound (hk : law.good key) (hu : key.containsUnbound = false) :
    key.hash h = pure (law.hash key) := by
  rw [law.hash_good key hk, hu]
  rfl

theorem hash_unbound (hk : law.good key) (hu : key.containsUnbound = true) :
    key.hash h = throw Value.unboundFailure := by
  rw [law.hash_good key hk, hu]
  rfl

theorem hashOf_given {hash? : Option UInt64} (hk : law.good key)
    (hh : Given law.hash key hash?) :
    Map.hashOf (surroundings h).keys key hash? =
      if key.containsUnbound then throw Value.unboundFailure else pure (law.hash key) := by
  cases hash? with
  | none => exact law.hash_good key hk
  | some given =>
    obtain ⟨hu, rfl⟩ := hh given rfl
    rw [hu]
    rfl

theorem equals_stored (hm : law.Holds map) (hk : law.good key) :
    ∀ k ∈ map.keys, (surroundings h).keys.equals key k = pure (law.equals key k) := by
  intro k hmem
  rw [← Map.keys_eq] at hmem
  obtain ⟨pair, hpair, rfl⟩ := List.mem_map.mp hmem
  exact law.equals_good key pair.1 hk (hm.good pair hpair)

-- ---------------------------------------------------------------------------
-- On maps
-- ---------------------------------------------------------------------------

variable [LawfulMonad m]

theorem get?_holds {hash? : Option UInt64} (hm : law.Holds map) (hk : law.good key)
    (hh : Map.hashOf (surroundings h).keys key hash? = pure (law.hash key)) :
    map.get? (surroundings h).keys key hash? = pure (Assoc.get? (law.fits key) map.pairs) :=
  Map.get?_pairs hm.filed hh (equals_stored hm hk)

theorem set_holds (hm : law.Holds map) (hk : law.good key) (hu : key.containsUnbound = false)
    (v : Value) :
    ∃ map', map.set (surroundings h).keys key v =
        pure (Assoc.get? (law.fits key) map.pairs, map') ∧
      law.Holds map' ∧ map'.pairs = Assoc.set (law.fits key) key v map.pairs := by
  have hh : (surroundings h).keys.hash key = pure (law.hash key) := hash_bound hk hu
  obtain ⟨map', hset, hf, hp⟩ := Map.set_pairs hm.filed hh (equals_stored hm hk) v
  refine ⟨map', hset, ⟨hf, fun pair hpair => ?_⟩, hp⟩
  rw [hp] at hpair
  obtain he | ⟨q, hq, he⟩ := Assoc.mem_set hpair
  · rw [he]
    exact hk
  · rw [← he]
    exact hm.good q hq

theorem remove_holds (hm : law.Holds map) (hk : law.good key)
    (hu : key.containsUnbound = false) :
    ∃ old map', map.remove (surroundings h).keys key = pure (old, map') ∧
      old.map (·.value) = Assoc.get? (law.fits key) map.pairs ∧
      law.Holds map' ∧ map'.pairs = Assoc.erase (law.fits key) map.pairs := by
  have hh : (surroundings h).keys.hash key = pure (law.hash key) := hash_bound hk hu
  obtain ⟨old, map', hrem, hold, hf, hp⟩ := Map.remove_pairs hm.filed hh (equals_stored hm hk)
  refine ⟨old, map', hrem, hold, ⟨hf, fun pair hpair => ?_⟩, hp⟩
  rw [hp] at hpair
  exact hm.good pair ((Assoc.erase_sublist _).mem hpair)

-- ---------------------------------------------------------------------------
-- On storages
-- ---------------------------------------------------------------------------

variable {mem : Memory}

theorem promote_map : Gives (promote (surroundings h)) mem (.map map) (.ok map) (.map map) :=
  .bind (.memory h) (.bind .get (.bind (.set (.map map)) (.pure map)))

theorem setItem_promoted {s : Storage} {v : Value} {old : Option Value} {map' : Map}
    (hp : Gives (promote (surroundings h)) mem s (.ok map) (.map map))
    (hs : map.set (surroundings h).keys key v = pure (old, map')) :
    Gives (setItem (surroundings h) key v) mem s (.ok old) (.map map') := by
  refine .bind hp ?_
  rw [hs, pure_bind]
  exact .bind (.set (.map map')) (.pure old)

theorem removeItem_promoted {s : Storage} {old : Option Entry} {map' : Map}
    (hp : Gives (promote (surroundings h)) mem s (.ok map) (.map map))
    (hr : map.remove (surroundings h).keys key = pure (old, map')) :
    Gives (removeItem (surroundings h) key) mem s (.ok old) (.map map') := by
  refine .bind hp ?_
  rw [hr, pure_bind]
  exact .bind (.set (.map map')) (.pure old)

theorem markRunsCode_promoted {s : Storage}
    (hp : Gives (promote (surroundings h)) mem s (.ok map) (.map map)) :
    Gives (markRunsCode (surroundings h)) mem s (.ok ()) (.map map.markRunsCode) :=
  .bind hp (.set (.map map.markRunsCode))

/-- A key without a hash is not written; the storage has become a map. -/
theorem setItem_unhashable {s : Storage} {e : Failure}
    (hp : Gives (promote (surroundings h)) mem s (.ok map) (.map map))
    (hk : key.hash h = throw e) (v : Value) :
    Gives (setItem (surroundings h) key v) mem s (.error e) (.map map) := by
  have hk : (surroundings h).keys.hash key = throw e := hk
  have hs : map.set (surroundings h).keys key v = throw e := by simp [Map.set, hk]
  refine .bind hp ?_
  rw [hs]
  exact .fail (.throw e)

variable (mem)

theorem setItem_holds {s : Storage}
    (hp : Gives (promote (surroundings h)) mem s (.ok map) (.map map)) (hm : law.Holds map)
    (hk : law.good key) (v : Value) :
    ∃ map', Gives (setItem (surroundings h) key v) mem s (Assoc.lookup law.fits key map.pairs)
        (.map map') ∧
      law.Holds map' ∧ map'.pairs = Assoc.insert law.fits key v map.pairs := by
  rw [Assoc.lookup, Assoc.insert]
  split
  · next hu => exact ⟨map, setItem_unhashable hp (hash_unbound hk hu) v, hm, rfl⟩
  · next hu =>
    obtain ⟨map', hset, hm', hp'⟩ := set_holds hm hk (by simpa using hu) v
    exact ⟨map', setItem_promoted hp hset, hm', hp'⟩

theorem getItem_holds (hm : law.Holds map) {hash? : Option UInt64} (hk : law.good key)
    (hh : Given law.hash key hash?) :
    Gives (getItem (surroundings h) key hash?) mem (.map map)
      (Assoc.lookup law.fits key map.pairs) (.map map) := by
  have hhash := hashOf_given hk hh
  refine .bind .get ?_
  dsimp only
  rw [Assoc.lookup]
  split
  · next hu =>
    rw [if_pos hu] at hhash
    have hg : map.get? (surroundings h).keys key hash? = throw Value.unboundFailure := by
      simp [Map.get?, hhash]
    rw [hg]
    exact .throw _
  · next hu =>
    rw [if_neg hu] at hhash
    rw [get?_holds hm hk hhash]
    exact .pure _

theorem getText_holds (hm : law.Holds map) {name : TextRef} (hk : law.good (.text name)) :
    Gives (getText (surroundings h) name) mem (.map map)
      (Assoc.lookup law.fits (.text name) map.pairs) (.map map) := by
  have hh : Map.hashOf (surroundings h).keys (.text name) (some (Hash.ofText name.text)) =
      pure (law.hash (.text name)) := by
    rw [law.hash_text]
    rfl
  refine .bind .get ?_
  dsimp only
  rw [get?_holds hm hk hh]
  exact .pure _

theorem pop_holds (hm : law.Holds map) (hk : law.good key) :
    ∃ map', Gives (pop (surroundings h) key) mem (.map map)
        (Assoc.lookup law.fits key map.pairs) (.map map') ∧
      law.Holds map' ∧ map'.pairs = Assoc.remove law.fits key map.pairs := by
  rw [Assoc.lookup, Assoc.remove]
  split
  · next hu =>
    have hkey : (surroundings h).keys.hash key = throw Value.unboundFailure := hash_unbound hk hu
    have hr : map.remove (surroundings h).keys key = throw Value.unboundFailure := by
      simp [Map.remove, hkey]
    have hrem : Gives (removeItem (surroundings h) key) mem (.map map)
        (.error Value.unboundFailure) (.map map) := by
      refine .bind promote_map ?_
      rw [hr]
      exact .fail (.throw _)
    exact ⟨map, .bind .get (.fail hrem), hm, rfl⟩
  · next hu =>
    obtain ⟨old, map', hrem, hold, hm', hp⟩ := remove_holds hm hk (by simpa using hu)
    rw [← hold]
    exact ⟨map', .bind .get (.bind (removeItem_promoted promote_map hrem) (.pure _)), hm', hp⟩

-- ---------------------------------------------------------------------------
-- One step
-- ---------------------------------------------------------------------------

variable {mem}

theorem take_keys (ends : List Bool) (keys : List Value) :
    Cursor.take mem ends (.keys keys) = Assoc.takeEnds ends keys := by
  induction ends generalizing keys with
  | nil => rfl
  | cons front ends ih =>
    cases front with
    | true =>
      cases keys with
      | nil => simp [Cursor.take, Cursor.next, Assoc.takeEnds, ih]
      | cons key rest => simp [Cursor.take, Cursor.next, Assoc.takeEnds, ih]
    | false => simp [Cursor.take, Cursor.nextBack, Assoc.takeEnds, ih]

theorem foldPairs_pure {α : Type} (f : α → Value → Value → Except Failure α)
    (l : List (Value × Value)) (a : α) :
    foldPairs (foldStep f : α → Value → Value → ExceptT Failure (StateT Setting m) α) l a =
      ExceptT.mk (pure (l.foldlM (fun a pair => f a pair.1 pair.2) a)) := by
  induction l generalizing a with
  | nil => rfl
  | cons pair rest ih =>
    obtain ⟨key, v⟩ := pair
    rw [foldPairs, List.foldlM_cons, foldStep]
    cases f a key v with
    | ok b =>
      have hb : (ExceptT.mk (pure (.ok b)) : ExceptT Failure (StateT Setting m) α) = pure b := rfl
      rw [hb, pure_bind, ih]
      rfl
    | error e =>
      have he : (ExceptT.mk (pure (.error e)) : ExceptT Failure (StateT Setting m) α) = throw e :=
        rfl
      rw [he, ExceptT.bind_throw]
      rfl

variable {α : Type}

/-- An operation on a map is the operation on its pairs. -/
theorem perform_holds {op : Op α} (hm : law.Holds map) (hop : op.Uses law.good law.hash)
    (mem : Memory) (lookups : List Bool) :
    ∃ map' later, (perform h op).run ⟨mem, .map map, lookups⟩ =
        pure ((Assoc.perform law.fits op map.pairs).1, ⟨mem, .map map', later⟩) ∧
      law.Holds map' ∧ map'.pairs = (Assoc.perform law.fits op map.pairs).2 := by
  cases op with
  | set key v =>
    obtain ⟨map', hx, hm', hp⟩ := setItem_holds mem promote_map hm hop v
    obtain ⟨later, hx⟩ := hx.value lookups
    exact ⟨map', later, hx, hm', hp⟩
  | get key hash? =>
    obtain ⟨later, hx⟩ := (getItem_holds mem hm hop.1 hop.2).value lookups
    exact ⟨map, later, hx, hm, rfl⟩
  | getText key =>
    obtain ⟨later, hx⟩ := (getText_holds mem hm hop).value lookups
    exact ⟨map, later, hx, hm, rfl⟩
  | pop key =>
    obtain ⟨map', hx, hm', hp⟩ := pop_holds mem hm hop
    obtain ⟨later, hx⟩ := hx.value lookups
    exact ⟨map', later, hx, hm', hp⟩
  | clear => exact ⟨map.clear, lookups, run_clear h _, holds_clear map, rfl⟩
  | keys ends =>
    refine ⟨map, lookups, ?_, hm, rfl⟩
    rw [run_keys]
    simp [Cursor.ofStorage, take_keys, Assoc.perform, Map.keys_eq]
  | forEach f start =>
    refine ⟨map, lookups, ?_, hm, rfl⟩
    rw [run_forEach, forEach, foldPairs_pure]
    simp [Assoc.perform]
  | len =>
    refine ⟨map, lookups, ?_, hm, rfl⟩
    rw [run_len]
    simp [size, Assoc.perform, Map.length_pairs]
  | copy => exact ⟨map, lookups, run_copy h _, hm, rfl⟩
  | markRunsCode =>
    obtain ⟨later, hx⟩ := run_markRunsCode h (markRunsCode_promoted promote_map) lookups
    exact ⟨map.markRunsCode, later, hx, ⟨hm.filed.markRunsCode, hm.good⟩, rfl⟩

end KeyLaw

end Storage

end Resumable
