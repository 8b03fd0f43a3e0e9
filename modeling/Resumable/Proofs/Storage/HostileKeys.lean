import Resumable.Proofs.Storage.Hosted
import Resumable.Proofs.Storage.Index

/-!
# Maps under hostile keys

Whether a key is found in a map, and where, is up to programs, which may be inconsistent, answer
differently each time, and fail. Whatever they do, every entry stays filed once under the hash it
was stored with, an operation that fails leaves the map as it was, and one that succeeds changes,
adds or removes one entry and no other.
-/

namespace Resumable

variable {σ : Type}

namespace Map

-- ---------------------------------------------------------------------------
-- The index
-- ---------------------------------------------------------------------------

section

variable {m : Map} {place : Nat}

/-- Every place of an entry is filed once, under the hash of the entry, and nothing else is. -/
def FiledOnce (m : Map) : Prop :=
  ∀ hash place, (m.filed hash).count place =
    if m.entries[place]?.any (·.hash == hash) then 1 else 0

theorem Indexed.filedOnce (h : m.Indexed) : m.FiledOnce := by
  intro hash place
  rw [h.filed, List.nodup_findIdxs.count]
  simp only [mem_findIdxs, Array.getElem?_toList]

theorem FiledOnce.entry (h : m.FiledOnce) {hash : UInt64} (hp : place ∈ m.filed hash) :
    ∃ e, m.entries[place]? = some e ∧ e.hash = hash := by
  have hcount := List.count_pos_iff.mpr hp
  rw [h hash place] at hcount
  split at hcount
  · next hany =>
    obtain ⟨e, he, hh⟩ := (Option.any_eq_true _ _).mp hany
    exact ⟨e, he, by simpa using hh⟩
  · cases hcount

theorem FiledOnce.lt_size (h : m.FiledOnce) {hash : UInt64} (hp : place ∈ m.places hash) :
    place < m.size := by
  obtain ⟨slot, hslot, rfl⟩ := List.mem_map.mp hp
  have hfiled : slot.place ∈ m.filed slot.hash :=
    List.mem_map_of_mem (List.mem_filter.mpr ⟨(List.mem_filter.mp hslot).1, beq_self_eq_true _⟩)
  obtain ⟨e, he, -⟩ := h.entry hfiled
  exact (Array.getElem?_eq_some_iff.mp he).1

theorem Indexed.setText (h : m.Indexed) (key : TextRef) (v : Value) :
    (m.setText key v).2.Indexed := by
  unfold Map.setText
  split
  · exact h.replaceValue _ v
  · exact h.append _

theorem indexed_ofDistinctTexts (pairs : List (TextRef × Value)) :
    (ofDistinctTexts pairs).Indexed :=
  List.foldlRecOn pairs _ indexed_empty fun _ h _ _ => h.append _

end

-- ---------------------------------------------------------------------------
-- Operations
-- ---------------------------------------------------------------------------

inductive Op where
  | set (key v : Value)
  | get (key : Value) (hash? : Option UInt64)
  | getText (key : TextRef)
  | remove (key : Value)
  | setText (key : TextRef) (v : Value)
  | clear
  | markRunsCode

namespace Op

def perform : Op → OnStorage σ (Option Value)
  | .set key v => Storage.setItem hosted.toSurroundings key v
  | .get key hash? => Storage.getItem hosted.toSurroundings key hash?
  | .getText key => Storage.getText hosted.toSurroundings key
  | .remove key => Storage.pop hosted.toSurroundings key
  | .setText key v => modifyGet fun
    | .map m => ((m.setText key v).1, .map (m.setText key v).2)
    | s => (none, s)
  | .clear => do
    modifyThe Storage Storage.clear
    return none
  | .markRunsCode => do
    Storage.markRunsCode hosted.toSurroundings
    return none

inductive Writes : Op → Value → Value → Prop
  | set : Writes (.set key v) key v
  | setText : Writes (.setText key v) (.text key) v

inductive Reads : Op → Prop
  | get : Reads (.get key hash?)
  | getText : Reads (.getText key)

end Op

/-- What an operation does, to the entries and to what the map says of its keys, and its result. -/
inductive Does (m : Map) : Op → Except Failure (Option Value) → Map → Prop
  | failed : Does m op (.error e) m
  | replaced {place : Nat} {e : Entry} : Op.Writes op key v → m.entries[place]? = some e →
      m'.entries = m.entries.modify place ({ · with value := v }) → m'.runsCode = m.runsCode →
      Does m op (.ok (some e.value)) m'
  | appended {hash : UInt64} : Op.Writes op key v → m'.entries = m.entries.push ⟨key, v, hash⟩ →
      m'.runsCode = (m.runsCode || key.mayRunCode) → Does m op (.ok none) m'
  | found {place : Nat} {e : Entry} : Op.Reads op → m.entries[place]? = some e →
      Does m op (.ok (some e.value)) m
  | missed : Op.Reads op → Does m op (.ok none) m
  | removed {place : Nat} {e : Entry} : m.entries[place]? = some e →
      m'.entries.toList = m.entries.toList.eraseIdx place → m'.runsCode = m.runsCode →
      Does m (.remove key) (.ok (some e.value)) m'
  | absent : Does m (.remove key) (.ok none) m
  | cleared : m'.entries = #[] → m'.runsCode = m.runsCode → Does m .clear (.ok none) m'
  | marked : m'.entries = m.entries → m'.runsCode = true → Does m .markRunsCode (.ok none) m'

/-- The storage is what an operation has made of the map, whatever the world is. -/
def After (m : Map) (op : Op) (r : Except Failure (Option Value)) (_ : World σ) (s : Storage) :
    Prop := ∃ m', s = .map m' ∧ m'.Indexed ∧ m.Does op r m'

end Map

-- ---------------------------------------------------------------------------
-- What the parts of an operation come to
-- ---------------------------------------------------------------------------

namespace Host

variable {host : Host σ} {n : Nat} {c : Ref .context} {w : World σ} {s : Storage} {m : Map}
  {key v : Value}

/-- A search has no way to find a place that it was not shown. -/
theorem search_comes (host : Host σ) (n : Nat) (c : Ref .context) (m : Map) (key : Value)
    (hash : UInt64) (places : List Nat) (w : World σ) (s : Storage) :
    host.Comes n c (m.search hosted.keys key hash places) w s fun r _ s' =>
      s' = s ∧ ∀ place, r = .ok (some place) → place ∈ places := by
  induction places generalizing w with
  | nil =>
    rw [Map.search_nil]
    exact .pure ⟨rfl, fun _ h => by cases h⟩
  | cons place rest ih =>
    have hrest : ∀ v, host.Comes n c (m.search hosted.keys key hash rest) v s fun r _ s' =>
        s' = s ∧ ∀ p, r = .ok (some p) → p ∈ place :: rest := fun v =>
      (ih v).mono fun _ _ _ h => ⟨h.1, fun p hp => List.mem_cons_of_mem _ (h.2 p hp)⟩
    have hhere : ∀ v, host.Comes n c (pure (some place)) v s fun r _ s' =>
        s' = s ∧ ∀ p, r = .ok (some p) → p ∈ place :: rest := fun v =>
      .pure ⟨rfl, fun p hp => by cases hp; exact List.mem_cons_self ..⟩
    cases he : m.holder? hash place with
    | none =>
      rw [Map.search_none he]
      exact hrest w
    | some e =>
      rw [Map.search_some he]
      split
      · exact hhere w
      · refine .bind (P := fun _ _ t => t = s) (.equals fun _ _ => rfl) ?_ ?_
        · rintro same v _ rfl
          cases same
          · exact hrest v
          · exact hhere v
        · rintro _ _ _ rfl
          exact ⟨rfl, fun _ h => by cases h⟩

theorem find_comes (host : Host σ) (n : Nat) (c : Ref .context) (m : Map) (key : Value)
    (hash : UInt64) (w : World σ) (s : Storage) :
    host.Comes n c (m.find? hosted.keys key hash) w s fun r _ s' =>
      s' = s ∧ ∀ place, r = .ok (some place) → place ∈ m.places hash :=
  search_comes host n c m key hash (m.places hash) w s

/-- What is done with a place that a key has led to is all there is to an operation that succeeds. -/
theorem probe_comes {P : α → Prop} {f : UInt64 → Option Nat → OnStorage σ α} (key : Value)
    (hash? : Option UInt64)
    (hf : ∀ hash place?, (∀ place, place? = some place → place ∈ m.places hash) →
      ∃ a, f hash place? = pure a ∧ P a) (w : World σ) (s : Storage) :
    host.Comes n c (do
      let hash ← Map.hashOf hosted.keys key hash?
      let place? ← m.find? hosted.keys key hash
      f hash place?) w s fun r _ s' => s' = s ∧ ∀ a, r = .ok a → P a := by
  refine .bind (P := fun _ _ t => t = s) (.hashOf fun _ _ => rfl) ?_ ?_
  · rintro hash u _ rfl
    refine .bind (find_comes host n c m key hash u _) ?_ ?_
    · rintro place? v _ ⟨rfl, hplace⟩
      obtain ⟨a, ha, hP⟩ := hf hash place? fun place hp => hplace place (congrArg _ hp)
      rw [ha]
      refine .pure ⟨rfl, fun a' hr => ?_⟩
      cases hr
      exact hP
    · rintro _ _ _ ⟨rfl, -⟩
      exact ⟨rfl, nofun⟩
  · rintro _ _ _ rfl
    exact ⟨rfl, nofun⟩

theorem mapGet_comes (hm : m.Indexed) (key : Value) (hash? : Option UInt64) (w : World σ)
    (s : Storage) :
    host.Comes n c (m.get? hosted.keys key hash?) w s fun r _ s' =>
      s' = s ∧ ∀ v, r = .ok (some v) → ∃ (place : Nat) (e : Entry),
        m.entries[place]? = some e ∧ e.value = v := by
  have hprobe : host.Comes n c (m.get? hosted.keys key hash?) w s fun r _ s' =>
      s' = s ∧ ∀ found, r = .ok found → ∀ v, found = some v → ∃ (place : Nat) (e : Entry),
        m.entries[place]? = some e ∧ e.value = v := by
    refine probe_comes key hash? (fun hash place? hplace => ⟨_, rfl, fun v hv => ?_⟩) w s
    cases place? with
    | none => cases hv
    | some place =>
      obtain ⟨e, he, -⟩ := hm.entry (hplace place rfl)
      refine ⟨place, e, he, ?_⟩
      simpa [he] using hv
  exact hprobe.mono fun _ _ _ h => ⟨h.1, fun v hr => h.2 _ hr v rfl⟩

theorem mapSet_comes (hm : m.Indexed) (key v : Value) (w : World σ) (s : Storage) :
    host.Comes n c (m.set hosted.keys key v) w s fun r _ s' => s' = s ∧ ∀ a, r = .ok a →
      a.2.Indexed ∧ m.Does (.set key v) (.ok a.1) a.2 := by
  refine probe_comes key none (fun hash place? hplace => ?_) w s
  cases place? with
  | none =>
    refine ⟨_, rfl, ?_⟩
    by_cases hk : key.mayRunCode = true
    · rw [if_pos hk]
      exact ⟨hm.markRunsCode.append _, .appended .set rfl (by simp [hk]; rfl)⟩
    · rw [if_neg hk]
      exact ⟨hm.append _, .appended .set rfl (by simp [hk]; rfl)⟩
  | some place =>
    obtain ⟨e, he, -⟩ := hm.entry (hplace place rfl)
    refine ⟨_, rfl, hm.replaceValue place v, ?_⟩
    rw [he]
    exact .replaced .set he rfl rfl

theorem mapRemove_comes (hm : m.Indexed) (key : Value) (w : World σ) (s : Storage) :
    host.Comes n c (m.remove hosted.keys key) w s fun r _ s' => s' = s ∧ ∀ a, r = .ok a →
      a.2.Indexed ∧ m.Does (.remove key) (.ok (a.1.map (·.value))) a.2 := by
  refine probe_comes key none (fun hash place? hplace => ?_) w s
  cases place? with
  | none => exact ⟨_, rfl, hm, .absent⟩
  | some place =>
    obtain ⟨e, he, -⟩ := hm.entry (hplace place rfl)
    refine ⟨_, rfl, hm.eraseAt (hplace place rfl), ?_⟩
    rw [he]
    exact .removed he (Array.toList_eraseIdxIfInBounds ..) rfl

-- ---------------------------------------------------------------------------
-- What operations come to
-- ---------------------------------------------------------------------------

theorem promoting {f : Map → OnStorage σ α} {Q : Except Failure α → World σ → Storage → Prop}
    (hf : host.Comes n c (f (s.toMap w.memory)) w (.map (s.toMap w.memory)) Q) :
    host.Comes n c (Storage.promote hosted.toSurroundings >>= f) w s Q := by
  refine .step ?_ hf
  exact .memory (.getStorage (.setStorage (.pure ⟨rfl, rfl, rfl⟩)))

theorem setItem_comes (hm : (s.toMap w.memory).Indexed) (key v : Value) :
    host.Comes n c (Storage.setItem hosted.toSurroundings key v) w s
      ((s.toMap w.memory).After (.set key v)) := by
  refine promoting (.bind (mapSet_comes hm key v w _) ?_ ?_)
  · rintro ⟨old, m'⟩ u _ ⟨rfl, hset⟩
    obtain ⟨hm', hdoes⟩ := hset _ rfl
    exact .setStorage (.pure ⟨m', rfl, hm', hdoes⟩)
  · rintro e u _ ⟨rfl, -⟩
    exact ⟨_, rfl, hm, .failed⟩

theorem removeItem_comes (hm : (s.toMap w.memory).Indexed) (key : Value) :
    host.Comes n c (Storage.removeItem hosted.toSurroundings key) w s fun r =>
      (s.toMap w.memory).After (.remove key) (r.map (Option.map (·.value))) := by
  refine promoting (.bind (mapRemove_comes hm key w _) ?_ ?_)
  · rintro ⟨old, m'⟩ u _ ⟨rfl, hremove⟩
    obtain ⟨hm', hdoes⟩ := hremove _ rfl
    exact .setStorage (.pure ⟨m', rfl, hm', hdoes⟩)
  · rintro e u _ ⟨rfl, -⟩
    exact ⟨_, rfl, hm, .failed⟩

theorem reads_comes {x : OnStorage σ (Option Value)} {op : Map.Op} (hm : m.Indexed)
    (hop : op.Reads) (hx : host.Comes n c x w (.map m) fun r _ s' => s' = .map m ∧ ∀ v,
      r = .ok (some v) → ∃ (place : Nat) (e : Entry), m.entries[place]? = some e ∧ e.value = v) :
    host.Comes n c x w (.map m) (m.After op) := by
  refine hx.mono ?_
  rintro (e | _ | v) w' s' ⟨rfl, hr⟩
  · exact ⟨m, rfl, hm, .failed⟩
  · exact ⟨m, rfl, hm, .missed hop⟩
  · obtain ⟨place, e, he, rfl⟩ := hr v rfl
    exact ⟨m, rfl, hm, .found hop he⟩

theorem setText_does (hm : m.Indexed) (key : TextRef) (v : Value) :
    m.Does (.setText key v) (.ok (m.setText key v).1) (m.setText key v).2 := by
  unfold Map.setText
  cases hf : m.findText? key.text with
  | none => exact .appended .setText rfl (Bool.or_false _).symm
  | some place =>
    have hmem : place ∈ m.places (Hash.ofText key.text) := List.mem_of_find?_eq_some hf
    obtain ⟨e, he, -⟩ := hm.entry hmem
    simp only [he, Option.map_some]
    exact .replaced .setText he rfl rfl

theorem perform_comes (hm : m.Indexed) (op : Map.Op) (w : World σ) :
    host.Comes n c op.perform w (.map m) (m.After op) := by
  cases op with
  | set key v => exact setItem_comes (s := .map m) hm key v
  | get key hash? => exact .getStorage (reads_comes hm .get (mapGet_comes hm key hash? w _))
  | getText key => exact .getStorage (reads_comes hm .getText (mapGet_comes hm _ _ w _))
  | remove key =>
    refine .getStorage (.bind (removeItem_comes (s := .map m) hm key) ?_ ?_)
    · exact fun old u t h => .pure h
    · exact fun e u t h => h
  | setText key v =>
    rintro _ _ _ ⟨⟩
    exact ⟨_, rfl, hm.setText key v, setText_does hm key v⟩
  | clear =>
    rintro _ _ _ ⟨⟩
    exact ⟨_, rfl, Map.indexed_clear m, .cleared rfl rfl⟩
  | markRunsCode =>
    refine .step (a := ()) (v := w) (promoting (s := .map m) ?_)
      (.pure ⟨m.markRunsCode, rfl, hm.markRunsCode, .marked rfl rfl⟩)
    rintro _ _ _ ⟨⟩
    exact ⟨rfl, rfl, rfl⟩

end Host

-- ---------------------------------------------------------------------------
-- Sequences of operations
-- ---------------------------------------------------------------------------

/-- The maps that a host makes with operations, in any order, with any keys. In between anything may
become of the world. -/
inductive Map.Made (host : Host σ) : Map → Prop
  | empty : Made host .empty
  | ofDistinctTexts (pairs : List (TextRef × Value)) : Made host (.ofDistinctTexts pairs)
  | perform (op : Op) : Made host m →
      (host.run n c (op.perform.run.run (.map m))).run w = some ((r, .map m'), w') → Made host m'

theorem Map.Made.indexed {host : Host σ} (h : Made host m) : m.Indexed := by
  induction h with
  | empty => exact indexed_empty
  | ofDistinctTexts pairs => exact indexed_ofDistinctTexts pairs
  | @perform n c m _ _ _ _ op _ hr ih =>
    obtain ⟨_, ⟨⟩, hm', -⟩ := Host.perform_comes ih op _ _ _ _ hr
    exact hm'

/-- However keys are hashed and compared, a map files each of its entries once, under the hash that
is stored with it, so that no search leads out of the entries. An operation that fails leaves the
map as it was, a write changes the value of one entry or appends one, and a removal takes one out
and leaves the others in order. -/
theorem Map.made_well_formed (host : Host σ) (m : Map) (hm : Made host m) :
    m.FiledOnce ∧ (∀ hash, ∀ place ∈ m.places hash, place < m.size) ∧
    ∀ (op : Op) (n : Nat) (c : Ref .context) (w w' : World σ)
      (r : Except Failure (Option Value)) (s : Storage),
      (host.run n c (op.perform.run.run (.map m))).run w = some ((r, s), w') →
      ∃ m', s = .map m' ∧ Made host m' ∧ m'.FiledOnce ∧ m.Does op r m' := by
  refine ⟨hm.indexed.filedOnce, fun hash place => hm.indexed.filedOnce.lt_size, ?_⟩
  intro op n c w w' r s hr
  obtain ⟨m', rfl, hm', hdoes⟩ := Host.perform_comes hm.indexed op _ _ _ _ hr
  exact ⟨m', rfl, .perform op hm hr, hm'.filedOnce, hdoes⟩

theorem Host.search_fails {host : Host σ} {u x : World σ} {s : Storage} {m : Map} {key : Value}
    {hash : UInt64} {place : Nat} {e : Entry} (he : m.holder? hash place = some e)
    (hid : e.key.identical key = false)
    (hequals : (host.answer (n + 1) c (.equals key e.key)).run u = some (.error f, x))
    (rest : List Nat) : (host.run (n + 1) c
      ((m.search hosted.keys key hash (place :: rest)).run.run s)).run u =
        some ((.error f, s), x) := by
  rw [Map.search_some he, hid, if_neg Bool.false_ne_true]
  exact run_bind_error (run_equals hequals)

theorem Host.set_fails {host : Host σ} {w u x : World σ} {m : Map} {key : Value} {hash : UInt64}
    {place : Nat} {rest : List Nat} {e : Entry}
    (hhash : (host.answer (n + 1) c (.hash key)).run w = some (.ok hash, u))
    (hplaces : m.places hash = place :: rest) (he : m.holder? hash place = some e)
    (hid : e.key.identical key = false)
    (hequals : (host.answer (n + 1) c (.equals key e.key)).run u = some (.error f, x))
    (v : Value) : (host.run (n + 1) c ((Map.Op.set key v).perform.run.run (.map m))).run w =
      some ((.error f, .map m), x) := by
  have hset : (host.run (n + 1) c ((m.set hosted.keys key v).run.run (.map m))).run w =
      some ((.error f, .map m), x) := by
    rw [Map.set, run_bind_ok (run_hash hhash), Map.find?, hplaces]
    exact run_bind_error (search_fails he hid hequals rest)
  rw [Map.Op.perform, Storage.setItem, run_bind_ok (run_promote ..)]
  exact run_bind_error hset

/-- Keys have the hash of the text `x`, and comparing them fails. -/
def colliding : Host Unit where
  body _ := .done (.ok (.returns .none))
  hash _ _ := .done (.ok (Hash.ofText "x"))
  compare _ _ _ := .done (.error (.internal "no answer"))
  construct _ _ _ := .done (.ok .none)

def collidingKey : Value := .inst 1 (.root ⟨2, "Colliding", true, true, false⟩) .none

def mapOfX : Map := .ofDistinctTexts [(⟨0, "x"⟩, .int 1)]

theorem places_mapOfX : mapOfX.places (Hash.ofText "x") = [0] := by
  have hindexed : mapOfX.Indexed := Map.indexed_ofDistinctTexts _
  rw [hindexed.places]
  simp [mapOfX, Map.ofDistinctTexts, Map.append, Map.empty]

theorem holder_mapOfX :
    mapOfX.holder? (Hash.ofText "x") 0 = some ⟨.text ⟨0, "x"⟩, .int 1, Hash.ofText "x"⟩ := by
  simp [mapOfX, Map.ofDistinctTexts, Map.append, Map.empty, Map.holder?]

theorem colliding_equals (w : World Unit) (t : TextRef) :
    (colliding.answer 1 ⟨0⟩ (.equals collidingKey (.text t))).run w =
      some (.error (.internal "no answer"), w) := by
  change (Engine.equals _ ⟨0⟩ collidingKey _).run w = _
  simp only [Engine.equals]
  rw [collidingKey, Value.equals.eq_def]
  rfl

theorem colliding_set (w : World Unit) :
    (colliding.run 1 ⟨0⟩ ((Map.Op.set collidingKey (.int 2)).perform.run.run (.map mapOfX))).run w =
      some ((.error (.internal "no answer"), .map mapOfX), w) := by
  refine Host.set_fails (u := w) ?_ places_mapOfX holder_mapOfX rfl (colliding_equals w _) _
  change (Engine.hash _ ⟨0⟩ collidingKey).run w = _
  simp only [Engine.hash, collidingKey, Value.hash]
  rfl

theorem Map.colliding_not_written : mapOfX.FiledOnce ∧
    mapOfX.Does (.set collidingKey (.int 2)) (.error (.internal "no answer")) mapOfX := by
  obtain ⟨honce, -, hperform⟩ := Map.made_well_formed colliding mapOfX (.ofDistinctTexts _)
  obtain ⟨m', ⟨⟩, -, -, hdoes⟩ := hperform _ _ _ _ _ _ _ (colliding_set (.initial ()))
  exact ⟨honce, hdoes⟩

end Resumable
