import Resumable.Proofs.Storage.SideEffects

/-!
# Maps that are interchangeable

Two texts of the same characters are equal keys, but two objects: a key that is identical with the
one has to be compared with the other, and a hook that compares an instance with it could tell
which of them it was given. Where no hook does, maps that differ in the objects of their texts alone
are interchangeable: every operation comes to the same on both, whatever its key is, and leaves
maps that are interchangeable again.
-/

namespace Resumable

variable {σ α β α' β' : Type}

-- ---------------------------------------------------------------------------
-- Related options
-- ---------------------------------------------------------------------------

theorem rel_mono {R S : α → β → Prop} {x : Option α} {y : Option β} (h : Option.Rel R x y)
    (hr : ∀ a b, R a b → S a b) : Option.Rel S x y := by
  cases h with
  | none => exact .none
  | some h => exact .some (hr _ _ h)

theorem rel_bind {γ γ' : Type} {R : α → β → Prop} {S : γ → γ' → Prop} {x : Option α} {y : Option β}
    {f : α → Option γ} {g : β → Option γ'} (h : Option.Rel R x y)
    (hf : ∀ a b, R a b → Option.Rel S (f a) (g b)) : Option.Rel S (x.bind f) (y.bind g) := by
  cases h with
  | none => exact .none
  | some hr => exact hf _ _ hr

theorem map_eq_of_rel {γ : Type} {R : α → β → Prop} {x : Option α} {y : Option β} {f : α → γ}
    {g : β → γ} (h : Option.Rel R x y) (hf : ∀ a b, R a b → f a = g b) : x.map f = y.map g := by
  cases h with
  | none => rfl
  | some hr => exact congrArg some (hf _ _ hr)

-- ---------------------------------------------------------------------------
-- Interchangeable keys
-- ---------------------------------------------------------------------------

/-- It makes no difference to the host which of two stored keys an instance is compared with. -/
inductive Host.Exchanges (host : Host σ) (o : Objects) : Value → Value → Prop
  | same (key : Value) : Exchanges host o key key
  | texts {t t' : TextRef} : t.text = t'.text → (Value.text t).In o → (Value.text t').In o →
      (∀ layer i, host.compare layer i (.text t) = host.compare layer i (.text t')) →
      Exchanges host o (.text t) (.text t')

variable {host : Host σ} {o : Objects} {key k k' : Value}

theorem Host.Exchanges.asText_eq (h : host.Exchanges o k k') : k.asText = k'.asText := by
  cases h with
  | same => rfl
  | texts ht => simp [Value.asText, ht]

theorem Value.compareByHook_text {m : Type → Type} [Monad m] (h : Hooks m) {t t' : TextRef}
    (hc : ∀ layer i, h.compare layer i (.text t) = h.compare layer i (.text t')) (key : Value) :
    Value.compareByHook h key (.text t) = Value.compareByHook h key (.text t') := by
  cases key with
  | inst id c payload => simp only [compareByHook, hc]
  | _ => rfl

theorem Value.equals_text {m : Type → Type} [Monad m] (h : Hooks m) {t t' : TextRef}
    (ht : t.text = t'.text)
    (hc : ∀ layer i, h.compare layer i (.text t) = h.compare layer i (.text t')) (key : Value) :
    key.equals h (.text t) = key.equals h (.text t') := by
  have hplain : key.equalsPlain (.text t) = key.equalsPlain (.text t') := by
    cases key <;> simp [equalsPlain, ht, identical, asInt]
  have hback : compareByHook h (.text t) key = compareByHook h (.text t') key := rfl
  rw [Value.equals.eq_def, Value.equals.eq_def h key (.text t')]
  dsimp only
  rw [compareByHook_text h hc key, hback]
  cases key <;> simp only [hplain]

/-- A comparison with the one key or the other is the same computation. -/
theorem Host.Exchanges.answer_equals (h : host.Exchanges o k k') (n : Nat) (c : Ref .context)
    (key : Value) :
    host.answer (n + 1) c (.equals key k) = host.answer (n + 1) c (.equals key k') := by
  cases h with
  | same => rfl
  | texts ht _ _ hc =>
    have hcompare := fun layer i =>
      congrArg (Engine.performHook ⟨host, host.answer n⟩ c) (hc layer i)
    exact congrArg ExceptT.run
      (Value.equals_text (Engine.hooks ⟨host, host.answer n⟩ c) ht hcompare key)

-- ---------------------------------------------------------------------------
-- Interchangeable maps
-- ---------------------------------------------------------------------------

structure Entry.Alike (host : Host σ) (o : Objects) (e e' : Entry) : Prop where
  key : host.Exchanges o e.key e'.key
  value : e.value = e'.value
  hash : e.hash = e'.hash

namespace Map

/-- The entries stand in the same order, with equal values and hashes and interchangeable keys, and
are filed alike. -/
structure Alike (host : Host σ) (o : Objects) (m m' : Map) : Prop where
  entry : ∀ place : Nat, Option.Rel (Entry.Alike host o) m.entries[place]? m'.entries[place]?
  indexed : m.Indexed
  indexed' : m'.Indexed
  runsCode : m.runsCode = m'.runsCode

namespace Alike

variable {m m' : Map} {e e' : Entry}

theorem values (h : m.Alike host o m') (place : Nat) :
    m.entries[place]?.map (·.value) = m'.entries[place]?.map (·.value) :=
  map_eq_of_rel (h.entry place) fun _ _ he => he.value

theorem hashes (h : m.Alike host o m') :
    m.entries.toList.map (·.hash) = m'.entries.toList.map (·.hash) := by
  apply List.ext_getElem?
  intro place
  simpa using map_eq_of_rel (h.entry place) fun _ _ he => he.hash

theorem size_eq (h : m.Alike host o m') : m.entries.size = m'.entries.size := by
  simpa using congrArg List.length h.hashes

theorem places_eq (h : m.Alike host o m') (hash : UInt64) : m.places hash = m'.places hash := by
  have hslots : ∀ entries : List Entry, (entries.mapIdx fun place e => (⟨e.hash, place⟩ : Slot)) =
      (entries.map (·.hash)).mapIdx fun place other => ⟨other, place⟩ := fun entries => by
    rw [List.mapIdx_eq_zipIdx_map, List.mapIdx_eq_zipIdx_map, List.zipIdx_map, List.map_map]
    rfl
  rw [places, places, Table.shown, Table.shown, h.indexed, h.indexed', hslots, hslots, h.hashes]

theorem holder (h : m.Alike host o m') (hash : UInt64) (place : Nat) :
    Option.Rel (Entry.Alike host o) (m.holder? hash place) (m'.holder? hash place) := by
  have hentry := h.entry place
  unfold holder?
  generalize m.entries[place]? = x, m'.entries[place]? = y at hentry ⊢
  cases hentry with
  | none => exact .none
  | @some e e' he =>
    rw [Option.filter_some, Option.filter_some, he.hash]
    split
    · exact .some he
    · exact .none

theorem append (h : m.Alike host o m') (he : e.Alike host o e') :
    (m.append e).Alike host o (m'.append e') := by
  refine ⟨fun place => ?_, h.indexed.append e, h.indexed'.append e', h.runsCode⟩
  simp only [Map.append, Array.getElem?_push, h.size_eq]
  split
  · exact .some he
  · exact h.entry place

theorem replaceValue (h : m.Alike host o m') (place : Nat) (v : Value) :
    (m.replaceValue place v).Alike host o (m'.replaceValue place v) := by
  refine ⟨fun other => ?_, h.indexed.replaceValue place v, h.indexed'.replaceValue place v,
    h.runsCode⟩
  simp only [Map.replaceValue, Array.getElem?_modify]
  have hother := h.entry other
  split
  · generalize m.entries[other]? = x, m'.entries[other]? = y at hother
    cases hother with
    | none => exact .none
    | some he => exact .some ⟨he.key, rfl, he.hash⟩
  · exact hother

theorem eraseAt (h : m.Alike host o m') {hash : UInt64} {place : Nat}
    (hp : place ∈ m.places hash) :
    (m.eraseAt hash place).Alike host o (m'.eraseAt hash place) := by
  refine ⟨fun other => ?_, h.indexed.eraseAt hp, h.indexed'.eraseAt (h.places_eq hash ▸ hp),
    h.runsCode⟩
  simp only [Map.eraseAt, ← Array.getElem?_toList, Array.toList_eraseIdxIfInBounds,
    List.getElem?_eraseIdx]
  split
  · simpa using h.entry other
  · simpa using h.entry (other + 1)

theorem clear (h : m.Alike host o m') : m.clear.Alike host o m'.clear :=
  ⟨fun _ => .none, indexed_clear m, indexed_clear m', h.runsCode⟩

theorem markRunsCode (h : m.Alike host o m') : m.markRunsCode.Alike host o m'.markRunsCode :=
  ⟨h.entry, h.indexed.markRunsCode, h.indexed'.markRunsCode, rfl⟩

theorem findText?_eq (h : m.Alike host o m') (text : String) :
    m.findText? text = m'.findText? text := by
  have htext : ∀ place : Nat, m.entries[place]?.any (·.key.asText == some text) =
      m'.entries[place]?.any (·.key.asText == some text) := by
    intro place
    have hkeys := map_eq_of_rel (h.entry place) fun _ _ he => he.key.asText_eq
    simpa [Option.any_map, Function.comp_def] using congrArg (Option.any (· == some text)) hkeys
  simp only [findText?, h.places_eq, htext]

theorem setText (h : m.Alike host o m') (t : TextRef) (v : Value) :
    (m.setText t v).1 = (m'.setText t v).1 ∧
      (m.setText t v).2.Alike host o (m'.setText t v).2 := by
  unfold Map.setText
  rw [h.findText?_eq]
  split
  · next place _ => exact ⟨h.values place, h.replaceValue place v⟩
  · exact ⟨rfl, h.append ⟨.same _, rfl, rfl⟩⟩

end Alike

end Map

-- ---------------------------------------------------------------------------
-- Twin operations
-- ---------------------------------------------------------------------------

namespace Storage

inductive Alike (host : Host σ) (o : Objects) : Storage → Storage → Prop
  | map {m m' : Map} : m.Alike host o m' → Alike host o (.map m) (.map m')

end Storage

/-- Both succeed, with related results, or both fail alike. -/
inductive Paired (R : α → β → Prop) : Except Failure α → Except Failure β → Prop
  | ok {a : α} {b : β} : R a b → Paired R (.ok a) (.ok b)
  | error (e : Failure) : Paired R (.error e) (.error e)

theorem Paired.mono {R S : α → β → Prop} {r : Except Failure α} {r' : Except Failure β}
    (h : Paired R r r') (hr : ∀ a b, R a b → S a b) : Paired S r r' := by
  cases h with
  | ok h => exact .ok (hr _ _ h)
  | error e => exact .error e

theorem Paired.eq {r r' : Except Failure α} (h : Paired Eq r r') : r = r' := by
  cases h with
  | ok h => exact congrArg _ h
  | error => rfl

/-- On interchangeable maps, in one world, the two operations come to related results, the same
world, and interchangeable maps again, if they come to anything. -/
def Twins (host : Host σ) (o : Objects) (n : Nat) (c : Ref .context) (R : α → β → Prop)
    (x : OnStorage σ α) (y : OnStorage σ β) : Prop :=
  ∀ s t w, Storage.Alike host o s t →
    Option.Rel (fun a b => Paired R a.1.1 b.1.1 ∧ Storage.Alike host o a.1.2 b.1.2 ∧ a.2 = b.2)
      ((host.run (n + 1) c (x.run.run s)).run w) ((host.run (n + 1) c (y.run.run t)).run w)

abbrev Uniform (host : Host σ) (o : Objects) (n : Nat) (c : Ref .context) (R : α → α → Prop)
    (x : OnStorage σ α) : Prop := Twins host o n c R x x

namespace Twins

variable {n : Nat} {c : Ref .context} {R : α → β → Prop} {Q : α' → β' → Prop}
  {x : OnStorage σ α} {y : OnStorage σ β} {f : α → OnStorage σ α'} {g : β → OnStorage σ β'}

theorem mono {R' : α → β → Prop} (h : Twins host o n c R x y) (hr : ∀ a b, R a b → R' a b) :
    Twins host o n c R' x y := by
  intro s t w hs
  refine rel_mono (h s t w hs) ?_
  rintro a b ⟨hab, hst, hw⟩
  exact ⟨hab.mono hr, hst, hw⟩

theorem pure {a : α} {b : β} (h : R a b) :
    Twins host o n c R (Pure.pure a : OnStorage σ α) (Pure.pure b : OnStorage σ β) :=
  fun _ _ _ hs => .some ⟨.ok h, hs, rfl⟩

theorem bind (hx : Twins host o n c R x y) (hf : ∀ a b, R a b → Twins host o n c Q (f a) (g b)) :
    Twins host o n c Q (x >>= f) (y >>= g) := by
  intro s t w hs
  rw [Host.run_bind, Host.run_bind]
  refine rel_bind (hx s t w hs) ?_
  rintro ⟨⟨r, s'⟩, v⟩ ⟨⟨r', t'⟩, v'⟩ ⟨hr, hs', rfl⟩
  cases hr with
  | ok hab => exact hf _ _ hab s' t' v hs'
  | error e => exact .some ⟨.error e, hs', rfl⟩

theorem getStorage : Uniform host o n c (Storage.Alike host o) (getThe Storage) :=
  fun _ _ _ hs => .some ⟨.ok hs, hs, rfl⟩

theorem setStorage {s t : Storage} (h : s.Alike host o t) : Twins host o n c Eq
    (MonadStateOf.set s : OnStorage σ PUnit) (MonadStateOf.set t : OnStorage σ PUnit) :=
  fun _ _ _ _ => .some ⟨.ok rfl, h, rfl⟩

theorem memory : Uniform host o n c Eq (ExceptT.lift hosted.memory) :=
  fun _ _ _ hs => .some ⟨.ok rfl, hs, rfl⟩

theorem aside {p : Exec σ (Except Failure α)} {x y : OnStorage σ α}
    (hx : ∀ s w, (host.run (n + 1) c (x.run.run s)).run w =
      (p.run w).bind fun r => some ((r.1, s), r.2))
    (hy : ∀ s w, (host.run (n + 1) c (y.run.run s)).run w =
      (p.run w).bind fun r => some ((r.1, s), r.2)) : Twins host o n c Eq x y := by
  intro s t w hs
  rw [hx, hy]
  cases p.run w with
  | none => exact .none
  | some r =>
    obtain ⟨_ | _, v⟩ := r
    · exact .some ⟨.error _, hs, rfl⟩
    · exact .some ⟨.ok rfl, hs, rfl⟩

theorem hash (key : Value) : Uniform host o n c Eq (hosted.keys.hash key) :=
  aside (p := host.answer (n + 1) c (.hash key)) (fun _ _ => rfl) fun _ _ => rfl

theorem equals (h : host.Exchanges o k k') (key : Value) : Twins host o n c Eq
    (hosted.keys.equals key k) (hosted.keys.equals key k') := by
  refine aside (p := host.answer (n + 1) c (.equals key k)) (fun _ _ => rfl) fun s w => ?_
  rw [h.answer_equals]
  rfl

end Twins

def Map.checks (σ : Type) (key stored : Value) : OnStorage σ Bool :=
  if stored.identical key then pure true else hosted.keys.equals key stored

theorem search_checks {m : Map} {hash : UInt64} {place : Nat} {e : Entry}
    (he : m.holder? hash place = some e) (key : Value) (rest : List Nat) :
    m.search (hosted (σ := σ)).keys key hash (place :: rest) = (do
      let same ← Map.checks σ key e.key
      if same then return some place else m.search hosted.keys key hash rest) := by
  rw [Map.search_some he]
  unfold Map.checks
  split
  · rfl
  · rfl

theorem checks_text (host : Host σ) (n : Nat) (c : Ref .context) {t u : TextRef}
    (ht : (Value.text t).In o) (hu : (Value.text u).In o) (s : Storage) (w : World σ) :
    (host.run (n + 1) c ((Map.checks σ (.text u) (.text t)).run.run s)).run w =
      some ((.ok (u.text == t.text), s), w) := by
  unfold Map.checks
  split
  · next hsame =>
    have hid : t.id = u.id := by simpa [Value.identical, TextRef.same] using hsame
    have htext : u.text = t.text := by
      rw [Value.In] at ht hu
      rw [ht, hu, hid]
    rw [htext, beq_self_eq_true]
    rfl
  · exact Settles.equals (w := w) (s := s) rfl rfl host n

namespace Twins

variable {n : Nat} {c : Ref .context} {m m' : Map}

theorem checks (h : host.Exchanges o k k') (hkey : key.In o) :
    Twins host o n c Eq (Map.checks σ key k) (Map.checks σ key k') := by
  have hequals := equals (n := n) (c := c) h key
  cases h with
  | same =>
    unfold Map.checks
    split
    · exact pure rfl
    · exact hequals
  | @texts t t' ht hin hin' hc =>
    cases key with
    | text u =>
      refine aside (p := Pure.pure (.ok (u.text == t.text))) (checks_text host n c hin hkey) ?_
      rw [ht]
      exact checks_text host n c hin' hkey
    | _ => exact hequals

/-- Both searches find the same place, one that they are shown. -/
theorem search (h : m.Alike host o m') (hkey : key.In o) (hash : UInt64) (places : List Nat) :
    Twins host o n c (fun a b => a = b ∧ ∀ place, a = some place → place ∈ places)
      (m.search hosted.keys key hash places) (m'.search hosted.keys key hash places) := by
  induction places with
  | nil =>
    rw [Map.search_nil, Map.search_nil]
    exact pure ⟨rfl, fun _ hp => by cases hp⟩
  | cons place rest ih =>
    have hrest : Twins host o n c (fun a b => a = b ∧ ∀ p, a = some p → p ∈ place :: rest)
        (m.search hosted.keys key hash rest) (m'.search hosted.keys key hash rest) :=
      ih.mono fun _ _ hr => ⟨hr.1, fun p hp => List.mem_cons_of_mem _ (hr.2 p hp)⟩
    have hentry := h.holder hash place
    cases he : m.holder? hash place with
    | none =>
      cases he' : m'.holder? hash place with
      | none =>
        rw [Map.search_none he, Map.search_none he']
        exact hrest
      | some e' => simp [he, he'] at hentry
    | some e =>
      cases he' : m'.holder? hash place with
      | none => simp [he, he'] at hentry
      | some e' =>
        rw [he, he', Option.rel_some_some] at hentry
        rw [search_checks he, search_checks he']
        refine bind (checks hentry.key hkey) ?_
        rintro same _ rfl
        cases same
        · exact hrest
        · exact pure ⟨rfl, fun p hp => by cases hp; exact List.mem_cons_self⟩

theorem find (h : m.Alike host o m') (hkey : key.In o) (hash : UInt64) :
    Twins host o n c (fun a b => a = b ∧ ∀ place, a = some place → place ∈ m.places hash)
      (m.find? hosted.keys key hash) (m'.find? hosted.keys key hash) := by
  rw [Map.find?, Map.find?, ← h.places_eq]
  exact search h hkey hash _

theorem hashOf (key : Value) (hash? : Option UInt64) :
    Uniform host o n c Eq (Map.hashOf hosted.keys key hash?) := by
  cases hash? with
  | none => exact hash key
  | some given => exact pure rfl

-- ---------------------------------------------------------------------------
-- Operations on maps
-- ---------------------------------------------------------------------------

theorem mapGet (h : m.Alike host o m') (hkey : key.In o) (hash? : Option UInt64) :
    Twins host o n c Eq (m.get? hosted.keys key hash?) (m'.get? hosted.keys key hash?) := by
  refine bind (hashOf key hash?) ?_
  rintro hash _ rfl
  refine bind (find h hkey hash) ?_
  rintro place? _ ⟨rfl, -⟩
  exact pure (Option.bind_congr fun place _ => h.values place)

theorem mapSet (h : m.Alike host o m') (hkey : key.In o) (v : Value) :
    Twins host o n c (fun a b => a.1 = b.1 ∧ a.2.Alike host o b.2)
      (m.set hosted.keys key v) (m'.set hosted.keys key v) := by
  refine bind (hash key) ?_
  rintro hash _ rfl
  refine bind (find h hkey hash) ?_
  rintro (_ | place) _ ⟨rfl, -⟩
  · refine pure ⟨rfl, ?_⟩
    dsimp only
    split
    · exact h.markRunsCode.append ⟨.same _, rfl, rfl⟩
    · exact h.append ⟨.same _, rfl, rfl⟩
  · exact pure ⟨h.values place, h.replaceValue place v⟩

theorem mapRemove (h : m.Alike host o m') (hkey : key.In o) :
    Twins host o n c (fun a b => a.1.map (·.value) = b.1.map (·.value) ∧ a.2.Alike host o b.2)
      (m.remove hosted.keys key) (m'.remove hosted.keys key) := by
  refine bind (hash key) ?_
  rintro hash _ rfl
  refine bind (find h hkey hash) ?_
  rintro (_ | place) _ ⟨rfl, hplace⟩
  · exact pure ⟨rfl, h⟩
  · exact pure ⟨h.values place, h.eraseAt (hplace place rfl)⟩

-- ---------------------------------------------------------------------------
-- Operations on storages
-- ---------------------------------------------------------------------------

theorem promote : Uniform host o n c (Map.Alike host o)
    (Storage.promote hosted.toSurroundings) := by
  refine bind memory ?_
  rintro mem _ rfl
  refine bind getStorage ?_
  rintro _ _ ⟨h⟩
  exact bind (setStorage (.map h)) fun _ _ _ => pure h

theorem setItem (hkey : key.In o) (v : Value) : Uniform host o n c Eq
    (Storage.setItem hosted.toSurroundings key v) := by
  refine bind promote fun m m' h => bind (mapSet h hkey v) ?_
  rintro ⟨old, m⟩ ⟨_, m'⟩ ⟨rfl, h⟩
  exact bind (setStorage (.map h)) fun _ _ _ => pure rfl

theorem getItem (hkey : key.In o) (hash? : Option UInt64) : Uniform host o n c Eq
    (Storage.getItem hosted.toSurroundings key hash?) := by
  refine bind getStorage ?_
  rintro _ _ ⟨h⟩
  exact mapGet h hkey hash?

theorem getText {t : TextRef} (ht : (Value.text t).In o) : Uniform host o n c Eq
    (Storage.getText hosted.toSurroundings t) := by
  refine bind getStorage ?_
  rintro _ _ ⟨h⟩
  exact mapGet h ht _

theorem removeItem (hkey : key.In o) :
    Uniform host o n c (fun a b => a.map (·.value) = b.map (·.value))
    (Storage.removeItem hosted.toSurroundings key) := by
  refine bind promote fun m m' h => bind (mapRemove h hkey) ?_
  rintro ⟨old, m⟩ ⟨old', m'⟩ ⟨hold, h⟩
  exact bind (setStorage (.map h)) fun _ _ _ => pure hold

theorem pop (hkey : key.In o) : Uniform host o n c Eq
    (Storage.pop hosted.toSurroundings key) := by
  refine bind getStorage ?_
  rintro _ _ ⟨h⟩
  exact bind (removeItem hkey) fun _ _ hold => pure hold

theorem markRunsCode : Uniform host o n c Eq
    (Storage.markRunsCode hosted.toSurroundings) :=
  bind promote fun _ _ h => setStorage (.map h.markRunsCode)

end Twins

namespace Map.Op

def In (o : Objects) : Op → Prop
  | .set key _ | .get key _ | .remove key => key.In o
  | .getText t | .setText t _ => (Value.text t).In o
  | .clear | .markRunsCode => True

/-- The operations one after the other, with the result of each; a failure does not stop them. -/
def performAll : List Op → StateT Storage (Prog σ) (List (Except Failure (Option Value)))
  | [] => return []
  | op :: ops => do
    let result ← op.perform.run
    let results ← performAll ops
    return result :: results

end Map.Op

end Resumable
