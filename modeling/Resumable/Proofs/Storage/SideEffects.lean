import Resumable.Proofs.Storage.FailedWrites
import Resumable.Proofs.Value.EqualHashes

/-!
# Storages without keys that run code

A storage says whether a key was stored whose hash or equality may run a program. If it says no,
then no stored key runs code, and to work on the storage with a key that runs no code either is to
run no hook at all: the operations come to the same under every host, they do not fail, and they
leave the world as it was, but for the report of a look-up of a name in a view.
-/

namespace Resumable

variable {σ α β : Type}

-- ---------------------------------------------------------------------------
-- The flag
-- ---------------------------------------------------------------------------

namespace Map

/-- If some key may run a program, the map says so. -/
def Flagged (m : Map) : Prop := ∀ key ∈ m.keys, key.mayRunCode = true → m.runsCode = true

variable {m m' : Map}

theorem flagged_of_keys (h : m.Flagged) (hkeys : ∀ key ∈ m'.keys, key ∈ m.keys)
    (hflag : m'.runsCode = m.runsCode) : m'.Flagged := fun key hkey hcode =>
  hflag.trans (h key (hkeys key hkey) hcode)

theorem keys_of_entries {entries : Array Entry} (h : m.entries = entries) :
    m.keys = entries.toList.map (·.key) := by rw [keys, h]

theorem Does.flagged {op : Op} {r : Except Failure (Option Value)} (hd : m.Does op r m')
    (h : m.Flagged) : m'.Flagged := by
  cases hd with
  | failed | found | missed | absent => exact h
  | replaced _ _ hentries hflag =>
    refine flagged_of_keys h (fun key hkey => ?_) hflag
    rw [keys_of_entries hentries] at hkey
    rwa [← keys_replaceValue m]
  | appended _ hentries hflag =>
    intro key hkey hcode
    rw [keys_of_entries hentries, Array.toList_push, List.map_append, List.map_singleton,
      List.mem_append, List.mem_singleton] at hkey
    rw [hflag]
    obtain hkey | rfl := hkey
    · rw [h key hkey hcode, Bool.true_or]
    · rw [hcode, Bool.or_true]
  | removed _ hentries hflag =>
    refine flagged_of_keys h (fun key hkey => ?_) hflag
    rw [keys, hentries, map_eraseIdx] at hkey
    exact List.mem_of_mem_eraseIdx hkey
  | cleared hentries =>
    intro key hkey
    rw [keys_of_entries hentries] at hkey
    cases hkey
  | marked _ hflag => exact fun _ _ _ => hflag

theorem flagged_empty : empty.Flagged := fun key hkey => by cases hkey

theorem setText_flagged (hm : m.Indexed) (h : m.Flagged) (key : TextRef) (v : Value) :
    (m.setText key v).2.Flagged ∧ (m.setText key v).2.runsCode = m.runsCode := by
  refine ⟨(Host.setText_does hm key v).flagged h, ?_⟩
  unfold setText
  split
  · rfl
  · rfl

theorem setTexts_flagged (l : List (TextRef × Value)) (hm : m.Indexed) (h : m.Flagged) :
    (l.foldl (fun m p => (m.setText p.1 p.2).2) m).Flagged ∧
      (l.foldl (fun m p => (m.setText p.1 p.2).2) m).runsCode = m.runsCode := by
  induction l generalizing m with
  | nil => exact ⟨h, rfl⟩
  | cons p l ih =>
    obtain ⟨hp, hflag⟩ := setText_flagged hm h p.1 p.2
    obtain ⟨hl, hflag'⟩ := ih (hm.setText p.1 p.2) hp
    exact ⟨hl, hflag'.trans hflag⟩

theorem ofDistinctTexts_flagged (pairs : List (TextRef × Value)) :
    (ofDistinctTexts pairs).Flagged := by
  refine List.foldlRecOn pairs _ flagged_empty fun m h p _ key hkey hcode => ?_
  rw [keys_append, List.mem_append, List.mem_singleton] at hkey
  obtain hkey | rfl := hkey
  · exact h key hkey hcode
  · cases hcode

end Map

namespace Storage

def Flagged : Storage → Prop
  | .map m => m.Indexed ∧ m.Flagged
  | .locals _ => True

theorem Flagged.toMap {s : Storage} (h : s.Flagged) (mem : Memory) :
    (s.toMap mem).Indexed ∧ (s.toMap mem).Flagged ∧ (s.toMap mem).runsCode = s.runsCode := by
  cases s with
  | map m => exact ⟨h.1, h.2, rfl⟩
  | locals l =>
    exact ⟨toMap_indexed mem l, Map.setTexts_flagged _ Map.indexed_empty Map.flagged_empty⟩

/-- The storages that a host makes with operations, in any order, with any keys. In between anything
may become of the world. -/
inductive Made (host : Host σ) : Storage → Prop
  | empty : Made host .empty
  | ofDistinctTexts (pairs : List (TextRef × Value)) : Made host (.map (.ofDistinctTexts pairs))
  | view (f : Ref .frame) : Made host (.locals (.ofFrame f))
  | copy : Made host s → Made host s.copy
  | size (mem : Memory) : Made host s → Made host (s.size mem).2
  | perform (op : Map.Op) : Made host s →
      (host.run n c (op.perform.run.run s)).run w = some ((r, s'), w') → Made host s'

end Storage

namespace Host

variable {host : Host σ} {n : Nat} {c : Ref .context} {w : World σ} {s : Storage}

theorem after_flagged {m : Map} {op : Map.Op} {r : Except Failure (Option Value)} {w' : World σ}
    (h : m.Flagged) (ha : m.After op r w' s) : s.Flagged := by
  obtain ⟨m', rfl, hm', hdoes⟩ := ha
  exact ⟨hm', hdoes.flagged h⟩

theorem removeItem_flagged (hs : s.Flagged) (key : Value) (w : World σ) :
    host.Comes n c (Storage.removeItem hosted.toSurroundings key) w s fun _ _ s' => s'.Flagged := by
  obtain ⟨hm, hf, -⟩ := hs.toMap w.memory
  exact (removeItem_comes hm key).mono fun _ _ _ => after_flagged hf

theorem perform_flagged (hs : s.Flagged) (op : Map.Op) (w : World σ) :
    host.Comes n c op.perform w s fun _ _ s' => s'.Flagged := by
  cases s with
  | map m => exact (perform_comes hs.1 op w).mono fun _ _ _ => after_flagged hs.2
  | locals l =>
    obtain ⟨hm, hf, -⟩ := hs.toMap w.memory
    have hlookup : ∀ key hash?, host.Comes n c
        (Storage.lookupKey hosted.toSurroundings l key hash?) w (.locals l)
          fun _ _ s' => s'.Flagged := fun key hash? =>
      (lookupKey_comes host n c l key hash? w).mono fun _ _ _ ⟨l', hl', _⟩ => hl' ▸ trivial
    cases op with
    | set key v => exact (setItem_comes hm key v).mono fun _ _ _ => after_flagged hf
    | get key hash? => exact .getStorage (hlookup key hash?)
    | getText name => exact .getStorage (hlookup (.text name) none)
    | remove key =>
      refine .getStorage (.bind (hlookup key none) ?_ fun _ _ _ h => h)
      rintro (_ | _) v t ht
      · exact .pure ht
      · exact .bind (removeItem_flagged ht key v) (fun _ _ _ h => .pure h) fun _ _ _ h => h
    | setText key v =>
      rintro _ _ _ ⟨⟩
      exact trivial
    | clear =>
      rintro _ _ _ ⟨⟩
      exact ⟨Map.indexed_empty, Map.flagged_empty⟩
    | markRunsCode =>
      have hmarked : (Storage.map (l.toMap w.memory).markRunsCode).Flagged :=
        ⟨hm.markRunsCode, fun _ _ _ => rfl⟩
      refine .step (a := ()) (v := w) (promoting ?_) (.pure hmarked)
      rintro _ _ _ ⟨⟩
      exact ⟨rfl, rfl, rfl⟩

end Host

theorem Storage.Made.flagged {host : Host σ} {s : Storage} (h : s.Made host) : s.Flagged := by
  induction h with
  | empty => exact ⟨Map.indexed_empty, Map.flagged_empty⟩
  | ofDistinctTexts pairs =>
    exact ⟨Map.indexed_ofDistinctTexts pairs, Map.ofDistinctTexts_flagged pairs⟩
  | view f => exact trivial
  | @copy s _ ih =>
    cases s with
    | map m => exact ih
    | locals l => exact trivial
  | @size s mem _ ih =>
    cases s with
    | map m => exact ih
    | locals l => exact trivial
  | perform op _ hr ih => exact Host.perform_flagged ih op _ _ _ _ hr

-- ---------------------------------------------------------------------------
-- Operations that run no hook
-- ---------------------------------------------------------------------------

/-- Under every host the operation comes to this result, this world and this storage. Hosts whose
hooks fail, change anything or never answer are among them, so no hook has a part in it. -/
def Settles (c : Ref .context) (x : OnStorage σ α) (w : World σ) (s : Storage) (a : α)
    (w' : World σ) (s' : Storage) : Prop :=
  ∀ (host : Host σ) (n : Nat),
    (host.run (n + 1) c (x.run.run s)).run w = some ((.ok a, s'), w')

namespace Settles

variable {c : Ref .context} {w v w' : World σ} {s t s' : Storage} {x : OnStorage σ α}
  {f : α → OnStorage σ β} {a : α} {b : β} {key other : Value} {m : Map}

theorem pure (a : α) : Settles c (Pure.pure a : OnStorage σ α) w s a w s := fun _ _ => rfl

theorem bind (hx : Settles c x w s a v t) (hf : Settles c (f a) v t b w' s') :
    Settles c (x >>= f) w s b w' s' := fun host n =>
  (Host.run_bind_ok (hx host n)).trans (hf host n)

theorem getStorage : Settles c (getThe Storage : OnStorage σ Storage) w s s w s :=
  fun _ _ => rfl

theorem setStorage : Settles c (MonadStateOf.set t : OnStorage σ PUnit) w s ⟨⟩ w t :=
  fun _ _ => rfl

theorem memory : Settles c (ExceptT.lift (hosted (σ := σ)).memory) w s w.memory w s :=
  fun _ _ => rfl

theorem noteLookup (hit : Bool) : Settles c (ExceptT.lift ((hosted (σ := σ)).noteLookup hit)) w s
    ⟨⟩ (w.modifyContext c (·.emit (.lookup hit))) s := fun _ _ => rfl

theorem promote : Settles c (Storage.promote (hosted (σ := σ)).toSurroundings) w s
    (s.toMap w.memory) w (.map (s.toMap w.memory)) := fun host n => Host.run_promote host n c w s

theorem hash (hk : key.mayRunCode = false) (hu : key.containsUnbound = false) :
    Settles c ((hosted (σ := σ)).keys.hash key) w s key.plainHash w s := fun host n =>
  Host.run_hash (by rw [Host.answer_hash_plain host n c hk, hu]; rfl)

theorem equals (hk : key.mayRunCode = false) (ho : other.mayRunCode = false) :
    Settles c ((hosted (σ := σ)).keys.equals key other) w s (key.plainEquals other) w s :=
  fun host n => Host.run_equals (by rw [Host.answer_equals_plain host n c hk ho]; rfl)

section

variable (c) (w : World σ) (s : Storage)

theorem hashOf (hk : key.mayRunCode = false) (hu : key.containsUnbound = false)
    (hash? : Option UInt64) :
    ∃ h, Settles c (Map.hashOf (hosted (σ := σ)).keys key hash?) w s h w s := by
  cases hash? with
  | none => exact ⟨_, hash hk hu⟩
  | some h => exact ⟨h, pure h⟩

theorem search (hk : key.mayRunCode = false) (hm : ∀ key ∈ m.keys, key.mayRunCode = false)
    (h : UInt64) (places : List Nat) :
    ∃ place?, Settles c (m.search (hosted (σ := σ)).keys key h places) w s place? w s := by
  induction places with
  | nil =>
    rw [Map.search_nil]
    exact ⟨none, pure none⟩
  | cons place rest ih =>
    obtain ⟨later, hlater⟩ := ih
    cases he : m.holder? h place with
    | none =>
      rw [Map.search_none he]
      exact ⟨later, hlater⟩
    | some e =>
      rw [Map.search_some he]
      split
      · exact ⟨_, pure _⟩
      · have hmem : e.key ∈ m.keys := List.mem_map_of_mem (Map.mem_of_holder he)
        have hsame : Settles c ((hosted (σ := σ)).keys.equals key e.key) w s _ w s :=
          equals hk (hm e.key hmem)
        cases hq : key.plainEquals e.key with
        | true => exact ⟨some place, hsame.bind (by rw [hq]; exact pure _)⟩
        | false => exact ⟨later, hsame.bind (by rw [hq]; exact hlater)⟩

theorem mapGet (hk : key.mayRunCode = false) (hu : key.containsUnbound = false)
    (hm : ∀ key ∈ m.keys, key.mayRunCode = false) (hash? : Option UInt64) :
    ∃ r, Settles c (m.get? (hosted (σ := σ)).keys key hash?) w s r w s := by
  obtain ⟨h, hhash⟩ := hashOf c w s hk hu hash?
  obtain ⟨place?, hfind⟩ := search c w s hk hm h (m.places h)
  exact ⟨_, hhash.bind (hfind.bind (pure _))⟩

theorem mapSet (hk : key.mayRunCode = false) (hu : key.containsUnbound = false)
    (hm : ∀ key ∈ m.keys, key.mayRunCode = false) (v : Value) :
    ∃ old m', Settles c (m.set (hosted (σ := σ)).keys key v) w s (old, m') w s ∧
      m'.runsCode = m.runsCode := by
  obtain ⟨place?, hfind⟩ := search c w s hk hm _ (m.places key.plainHash)
  cases place? with
  | some place => exact ⟨_, _, (hash hk hu).bind (hfind.bind (pure _)), rfl⟩
  | none => exact ⟨_, _, (hash hk hu).bind (hfind.bind (pure _)), by rw [hk]; rfl⟩

theorem mapRemove (hk : key.mayRunCode = false) (hu : key.containsUnbound = false)
    (hm : ∀ key ∈ m.keys, key.mayRunCode = false) :
    ∃ old m', Settles c (m.remove (hosted (σ := σ)).keys key) w s (old, m') w s ∧
      m'.runsCode = m.runsCode := by
  obtain ⟨place?, hfind⟩ := search c w s hk hm _ (m.places key.plainHash)
  cases place? with
  | some place => exact ⟨_, _, (hash hk hu).bind (hfind.bind (pure _)), rfl⟩
  | none => exact ⟨_, _, (hash hk hu).bind (hfind.bind (pure _)), rfl⟩

theorem searchNames (hk : key.mayRunCode = false) (frame : Ref .frame) (hash : UInt64)
    (slots : List (Nat × TextRef)) :
    ∃ r, Settles c (Storage.searchNames (hosted (σ := σ)).toSurroundings frame key hash slots)
      w s r w s := by
  induction slots with
  | nil => exact ⟨none, pure none⟩
  | cons slot slots ih =>
    obtain ⟨later, hlater⟩ := ih
    rw [Storage.searchNames]
    split
    · exact ⟨later, hlater⟩
    · have hsame : Settles c ((hosted (σ := σ)).keys.equals key (.text slot.2)) w s _ w s :=
        equals hk rfl
      cases hq : key.plainEquals (.text slot.2) with
      | true => exact ⟨_, hsame.bind (by rw [hq]; exact memory.bind (pure _))⟩
      | false => exact ⟨later, hsame.bind (by rw [hq]; exact hlater)⟩

theorem lookupName (l : Locals) (name : TextRef) :
    ∃ r hit l', Settles c (Storage.lookupName (hosted (σ := σ)).toSurroundings l name) w
      (.locals l) r (w.modifyContext c (·.emit (.lookup hit))) (.locals l') :=
  ⟨_, _, _, memory.bind (setStorage.bind ((noteLookup _).bind (pure _)))⟩

theorem lookupKey (hk : key.mayRunCode = false) (hu : key.containsUnbound = false) (l : Locals)
    (hash? : Option UInt64) :
    ∃ r w' l', Settles c (Storage.lookupKey (hosted (σ := σ)).toSurroundings l key hash?) w
      (.locals l) r w' (.locals l') ∧
      (w' = w ∨ ∃ hit, w' = w.modifyContext c (·.emit (.lookup hit))) := by
  by_cases ht : ∃ name, key = .text name
  · obtain ⟨name, rfl⟩ := ht
    obtain ⟨r, hit, l', hname⟩ := lookupName c w l name
    exact ⟨r, _, l', hname, .inr ⟨hit, rfl⟩⟩
  · rw [Storage.lookupKey_of_not_text _ _ _ (not_exists.mp ht)]
    obtain ⟨h, hhash⟩ := hashOf c w (.locals l) hk hu hash?
    obtain ⟨r, hsearch⟩ := searchNames c w (.locals l) hk l.frame h
      (w.memory.layout l.frame).visibleSlots
    exact ⟨r, w, l, hhash.bind (memory.bind hsearch), .inl rfl⟩

end

end Settles

/-- The operation runs no hook and does not fail. It leaves the world as it was, but for the report
of a look-up in a view, and a storage without keys that run code. -/
def Quiet (c : Ref .context) (w : World σ) (s : Storage) (x : OnStorage σ α) : Prop :=
  ∃ a w' s', Settles c x w s a w' s' ∧ s'.runsCode = false ∧
    (w' = w ∨ s.isLocals = true ∧ ∃ hit, w' = w.modifyContext c (·.emit (.lookup hit)))

namespace Storage

section

variable {c : Ref .context} {w : World σ} {s : Storage} {key : Value} (hs : s.Flagged)
  (hf : s.runsCode = false)
include hs hf

theorem Flagged.plain (mem : Memory) : ∀ key ∈ (s.toMap mem).keys, key.mayRunCode = false := by
  obtain ⟨-, hflag, hruns⟩ := hs.toMap mem
  intro key hkey
  rw [← Bool.not_eq_true]
  intro hcode
  rw [hflag key hkey hcode, hf] at hruns
  cases hruns

theorem plain_of_mem_pairs (mem : Memory) : ∀ pair ∈ s.pairs mem, pair.1.mayRunCode = false := by
  intro pair hpair
  cases s with
  | map m =>
    have hkey : pair.1 ∈ m.keys := m.keys_eq ▸ List.mem_map_of_mem hpair
    exact hs.plain hf mem pair.1 hkey
  | locals l =>
    obtain ⟨_, -, rfl⟩ := List.mem_map.mp hpair
    rfl

theorem getText_quiet (name : TextRef) : Quiet c w s (getText hosted.toSurroundings name) := by
  cases s with
  | map m =>
    have hname : (Value.text name).mayRunCode = false := rfl
    obtain ⟨r, hget⟩ := Settles.mapGet c w (.map m) hname rfl (hs.plain hf w.memory)
      (some (Hash.ofText name.text))
    exact ⟨r, w, .map m, Settles.getStorage.bind hget, hf, .inl rfl⟩
  | locals l =>
    obtain ⟨r, hit, l', hlook⟩ := Settles.lookupName c w l name
    exact ⟨r, _, .locals l', Settles.getStorage.bind hlook, rfl, .inr ⟨rfl, hit, rfl⟩⟩

variable (hk : key.mayRunCode = false) (hu : key.containsUnbound = false)
include hk hu

theorem getItem_quiet (hash? : Option UInt64) :
    Quiet c w s (getItem hosted.toSurroundings key hash?) := by
  cases s with
  | map m =>
    obtain ⟨r, hget⟩ := Settles.mapGet c w (.map m) hk hu (hs.plain hf w.memory) hash?
    exact ⟨r, w, .map m, Settles.getStorage.bind hget, hf, .inl rfl⟩
  | locals l =>
    obtain ⟨r, w', l', hlook, hw⟩ := Settles.lookupKey c w hk hu l hash?
    exact ⟨r, w', .locals l', Settles.getStorage.bind hlook, rfl, hw.imp_right fun h => ⟨rfl, h⟩⟩

theorem setItem_quiet (v : Value) : Quiet c w s (setItem hosted.toSurroundings key v) := by
  obtain ⟨old, m', hset, hflag⟩ := Settles.mapSet c w (.map (s.toMap w.memory)) hk hu
    (hs.plain hf w.memory) v
  have hruns := hflag.trans ((hs.toMap w.memory).2.2.trans hf)
  exact ⟨old, w, .map m', Settles.promote.bind (hset.bind (Settles.setStorage.bind (.pure old))),
    hruns, .inl rfl⟩

theorem removeItem_settles (c : Ref .context) (w : World σ) :
    ∃ old m', Settles c (removeItem hosted.toSurroundings key) w s old w (.map m') ∧
      m'.runsCode = false := by
  obtain ⟨old, m', hremove, hflag⟩ := Settles.mapRemove c w (.map (s.toMap w.memory)) hk hu
    (hs.plain hf w.memory)
  have hruns := hflag.trans ((hs.toMap w.memory).2.2.trans hf)
  exact ⟨old, m', Settles.promote.bind (hremove.bind (Settles.setStorage.bind (.pure old))), hruns⟩

theorem pop_quiet : Quiet c w s (pop hosted.toSurroundings key) := by
  cases s with
  | map m =>
    obtain ⟨old, m', hremove, hruns⟩ := removeItem_settles hs hf hk hu c w
    exact ⟨_, w, .map m', Settles.getStorage.bind (hremove.bind (.pure _)), hruns, .inl rfl⟩
  | locals l =>
    obtain ⟨r, w', l', hlook, hw⟩ := Settles.lookupKey c w hk hu l none
    have hnoted := hw.imp_right fun h => And.intro (rfl : (locals l).isLocals = true) h
    cases r with
    | none =>
      exact ⟨none, w', .locals l', Settles.getStorage.bind (hlook.bind (.pure none)), rfl, hnoted⟩
    | some x =>
      have hview : (Storage.locals l').Flagged := trivial
      obtain ⟨old, m', hremove, hruns⟩ := removeItem_settles hview rfl hk hu c w'
      exact ⟨_, w', .map m', Settles.getStorage.bind (hlook.bind (hremove.bind (.pure _))), hruns,
        hnoted⟩

end

end Storage

/-- If a storage that was made with any operations says that none of its keys runs code, none does.
Then working on it with a key that runs no code and contains no unbound slot runs no hook of any
class, does not fail, and leaves the world as it was, but for the report of a look-up in a view; and
the storage goes on to say so. -/
theorem unflagged_runs_no_hook (host : Host σ) (s : Storage) (hs : s.Made host)
    (hf : s.runsCode = false) :
    (∀ mem, ∀ pair ∈ s.pairs mem, pair.1.mayRunCode = false) ∧
    ∀ key : Value, key.mayRunCode = false → key.containsUnbound = false →
      ∀ (c : Ref .context) (w : World σ),
        (∀ hash?, Quiet c w s (Storage.getItem hosted.toSurroundings key hash?)) ∧
        (∀ name, Quiet c w s (Storage.getText hosted.toSurroundings name)) ∧
        (∀ v, Quiet c w s (Storage.setItem hosted.toSurroundings key v)) ∧
        Quiet c w s (Storage.pop hosted.toSurroundings key) ∧
        Quiet c w s (Dict.contains hosted key) := by
  have hflagged := hs.flagged
  refine ⟨Storage.plain_of_mem_pairs hflagged hf, fun key hk hu c w => ?_⟩
  have hget : ∀ hash?, Quiet c w s (Storage.getItem hosted.toSurroundings key hash?) :=
    Storage.getItem_quiet hflagged hf hk hu
  refine ⟨hget, Storage.getText_quiet hflagged hf, Storage.setItem_quiet hflagged hf hk hu,
    Storage.pop_quiet hflagged hf hk hu, ?_⟩
  obtain ⟨r, w', s', hsettles, hs', hw⟩ := hget none
  exact ⟨r.isSome, w', s', hsettles.bind (.pure _), hs', hw⟩

theorem unflagged_runs_no_hook_text :
    Storage.Made colliding (.map mapOfX) ∧ (Storage.map mapOfX).runsCode = false ∧
    (Value.text ⟨5, "x"⟩).mayRunCode = false ∧ (Value.text ⟨5, "x"⟩).containsUnbound = false ∧
    Quiet ⟨0⟩ (World.initial ()) (.map mapOfX)
      (Storage.setItem hosted.toSurroundings (.text ⟨5, "x"⟩) (.int 2)) := by
  have hmade : Storage.Made colliding (.map mapOfX) := .ofDistinctTexts _
  obtain ⟨-, hquiet⟩ := unflagged_runs_no_hook colliding (.map mapOfX) hmade rfl
  exact ⟨hmade, rfl, rfl, rfl, (hquiet (.text ⟨5, "x"⟩) rfl rfl ⟨0⟩ (.initial ())).2.2.1 (.int 2)⟩

end Resumable
