import Resumable.Proofs.Storage.HostileKeys
import Resumable.Proofs.Storage.Snapshot

/-!
# Failed writes to a view

A write to a view makes a map of the variables of the frame before it hashes the key and compares
it with the names. If a program of the key fails then, nothing is written, but the map stays, and
the later stores to the frame do not reach it. A removal first looks the key up in the view, and
makes the map only if it finds the key.
-/

namespace Resumable

variable {σ : Type}

-- ---------------------------------------------------------------------------
-- What is left of a view
-- ---------------------------------------------------------------------------

/-- What a removal that removes nothing leaves of a view, by what a look-up of the key in the view
comes to, the result of the removal, and the memory after the look-up. -/
inductive LeftBy (l : Locals) (mem : Memory) :
    Except Failure (Option Value) → Except Failure (Option Value) → Storage → Prop
  | failed {e : Failure} : LeftBy l mem (.error e) (.error e) (.locals l)
  | absent {l' : Locals} : l'.frame = l.frame → l'.count = l.count →
      LeftBy l mem (.ok none) (.ok none) (.locals l')
  | found {v : Value} {r : Except Failure (Option Value)} :
      LeftBy l mem (.ok (some v)) r (.map (l.toMap mem))

namespace Locals

theorem findSlot_keeps (l : Locals) (layout : FrameLayout) (name : TextRef) :
    (l.findSlot layout name).2.2.frame = l.frame ∧
      (l.findSlot layout name).2.2.count = l.count := by
  unfold findSlot
  split
  · exact ⟨rfl, rfl⟩
  · dsimp only
    split
    · exact ⟨rfl, rfl⟩
    · exact ⟨rfl, rfl⟩

end Locals

namespace Host

def LooksUp (host : Host σ) (n : Nat) (c : Ref .context) (l : Locals) (key : Value) (w : World σ)
    (found : Except Failure (Option Value)) (v : World σ) : Prop :=
  ∃ t, (host.run n c ((Storage.getItem hosted.toSurroundings key none).run.run (.locals l))).run w =
    some ((found, t), v)

variable {host : Host σ} {n : Nat} {c : Ref .context} {w : World σ} {s : Storage} {l : Locals}
  {key : Value}

theorem searchNames_comes (host : Host σ) (n : Nat) (c : Ref .context) (f : Ref .frame)
    (key : Value) (hash : UInt64) (slots : List (Nat × TextRef)) (w : World σ) (s : Storage) :
    host.Comes n c (Storage.searchNames hosted.toSurroundings f key hash slots) w s
      fun _ _ s' => s' = s := by
  induction slots generalizing w with
  | nil => exact .pure rfl
  | cons slot slots ih =>
    rw [Storage.searchNames]
    split
    · exact ih w
    · refine .bind (P := fun _ _ t => t = s) (.equals fun _ _ => rfl) ?_ ?_
      · rintro same v _ rfl
        cases same
        · exact ih v
        · exact .memory (.pure rfl)
      · exact fun _ _ _ h => h

theorem lookupName_comes (host : Host σ) (n : Nat) (c : Ref .context) (l : Locals)
    (name : TextRef) (w : World σ) :
    host.Comes n c (Storage.lookupName hosted.toSurroundings l name) w (.locals l) fun r _ s' =>
      (∀ e, r ≠ .error e) ∧ s' = .locals (l.findSlot (w.memory.layout l.frame) name).2.2 := by
  have hnote : ∀ hit s, host.Comes n c (ExceptT.lift (hosted (σ := σ).noteLookup hit)) w s
      fun r _ s' => r = .ok ⟨⟩ ∧ s' = s := fun hit s =>
    .lift (p := Prog.edit (.emit (.lookup hit))) fun _ _ _ => ⟨rfl, rfl⟩
  refine .memory ?_
  obtain ⟨slot, hit, remembered⟩ := l.findSlot (w.memory.layout l.frame) name
  refine .setStorage (.bind (hnote hit _) ?_ ?_)
  · rintro _ u _ ⟨-, rfl⟩
    exact .pure ⟨fun e he => (by cases he), rfl⟩
  · rintro _ _ _ ⟨⟨⟩, -⟩

theorem lookupKey_comes (host : Host σ) (n : Nat) (c : Ref .context) (l : Locals) (key : Value)
    (hash? : Option UInt64) (w : World σ) :
    host.Comes n c (Storage.lookupKey hosted.toSurroundings l key hash?) w (.locals l)
      fun r _ s' => ∃ l', s' = .locals l' ∧ l'.frame = l.frame ∧ l'.count = l.count ∧
        ∀ e, r = .error e → l' = l := by
  by_cases ht : ∃ name, key = .text name
  · obtain ⟨name, rfl⟩ := ht
    obtain ⟨hframe, hcount⟩ := l.findSlot_keeps (w.memory.layout l.frame) name
    refine (lookupName_comes host n c l name w).mono ?_
    rintro r _ _ ⟨hr, rfl⟩
    exact ⟨_, rfl, hframe, hcount, fun e he => absurd he (hr e)⟩
  · rw [Storage.lookupKey_of_not_text _ _ _ (not_exists.mp ht)]
    refine .bind (P := fun _ _ t => t = .locals l) (.hashOf fun _ _ => rfl) ?_ ?_
    · rintro hash v _ rfl
      refine .memory ((searchNames_comes host n c l.frame key hash _ v _).mono ?_)
      rintro _ _ _ rfl
      exact ⟨l, rfl, rfl, rfl, fun _ _ => rfl⟩
    · rintro _ _ _ rfl
      exact ⟨l, rfl, rfl, rfl, fun _ _ => rfl⟩

theorem removeItem_view_comes {l l' : Locals} (hframe : l'.frame = l.frame) (key : Value)
    (w : World σ) :
    host.Comes n c (Storage.removeItem hosted.toSurroundings key) w (.locals l') fun r _ s' =>
      (∀ e, r ≠ .ok (some e)) → s' = .map (l.toMap w.memory) := by
  have hmap : (Storage.locals l').toMap w.memory = l.toMap w.memory := by
    simp only [Storage.toMap, Locals.toMap, Locals.pairs, hframe]
  have hm : ((Storage.locals l').toMap w.memory).Indexed := Storage.toMap_indexed w.memory l'
  refine (removeItem_comes hm key).mono ?_
  rintro (e | _ | e) _ _ ⟨m, rfl, -, hdoes⟩ hr
  · cases hdoes
    rw [hmap]
  · cases hdoes with
    | appended hw => cases hw
    | missed hr => cases hr
    | absent => rw [hmap]
  · exact absurd rfl (hr e)

theorem pop_comes (host : Host σ) (n : Nat) (c : Ref .context) (l : Locals) (key : Value)
    (w : World σ) :
    host.Comes n c (Storage.pop hosted.toSurroundings key) w (.locals l) fun r _ s' =>
      (∀ x, r ≠ .ok (some x)) → ∃ found v,
        host.LooksUp n c l key w found v ∧ LeftBy l v.memory found r s' := by
  have hlook : host.Comes n c (Storage.lookupKey hosted.toSurroundings l key none) w (.locals l)
      fun r w' s' => host.LooksUp n c l key w r w' ∧ ∃ l', s' = .locals l' ∧ l'.frame = l.frame ∧
        l'.count = l.count ∧ ∀ e, r = .error e → l' = l :=
    fun r w' s' hr => ⟨⟨s', hr⟩, lookupKey_comes host n c l key none w r w' s' hr⟩
  refine .getStorage (.bind hlook ?_ ?_)
  · rintro (_ | x) v _ ⟨hlooks, l', rfl, hframe, hcount, -⟩
    · exact .pure fun _ => ⟨_, v, hlooks, .absent hframe hcount⟩
    · refine .bind (removeItem_view_comes hframe key v) ?_ ?_
      · rintro old _ _ hmap
        refine .pure fun hr => ⟨_, v, hlooks, ?_⟩
        cases old with
        | none =>
          rw [hmap fun _ h => by cases h]
          exact .found
        | some e => exact absurd rfl (hr e.value)
      · rintro e _ _ hmap -
        rw [hmap fun _ h => by cases h]
        exact ⟨_, v, hlooks, .found⟩
  · rintro e v _ ⟨hlooks, l', rfl, -, -, hsame⟩ -
    rw [hsame e rfl]
    exact ⟨_, v, hlooks, .failed⟩

theorem missing_comes {α : Type} (host : Host σ) (n : Nat) (c : Ref .context) (key : Value)
    (w : World σ) (s : Storage) :
    host.Comes n c (Dict.missing hosted key : OnStorage σ α) w s fun _ _ s' => s' = s :=
  .bind (P := fun _ _ t => t = s) (.lift (p := Prog.newExc .keyError [key]) fun _ _ _ => rfl)
    (fun _ _ _ h => .throw h) fun _ _ _ h => h

theorem delete_comes (host : Host σ) (n : Nat) (c : Ref .context) (l : Locals) (key : Value)
    (w : World σ) :
    host.Comes n c (Dict.delete hosted key) w (.locals l) fun r _ s' =>
      ∀ e, r = .error e → ∃ found v, host.LooksUp n c l key w found v ∧
        (LeftBy l v.memory found (.error e) s' ∨ LeftBy l v.memory found (.ok none) s') := by
  refine .bind (pop_comes host n c l key w) ?_ ?_
  · rintro (_ | x) u t h
    · obtain ⟨found, v, hlooks, hleft⟩ := h fun _ h => by cases h
      refine (missing_comes host n c key u t).mono ?_
      rintro r _ _ rfl e -
      exact ⟨found, v, hlooks, .inr hleft⟩
    · exact .pure fun _ h => by cases h
  · rintro e u t h e' he
    cases he
    obtain ⟨found, v, hlooks, hleft⟩ := h fun _ h => by cases h
    exact ⟨found, v, hlooks, .inl hleft⟩

theorem setItem_view_comes (host : Host σ) (n : Nat) (c : Ref .context) (l : Locals)
    (key v : Value) (w : World σ) :
    host.Comes n c (Storage.setItem hosted.toSurroundings key v) w (.locals l) fun r _ s' =>
      ∀ e, r = .error e → s' = .map (l.toMap w.memory) := by
  have hm : ((Storage.locals l).toMap w.memory).Indexed := Storage.toMap_indexed w.memory l
  refine (setItem_comes hm key v).mono ?_
  rintro _ _ _ ⟨m, rfl, -, hdoes⟩ e rfl
  cases hdoes
  rfl

theorem set_view_comes (host : Host σ) (n : Nat) (c : Ref .context) (l : Locals) (key v : Value)
    (w : World σ) :
    host.Comes n c (Dict.set hosted key v) w (.locals l) fun r _ s' =>
      ∀ e, r = .error e → s' = .map (l.toMap w.memory) :=
  .bind (setItem_view_comes host n c l key v w) (fun _ _ _ _ => .pure fun _ h => by cases h)
    fun e _ _ h _ _ => h e rfl

end Host

/-- A write to a view that fails adds, replaces and removes no entry. Setting a key leaves a map of
the variables as they were at the beginning. Removing a key leaves the view if looking the key up
fails or finds nothing, and otherwise a map of the variables as they were after that look-up. -/
theorem failed_write_writes_nothing (host : Host σ) (n : Nat) (c : Ref .context) (l : Locals)
    (key : Value) (w w' : World σ) (s' : Storage) (e : Failure) :
    (∀ v, (host.run n c ((Storage.setItem hosted.toSurroundings key v).run.run (.locals l))).run w =
      some ((.error e, s'), w') → s' = .map (l.toMap w.memory)) ∧
    (∀ v, (host.run n c ((Dict.set hosted key v).run.run (.locals l))).run w =
      some ((.error e, s'), w') → s' = .map (l.toMap w.memory)) ∧
    ((host.run n c ((Storage.pop hosted.toSurroundings key).run.run (.locals l))).run w =
      some ((.error e, s'), w') → ∃ found v,
        host.LooksUp n c l key w found v ∧ LeftBy l v.memory found (.error e) s') ∧
    ((host.run n c ((Dict.delete hosted key).run.run (.locals l))).run w =
      some ((.error e, s'), w') → ∃ found v, host.LooksUp n c l key w found v ∧
        (LeftBy l v.memory found (.error e) s' ∨ LeftBy l v.memory found (.ok none) s')) ∧
    ∀ mem, (l.toMap mem).pairs = Assoc.ofTexts (mem.bindings l.frame) ∧
      ((mem.layout l.frame).Distinct → (l.toMap mem).pairs = (Storage.locals l).pairs mem) := by
  refine ⟨fun v hr => ?_, fun v hr => ?_, fun hr => ?_, fun hr => ?_, fun mem => ?_⟩
  · exact Host.setItem_view_comes host n c l key v w _ _ _ hr e rfl
  · exact Host.set_view_comes host n c l key v w _ _ _ hr e rfl
  · exact Host.pop_comes host n c l key w _ _ _ hr fun _ h => by cases h
  · exact Host.delete_comes host n c l key w _ _ _ hr e rfl
  · exact ⟨Storage.toMap_pairs mem l, Storage.toMap_pairs_of_distinct⟩

theorem Host.unhashed_set {host : Host σ} {w u : World σ} {key : Value} {e : Failure}
    (hhash : (host.answer (n + 1) c (.hash key)).run w = some (.error e, u)) (v : Value)
    (s : Storage) :
    (host.run (n + 1) c ((Storage.setItem hosted.toSurroundings key v).run.run s)).run w =
      some ((.error e, .map (s.toMap w.memory)), u) := by
  rw [Storage.setItem, run_bind_ok (run_promote ..)]
  exact run_bind_error (run_bind_error (run_hash hhash))

theorem unbound_hash (host : Host σ) (n : Nat) (c : Ref .context) (w : World σ) :
    (host.answer (n + 1) c (.hash .unbound)).run w =
      some (.error (.internal "hash of an unbound slot"), w) := by
  change (Engine.hash ⟨host, host.answer n⟩ c .unbound).run w = _
  simp only [Engine.hash, Value.hash]
  rfl

theorem Host.hashed_once_pop {host : Host σ} {w u v x : World σ} {l : Locals} {key a : Value}
    {name : TextRef} {index : Nat} {e : Failure} (hk : ∀ t, key ≠ .text t)
    (hhash : (host.answer (n + 1) c (.hash key)).run w = some (.ok (Hash.ofText name.text), u))
    (hslots : (u.memory.layout l.frame).visibleSlots = [(index, name)])
    (hequals : (host.answer (n + 1) c (.equals key (.text name))).run u = some (.ok true, v))
    (hload : v.memory.load l.frame index = some a)
    (hagain : (host.answer (n + 1) c (.hash key)).run v = some (.error e, x)) :
    (host.run (n + 1) c ((Storage.pop hosted.toSurroundings key).run.run (.locals l))).run w =
      some ((.error e, .map (l.toMap v.memory)), x) := by
  have hsearch : (host.run (n + 1) c ((Storage.searchNames hosted.toSurroundings l.frame key
      (Hash.ofText name.text) [(index, name)]).run.run (.locals l))).run u =
      some ((.ok (some a), .locals l), v) := by
    rw [Storage.searchNames, if_neg (by simp), run_bind_ok (run_equals hequals), ← hload]
    rfl
  have hlook : (host.run (n + 1) c ((Storage.lookupKey hosted.toSurroundings l key none).run.run
      (.locals l))).run w = some ((.ok (some a), .locals l), v) := by
    rw [Storage.lookupKey_of_not_text _ _ _ hk, Map.hashOf, run_bind_ok (run_hash hhash),
      ← hsearch, ← hslots]
    rfl
  have hremove : (host.run (n + 1) c ((Storage.removeItem hosted.toSurroundings key).run.run
      (.locals l))).run v = some ((.error e, .map (l.toMap v.memory)), x) := by
    rw [Storage.removeItem, run_bind_ok (run_promote ..)]
    exact run_bind_error (run_bind_error (run_hash hagain))
  refine (run_bind_ok hlook).trans ?_
  exact run_bind_error hremove

def worldOfX (host : σ) (v : Value) : World σ :=
  { World.initial host with memory := Storage.frameOfX v }

/-- A write that fails leaves a map in which `x` is 1, though the view would show the 2 that is
stored later. -/
theorem failed_set_freezes_view : ∃ s' w',
    (idleHost.run 1 ⟨0⟩ ((Storage.setItem hosted.toSurroundings .unbound (.int 5)).run.run
      (.locals (.ofFrame ⟨0⟩)))).run (worldOfX () (.int 1)) =
      some ((.error (.internal "hash of an unbound slot"), s'), w') ∧
    s'.isLocals = false ∧
    s'.pairs (w'.memory.store ⟨0⟩ 0 (.int 2)) = [(.text ⟨0, "x"⟩, .int 1)] ∧
    (Storage.locals (.ofFrame ⟨0⟩)).pairs (w'.memory.store ⟨0⟩ 0 (.int 2)) =
      [(.text ⟨0, "x"⟩, .int 2)] := by
  refine ⟨_, _, Host.unhashed_set (unbound_hash ..) _ _, rfl, ?_, rfl⟩
  exact Storage.toMap_pairs (Storage.frameOfX (.int 1)) (.ofFrame ⟨0⟩)

/-- Keys have the hash of the text `x` once, and are equal to every text, but a comparison stores 2
in the variable `x`. -/
def onceHashed : Host Bool where
  body _ := .done (.ok (.returns .none))
  hash _ _ := do
    let hashed ← Prog.look (·.host)
    Prog.modifyHost fun _ => true
    return if hashed then .error (.internal "no answer") else .ok (Hash.ofText "x")
  compare _ _ _ := do
    Prog.edit (.store ⟨0⟩ 0 (.int 2))
    return .ok true
  construct _ _ _ := .done (.ok .none)

theorem onceHashed_hash (w : World Bool) :
    (onceHashed.answer 2 ⟨0⟩ (.hash collidingKey)).run w =
      some (if w.host then .error (.internal "no answer") else .ok (Hash.ofText "x"),
        { w with host := true }) := by
  change (Engine.hash ⟨onceHashed, onceHashed.answer 1⟩ ⟨0⟩ collidingKey).run w = _
  simp only [Engine.hash, collidingKey, Value.hash]
  rfl

theorem onceHashed_equals (w : World Bool) (b : TextRef) :
    (onceHashed.answer 2 ⟨0⟩ (.equals collidingKey (.text b))).run w =
      some (.ok true, w.modifyMemory (·.store ⟨0⟩ 0 (.int 2))) := by
  change (Engine.equals ⟨onceHashed, onceHashed.answer 1⟩ ⟨0⟩ collidingKey _).run w = _
  simp only [Engine.equals]
  rw [collidingKey, Value.equals.eq_def]
  rfl

theorem onceHashed_pop : (onceHashed.run 2 ⟨0⟩ ((Storage.pop hosted.toSurroundings
      collidingKey).run.run (.locals (.ofFrame ⟨0⟩)))).run (worldOfX false (.int 1)) =
    some ((.error (.internal "no answer"),
      .map ((Locals.ofFrame ⟨0⟩).toMap (Storage.frameOfX (.int 2)))), worldOfX true (.int 2)) := by
  have hhash : (onceHashed.answer 2 ⟨0⟩ (.hash collidingKey)).run (worldOfX false (.int 1)) =
      some (.ok (Hash.ofText (⟨0, "x"⟩ : TextRef).text), worldOfX true (.int 1)) :=
    onceHashed_hash _
  have hslots : ((worldOfX true (.int 1)).memory.layout (Locals.ofFrame ⟨0⟩).frame).visibleSlots =
      [(0, ⟨0, "x"⟩)] := rfl
  have hequals : (onceHashed.answer 2 ⟨0⟩ (.equals collidingKey (.text ⟨0, "x"⟩))).run
      (worldOfX true (.int 1)) = some (.ok true, worldOfX true (.int 2)) := onceHashed_equals ..
  have hload : (worldOfX true (.int 2)).memory.load (Locals.ofFrame ⟨0⟩).frame 0 =
      some (.int 2) := rfl
  have hagain : (onceHashed.answer 2 ⟨0⟩ (.hash collidingKey)).run (worldOfX true (.int 2)) =
      some (.error (.internal "no answer"), worldOfX true (.int 2)) := onceHashed_hash _
  -- stated before it is compared with the goal, which would run the host
  have hpop := Host.hashed_once_pop (fun _ h => by cases h) hhash hslots hequals hload hagain
  exact hpop

theorem failed_pop_freezes_later : ∃ found v s',
    onceHashed.LooksUp 2 ⟨0⟩ (.ofFrame ⟨0⟩) collidingKey (worldOfX false (.int 1)) found v ∧
    LeftBy (.ofFrame ⟨0⟩) v.memory found (.error (.internal "no answer")) s' ∧
    ∀ mem, s'.pairs mem = [(.text ⟨0, "x"⟩, .int 2)] := by
  obtain ⟨-, -, hpop, -, hpairs⟩ := failed_write_writes_nothing onceHashed 2 ⟨0⟩ (.ofFrame ⟨0⟩)
    collidingKey (worldOfX false (.int 1)) _ _ _
  obtain ⟨found, v, hlooks, hleft⟩ := hpop onceHashed_pop
  exact ⟨found, v, _, hlooks, hleft, fun _ =>
    (hpairs (Storage.frameOfX (.int 2))).2 (Storage.distinct_frameOfX _)⟩

end Resumable
