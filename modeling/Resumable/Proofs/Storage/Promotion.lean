import Resumable.Proofs.Storage.View

/-!
# Promotion of views

A storage stands for the variables of a frame as they are, or for pairs of its own. Either way it is
read and written as a list of pairs is, and the first write to a view makes a map of the variables
as they are then.
-/

namespace Resumable.Storage

variable {m : Type → Type} [Monad m] {h : Hooks (StateT Setting m)} {law : KeyLaw h}
  {o : Objects} {mem : Memory} {f : Ref .frame} {l : Locals} {name : TextRef} {key : Value}

-- ---------------------------------------------------------------------------
-- Maps of views
-- ---------------------------------------------------------------------------

theorem bindings_sublist (mem : Memory) (f : Ref .frame) :
    ((mem.bindings f).map (·.1)).Sublist ((mem.layout f).visibleSlots.map (·.2)) := by
  rw [Memory.bindings]
  induction (mem.layout f).visibleSlots with
  | nil => exact .slnil
  | cons s slots ih =>
    obtain ⟨index, name⟩ := s
    rw [List.filterMap_cons]
    dsimp only
    cases mem.load f index with
    | none => exact ih.cons _
    | some v => exact ih.cons_cons _

theorem toMap_filed (mem : Memory) (l : Locals) : (l.toMap mem).Filed Map.textHash :=
  (Map.filed_empty.setTexts (mem.bindings l.frame)).1

theorem toMap_indexed (mem : Memory) (l : Locals) : (l.toMap mem).Indexed :=
  (toMap_filed mem l).indexed

theorem toMap_pairs (mem : Memory) (l : Locals) :
    (l.toMap mem).pairs = Assoc.ofTexts (mem.bindings l.frame) :=
  (Map.filed_empty.setTexts (mem.bindings l.frame)).2

theorem toMap_pairs_of_distinct (hd : (mem.layout l.frame).Distinct) :
    (l.toMap mem).pairs = bindings mem l.frame := by
  have hs := (bindings_sublist mem l.frame).map TextRef.text
  rw [List.map_map, List.map_map] at hs
  rw [toMap_pairs, Assoc.ofTexts_distinct (hd.sublist hs)]
  rfl

theorem toMap_holds (hv : SoundLayout law o (mem.layout l.frame)) :
    law.Holds (l.toMap mem) ∧ (l.toMap mem).pairs = bindings mem l.frame := by
  have hpairs := toMap_pairs_of_distinct (l := l) hv.distinct
  have hkeys : ∀ pair ∈ (l.toMap mem).pairs,
      ∃ s ∈ (mem.layout l.frame).visibleSlots, pair.1 = .text s.2 := by
    intro pair hp
    rw [hpairs] at hp
    obtain ⟨x, hx, rfl⟩ := List.mem_map.mp hp
    have hname := (bindings_sublist mem l.frame).mem (List.mem_map_of_mem hx)
    obtain ⟨s, hs, he⟩ := List.mem_map.mp hname
    exact ⟨s, hs, congrArg Value.text he.symm⟩
  refine ⟨⟨⟨toMap_indexed mem l, fun e he => ?_⟩, fun pair hp => ?_⟩, hpairs⟩
  · obtain ⟨s, -, hs⟩ := hkeys (e.key, e.value) (List.mem_map_of_mem he)
    have hhash : Map.textHash e.key = law.hash e.key := by
      rw [show e.key = .text s.2 from hs, law.hash_text]
      rfl
    exact ((toMap_filed mem l).hashed e he).trans hhash
  · obtain ⟨s, hs, he⟩ := hkeys pair hp
    rw [he]
    exact hv.good s hs

variable [LawfulMonad m]

theorem promote_view : Gives (promote (surroundings h)) mem (.locals l) (.ok (l.toMap mem))
    (.map (l.toMap mem)) :=
  .bind (.memory h) (.bind .get (.bind (.set (.map (l.toMap mem))) (.pure _)))

-- ---------------------------------------------------------------------------
-- Contents
-- ---------------------------------------------------------------------------

/-- What a storage stands for. -/
inductive Contents where
  | live
  | fixed (pairs : List (Value × Value))

namespace Contents

def pairs (mem : Memory) (f : Ref .frame) : Contents → List (Value × Value)
  | live => bindings mem f
  | fixed l => l

section

variable (fits : Value → Value → Bool) (mem : Memory) (f : Ref .frame)

/-- The key is there, and it has a hash. -/
def has (key : Value) (l : List (Value × Value)) : Bool :=
  !key.containsUnbound && (Assoc.get? (fits key) l).isSome

def removed (key : Value) : Contents → Contents
  | live =>
    if has fits key (bindings mem f) then fixed (Assoc.remove fits key (bindings mem f)) else live
  | fixed l => fixed (Assoc.remove fits key l)

variable {α : Type}

def after : Op α → Contents → Contents
  | .set key v, c => fixed (Assoc.insert fits key v (c.pairs mem f))
  | .pop key, c => c.removed fits mem f key
  | .clear, _ => fixed []
  | .markRunsCode, c => fixed (c.pairs mem f)
  | .get .., c | .getText _, c | .keys _, c | .forEach .., c | .len, c | .copy, c => c

variable {fits mem f}

theorem pairs_removed (key : Value) (c : Contents) :
    (c.removed fits mem f key).pairs mem f = Assoc.remove fits key (c.pairs mem f) := by
  cases c with
  | fixed l => rfl
  | live =>
    rw [removed]
    split
    · rfl
    · next hn =>
      simp only [pairs, Assoc.remove]
      split
      · rfl
      · next hu =>
        have hnone : Assoc.get? (fits key) (bindings mem f) = none := by simpa [has, hu] using hn
        rw [Assoc.erase_of_none hnone]

end

end Contents

variable (law o mem f) in
/-- The storage has the contents. -/
def Stands : Contents → Storage → Prop
  | .live, s => ∃ l, s = .locals l ∧ l.frame = f ∧ SoundCache o (mem.layout f) l
  | .fixed l, s => ∃ map, s = .map map ∧ law.Holds map ∧ map.pairs = l

variable {c : Contents} {s : Storage}

theorem getItem_stands (hv : SoundLayout law o (mem.layout f)) (hs : Stands law o mem f c s)
    (hk : law.good key) {hash? : Option UInt64} (hh : Given law.hash key hash?) :
    ∃ s', Gives (getItem (surroundings h) key hash?) mem s
        (Assoc.lookup law.fits key (c.pairs mem f)) s' ∧ Stands law o mem f c s' := by
  cases c with
  | live =>
    obtain ⟨l, rfl, rfl, hc⟩ := hs
    obtain ⟨l', hframe, hc', hx⟩ := lookupKey_gives hv hc hk hash? hh
    exact ⟨.locals l', .bind .get hx, l', rfl, hframe, hc'⟩
  | fixed l =>
    obtain ⟨map, rfl, hm, rfl⟩ := hs
    exact ⟨.map map, KeyLaw.getItem_holds mem hm hk hh, map, rfl, hm, rfl⟩

theorem getText_stands (hv : SoundLayout law o (mem.layout f)) (hs : Stands law o mem f c s)
    (hk : law.good (.text name)) :
    ∃ s', Gives (getText (surroundings h) name) mem s
        (Assoc.lookup law.fits (.text name) (c.pairs mem f)) s' ∧ Stands law o mem f c s' := by
  cases c with
  | live =>
    obtain ⟨l, rfl, rfl, hc⟩ := hs
    obtain ⟨l', hframe, hc', hx⟩ := lookupKey_gives hv hc hk none (by simp [Given])
    exact ⟨.locals l', .bind .get hx, l', rfl, hframe, hc'⟩
  | fixed l =>
    obtain ⟨map, rfl, hm, rfl⟩ := hs
    exact ⟨.map map, KeyLaw.getText_holds mem hm hk, map, rfl, hm, rfl⟩

theorem promote_stands (hv : SoundLayout law o (mem.layout f)) (hs : Stands law o mem f c s) :
    ∃ map, Gives (promote (surroundings h)) mem s (.ok map) (.map map) ∧
      law.Holds map ∧ map.pairs = c.pairs mem f := by
  cases c with
  | live =>
    obtain ⟨l, rfl, rfl, -⟩ := hs
    exact ⟨l.toMap mem, promote_view, toMap_holds hv⟩
  | fixed l =>
    obtain ⟨map, rfl, hm, rfl⟩ := hs
    exact ⟨map, KeyLaw.promote_map, hm, rfl⟩

theorem setItem_stands (hv : SoundLayout law o (mem.layout f)) (hs : Stands law o mem f c s)
    (hk : law.good key) (v : Value) :
    ∃ map, Gives (setItem (surroundings h) key v) mem s
        (Assoc.lookup law.fits key (c.pairs mem f)) (.map map) ∧
      law.Holds map ∧ map.pairs = Assoc.insert law.fits key v (c.pairs mem f) := by
  obtain ⟨map, hp, hm, hpairs⟩ := promote_stands hv hs
  rw [← hpairs]
  exact KeyLaw.setItem_holds mem hp hm hk v

theorem pop_view (hv : SoundLayout law o (mem.layout l.frame))
    (hc : SoundCache o (mem.layout l.frame) l) (hk : law.good key) :
    ∃ s, Gives (pop (surroundings h) key) mem (.locals l)
        (Assoc.lookup law.fits key (bindings mem l.frame)) s ∧
      Stands law o mem l.frame (Contents.live.removed law.fits mem l.frame key) s := by
  obtain ⟨l', hframe, hc', hx⟩ := lookupKey_gives hv hc hk none (by simp [Given])
  have hlive : Stands law o mem l.frame .live (.locals l') := ⟨l', rfl, hframe, hc'⟩
  rw [Assoc.lookup] at hx ⊢
  rw [Contents.removed, Contents.has]
  by_cases hu : key.containsUnbound = true
  · rw [if_pos hu] at hx ⊢
    exact ⟨.locals l', .bind .get (.fail hx), by simpa [hu] using hlive⟩
  · rw [if_neg hu] at hx ⊢
    cases hg : Assoc.get? (law.fits key) (bindings mem l.frame) with
    | none =>
      rw [hg] at hx
      exact ⟨.locals l', .bind .get (.bind hx (.pure _)), by simpa using hlive⟩
    | some v =>
      rw [hg] at hx
      obtain ⟨map, hp, hm, hpairs⟩ := promote_stands hv hlive
      obtain ⟨old, map', hrem, hold, hm', hp'⟩ := KeyLaw.remove_holds hm hk (by simpa using hu)
      have hrem := KeyLaw.removeItem_promoted hp hrem
      rw [hpairs] at hold hp'
      have hv : old.map (·.value) = some v := hold.trans hg
      refine ⟨.map map', ?_, ?_⟩
      · rw [← hv]
        exact .bind .get (.bind hx (.bind hrem (.pure _)))
      · simpa [hu, Assoc.remove, Stands] using ⟨hm', hp'⟩

theorem pop_stands (hv : SoundLayout law o (mem.layout f)) (hs : Stands law o mem f c s)
    (hk : law.good key) :
    ∃ s', Gives (pop (surroundings h) key) mem s
        (Assoc.lookup law.fits key (c.pairs mem f)) s' ∧
      Stands law o mem f (c.removed law.fits mem f key) s' := by
  cases c with
  | live =>
    obtain ⟨l, rfl, rfl, hc⟩ := hs
    exact pop_view hv hc hk
  | fixed l =>
    obtain ⟨map, rfl, hm, rfl⟩ := hs
    obtain ⟨map', hx, hm', hp⟩ := KeyLaw.pop_holds mem hm hk
    exact ⟨.map map', hx, map', rfl, hm', hp⟩

omit [LawfulMonad m] in
theorem clear_stands (hs : Stands law o mem f c s) : Stands law o mem f (.fixed []) s.clear := by
  cases c with
  | live =>
    obtain ⟨l, rfl, -⟩ := hs
    exact ⟨.empty, rfl, KeyLaw.holds_empty, rfl⟩
  | fixed l =>
    obtain ⟨map, rfl, -⟩ := hs
    exact ⟨map.clear, rfl, KeyLaw.holds_clear map, rfl⟩

omit [LawfulMonad m] in
theorem copy_stands (hs : Stands law o mem f c s) : Stands law o mem f c s.copy := by
  cases c with
  | live =>
    obtain ⟨l, rfl, hframe, -⟩ := hs
    exact ⟨l.copy, rfl, hframe, soundCache_ofFrame l.frame⟩
  | fixed l =>
    obtain ⟨map, rfl, hm, hp⟩ := hs
    exact ⟨map, rfl, hm, hp⟩

-- ---------------------------------------------------------------------------
-- Any step
-- ---------------------------------------------------------------------------

theorem foldNames_gives {α : Type} (h : Hooks (StateT Setting m)) (mem : Memory) (s : Storage)
    (f : Ref .frame) (g : α → Value → Value → Except Failure α)
    (slots : List (Nat × TextRef)) (a : α) :
    Gives (foldNames (surroundings h) f (foldStep g) slots a) mem s
      ((slots.filterMap fun (index, name) => (mem.load f index).map (name, ·)).foldlM
        (fun a pair => g a (.text pair.1) pair.2) a) s := by
  induction slots generalizing a with
  | nil => exact .pure a
  | cons slot slots ih =>
    obtain ⟨index, name⟩ := slot
    refine .bind (.memory h) ?_
    rw [List.filterMap_cons]
    dsimp only
    cases mem.load f index with
    | none => exact ih a
    | some v =>
      rw [Option.map_some]
      dsimp only
      rw [List.foldlM_cons, foldStep]
      cases g a (.text name) v with
      | error e => exact .fail (.throw e)
      | ok b => exact .bind (.pure b) (ih b)

variable {α : Type}

theorem forEach_view (h : Hooks (StateT Setting m)) (mem : Memory) (l : Locals)
    (g : α → Value → Value → Except Failure α) (a : α) :
    Gives (forEach (surroundings h) (.locals l) (foldStep g) a) mem (.locals l)
      ((l.pairs mem).foldlM (fun a pair => g a (.text pair.1) pair.2) a) (.locals l) :=
  .bind (.memory h)
    (foldNames_gives h mem (.locals l) l.frame g (mem.layout l.frame).visibleSlots a)

theorem size_frame (mem : Memory) (l : Locals) :
    (l.size mem).2.frame = l.frame ∧ (l.size mem).2.cache = l.cache := by
  rw [Locals.size]
  split
  · exact ⟨rfl, rfl⟩
  · exact ⟨rfl, rfl⟩

/-- An operation on a storage with contents leaves one with the contents after it. -/
theorem perform_stands (hv : SoundLayout law o (mem.layout f)) (hs : Stands law o mem f c s)
    {op : Op α} (hop : op.Uses law.good law.hash) (lookups : List Bool) :
    ∃ answer s' later, (perform h op).run ⟨mem, s, lookups⟩ = pure (answer, ⟨mem, s', later⟩) ∧
      Stands law o mem f (c.after law.fits mem f op) s' := by
  cases op with
  | set key v =>
    obtain ⟨map, hx, hm, hp⟩ := setItem_stands hv hs hop v
    obtain ⟨later, hx⟩ := hx.value lookups
    exact ⟨_, .map map, later, hx, map, rfl, hm, hp⟩
  | get key hash? =>
    obtain ⟨s', hx, hs'⟩ := getItem_stands hv hs hop.1 hop.2
    obtain ⟨later, hx⟩ := hx.value lookups
    exact ⟨_, s', later, hx, hs'⟩
  | getText key =>
    obtain ⟨s', hx, hs'⟩ := getText_stands hv hs hop
    obtain ⟨later, hx⟩ := hx.value lookups
    exact ⟨_, s', later, hx, hs'⟩
  | pop key =>
    obtain ⟨s', hx, hs'⟩ := pop_stands hv hs hop
    obtain ⟨later, hx⟩ := hx.value lookups
    exact ⟨_, s', later, hx, hs'⟩
  | clear => exact ⟨.done, s.clear, lookups, run_clear h _, clear_stands hs⟩
  | keys ends => exact ⟨_, s, lookups, run_keys h _ ends, hs⟩
  | forEach g start =>
    cases c with
    | live =>
      obtain ⟨l, rfl, rfl, hc⟩ := hs
      obtain ⟨later, hx⟩ := forEach_view h mem l g start lookups
      have hrun := run_forEach h ⟨mem, .locals l, lookups⟩ g start
      rw [hx, pure_bind] at hrun
      exact ⟨_, .locals l, later, hrun, l, rfl, rfl, hc⟩
    | fixed l =>
      obtain ⟨map, rfl, hm, rfl⟩ := hs
      obtain ⟨map', later, hx, hm', hp⟩ := KeyLaw.perform_holds hm hop mem lookups
      exact ⟨_, .map map', later, hx, map', rfl, hm', hp⟩
  | len =>
    cases c with
    | live =>
      obtain ⟨l, rfl, rfl, hc⟩ := hs
      obtain ⟨hframe, hcache⟩ := size_frame mem l
      refine ⟨_, .locals (l.size mem).2, lookups, run_len h _, _, rfl, hframe, ?_⟩
      rwa [SoundCache, hcache]
    | fixed l =>
      obtain ⟨map, rfl, hm, rfl⟩ := hs
      exact ⟨_, .map map, lookups, run_len h _, map, rfl, hm, rfl⟩
  | copy => exact ⟨.done, s.copy, lookups, run_copy h _, copy_stands hs⟩
  | markRunsCode =>
    obtain ⟨map, hp, hm, hpairs⟩ := promote_stands hv hs
    obtain ⟨later, hx⟩ := run_markRunsCode h (KeyLaw.markRunsCode_promoted hp) lookups
    have hm' : law.Holds map.markRunsCode := ⟨hm.filed.markRunsCode, hm.good⟩
    exact ⟨.done, .map map.markRunsCode, later, hx, _, rfl, hm', hpairs⟩

-- ---------------------------------------------------------------------------
-- Keys without a hash
-- ---------------------------------------------------------------------------

/-- Hashing the key fails, each time with a failure made for it, and does nothing else. -/
structure Refused (h : Hooks (StateT Setting m)) (key : Value) (e : m Failure) : Prop where
  noText : ∀ t, key ≠ .text t
  hash : key.hash h = ExceptT.mk (StateT.lift (Except.error <$> e))

variable {e : m Failure}

theorem hash_refuses (hk : Refused h key e) (s : Storage) :
    Refuses ((surroundings h).keys.hash key) mem s e s := by
  intro lookups
  refine ⟨lookups, ?_⟩
  have hh : (surroundings h).keys.hash key = ExceptT.mk (StateT.lift (Except.error <$> e)) :=
    hk.hash
  rw [hh]
  simp [ExceptT.mk, StateT.lift, ExceptT.run, StateT.run]

theorem getItem_refuses (hk : Refused h key e) (s : Storage) :
    Refuses (getItem (surroundings h) key none) mem s e s ∧
      Refuses (pop (surroundings h) key) mem s e s := by
  have hash : Refuses ((surroundings h).keys.hash key) mem s e s := hash_refuses hk s
  cases s with
  | map map =>
    have hr : Refuses (removeItem (surroundings h) key) mem (.map map) e (.map map) :=
      .bind KeyLaw.promote_map hash.fail.fail
    exact ⟨.bind .get hash.fail, .bind .get hr.fail⟩
  | locals l =>
    have hx : Refuses (lookupKey (surroundings h) l key none) mem (.locals l) e (.locals l) := by
      rw [lookupKey_of_not_text _ _ _ hk.noText]
      exact hash.fail
    exact ⟨.bind .get hx, .bind .get hx.fail⟩

theorem setItem_refuses (hv : SoundLayout law o (mem.layout f)) (hs : Stands law o mem f c s)
    (hk : Refused h key e) (v : Value) :
    ∃ s', Refuses (setItem (surroundings h) key v) mem s e s' ∧
      Stands law o mem f (.fixed (c.pairs mem f)) s' := by
  obtain ⟨map, hp, hm, hpairs⟩ := promote_stands hv hs
  exact ⟨.map map, .bind hp (hash_refuses hk _).fail.fail, map, rfl, hm, hpairs⟩

-- ---------------------------------------------------------------------------
-- All of it
-- ---------------------------------------------------------------------------

/-- No key of the list is found under both keys, and the one is not found under the other. -/
structure Apart (law : KeyLaw h) (key other : Value) (l : List (Value × Value)) : Prop where
  identical : key.identical other = false
  equals : law.equals other key = false
  stored : ∀ pair ∈ l, law.fits key pair.1 = true → law.fits other pair.1 = false

omit [LawfulMonad m] in
theorem Apart.fits {other : Value} {l : List (Value × Value)} (ha : Apart law key other l) :
    law.fits other key = false := by
  rw [KeyLaw.fits, Map.fits, ha.identical, ha.equals]
  exact Bool.and_false _

def OthersRead (law : KeyLaw h) (mem : Memory) (key : Value) (l : List (Value × Value))
    (s : Storage) : Prop :=
  ∀ other hash?, law.good other → Given law.hash other hash? → Apart law key other l →
    ∃ s', Gives (getItem (surroundings h) other hash?) mem s (Assoc.lookup law.fits other l) s'

/-- Reading and writing the storage is reading and writing the list of its contents. -/
structure Lossless (law : KeyLaw h) (o : Objects) (mem : Memory) (f : Ref .frame) (c : Contents)
    (s : Storage) : Prop where
  get : ∀ key hash?, law.good key → Given law.hash key hash? →
    ∃ s', Gives (getItem (surroundings h) key hash?) mem s
        (Assoc.lookup law.fits key (c.pairs mem f)) s' ∧
      Stands law o mem f c s'
  set : ∀ key v, law.good key →
    ∃ s', Gives (setItem (surroundings h) key v) mem s
        (Assoc.lookup law.fits key (c.pairs mem f)) s' ∧
      Stands law o mem f (.fixed (Assoc.insert law.fits key v (c.pairs mem f))) s' ∧
      OthersRead law mem key (c.pairs mem f) s'
  pop : ∀ key, law.good key →
    ∃ s', Gives (pop (surroundings h) key) mem s
        (Assoc.lookup law.fits key (c.pairs mem f)) s' ∧
      Stands law o mem f (c.removed law.fits mem f key) s' ∧
      OthersRead law mem key (c.pairs mem f) s'
  clear : Stands law o mem f (.fixed []) s.clear
  refused : ∀ key e, Refused h key e →
    Refuses (getItem (surroundings h) key none) mem s e s ∧
      Refuses (Storage.pop (surroundings h) key) mem s e s ∧
      ∀ v, ∃ s', Refuses (setItem (surroundings h) key v) mem s e s' ∧
        Stands law o mem f (.fixed (c.pairs mem f)) s'

theorem lossless (hv : SoundLayout law o (mem.layout f)) (hs : Stands law o mem f c s) :
    Lossless law o mem f c s where
  get _ _ hk hh := getItem_stands hv hs hk hh
  set key v hk := by
    obtain ⟨map, hx, hm, hp⟩ := setItem_stands hv hs hk v
    have hs' : Stands law o mem f (.fixed _) (.map map) := ⟨map, rfl, hm, hp⟩
    refine ⟨.map map, hx, hs', fun other hash? ho hh ha => ?_⟩
    obtain ⟨s', hx', -⟩ := getItem_stands hv hs' ho hh
    rw [Contents.pairs, Assoc.lookup_insert_other v ha.fits ha.stored] at hx'
    exact ⟨s', hx'⟩
  pop key hk := by
    obtain ⟨s', hx, hs'⟩ := pop_stands hv hs hk
    refine ⟨s', hx, hs', fun other hash? ho hh ha => ?_⟩
    obtain ⟨s'', hx', -⟩ := getItem_stands hv hs' ho hh
    rw [Contents.pairs_removed, Assoc.lookup_remove_other ha.stored] at hx'
    exact ⟨s'', hx'⟩
  clear := clear_stands hs
  refused key e hk :=
    ⟨(getItem_refuses hk s).1, (getItem_refuses hk s).2, fun v => setItem_refuses hv hs hk v⟩

end Resumable.Storage
