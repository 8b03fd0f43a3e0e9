import Resumable.Proofs.Heap.Accounts
import Resumable.Proofs.Storage.Hosted
import Resumable.Proofs.Storage.ViewEntries

/-!
# What reads show

Slots are read by their places, by name, and through views: by a look-up of any key, by a fold over
the entries and by an enumeration of the keys. Whatever was done to frames and cells before, and
whatever hooks and visitors do in the middle of it, each gives what the variable of a slot was
assigned. A slot that is not bound shows nothing, but a cell shows its contents as they are.
-/

namespace Resumable

open Memory (Account Operation)

variable {σ α : Type}

theorem FrameLayout.visible_of_mem {l : FrameLayout} {slot : Nat × TextRef}
    (h : slot ∈ l.visibleSlots) : l.visible? slot.1 = some slot.2 := by
  rw [visibleSlots_eq] at h
  obtain ⟨index, -, hindex⟩ := List.mem_filterMap.mp h
  obtain ⟨name, hname, rfl⟩ := Option.map_eq_some_iff.mp hindex
  exact hname

-- ---------------------------------------------------------------------------
-- Keys
-- ---------------------------------------------------------------------------

namespace Locals.Cursor

variable {mem : Memory} {key : TextRef}

theorem nextIn_key {n : Nat} {c : Cursor} (h : (c.nextIn mem n).1 = some key) :
    ∃ index, c.keyAt mem index = some key := by
  induction n generalizing c with
  | zero => cases h
  | succ n ih =>
    rw [nextIn] at h
    cases hkey : c.keyAt mem c.front with
    | some name =>
      rw [hkey] at h
      exact ⟨c.front, hkey.trans h⟩
    | none =>
      rw [hkey] at h
      exact ih (c := { c with front := c.front + 1 }) h

theorem nextBackIn_key {n : Nat} {c : Cursor} (h : (c.nextBackIn mem n).1 = some key) :
    ∃ index, c.keyAt mem index = some key := by
  induction n generalizing c with
  | zero => cases h
  | succ n ih =>
    rw [nextBackIn] at h
    cases hkey : c.keyAt mem (c.back - 1) with
    | some name =>
      rw [hkey] at h
      exact ⟨c.back - 1, hkey.trans h⟩
    | none =>
      rw [hkey] at h
      exact ih (c := { c with back := c.back - 1 }) h

end Locals.Cursor

/-- An entry of a view: what a visible slot reads as, under the name of the slot. -/
def Memory.Entry (mem : Memory) (layout : FrameLayout) (f : Ref .frame) (key v : Value) : Prop :=
  ∃ index name, layout.visible? index = some name ∧ key = .text name ∧
    mem.load f index = some v

theorem Storage.Cursor.key_shown {mem : Memory} {c : Locals.Cursor} {key : Value}
    (h : (next mem (.slots c)).1 = some key ∨ (nextBack mem (.slots c)).1 = some key) :
    ∃ v, mem.Entry (mem.layout c.frame) c.frame key v := by
  have hname : ∃ name index, key = .text name ∧ c.keyAt mem index = some name := by
    rcases h with h | h
    · obtain ⟨name, hname, rfl⟩ := Option.map_eq_some_iff.mp h
      obtain ⟨index, hindex⟩ := Locals.Cursor.nextIn_key hname
      exact ⟨name, index, rfl, hindex⟩
    · obtain ⟨name, hname, rfl⟩ := Option.map_eq_some_iff.mp h
      obtain ⟨index, hindex⟩ := Locals.Cursor.nextBackIn_key hname
      exact ⟨name, index, rfl, hindex⟩
  obtain ⟨name, index, rfl, hkey⟩ := hname
  obtain ⟨hvisible, hbound⟩ := Locals.Cursor.keyAt_eq_some.mp hkey
  obtain ⟨v, hv⟩ := Option.isSome_iff_exists.mp hbound
  exact ⟨v, index, name, hvisible, rfl, hv⟩

namespace Host

variable {host : Host σ} {n : Nat} {c : Ref .context} {w : World σ} {s : Storage}

theorem Comes.operates {x : OnStorage σ α} {Q : Except Failure α → World σ → Storage → Prop}
    (h : host.Comes n c x w s Q) :
    host.Comes n c x w s fun r w' s' => Q r w' s' ∧ w.Operates w' := fun r w' s' hr =>
  ⟨h r w' s' hr, ((host.run_trails n c (x.run.run s) w).2 _ _ hr).operates⟩

-- ---------------------------------------------------------------------------
-- Look-ups
-- ---------------------------------------------------------------------------

/-- What is found, if anything is, is what a slot of the frame reads as in the end. -/
def Finds (f : Ref .frame) (r : Except Failure (Option Value)) (w : World σ) (_ : Storage) : Prop :=
  ∀ v, r = .ok (some v) → ∃ index, w.memory.load f index = some v

theorem Finds.none : Finds f (.ok none) w s := by
  intro v hv
  cases hv

theorem Finds.error : Finds f (.error e) w s := by
  intro v hv
  cases hv

theorem searchNames_finds (f : Ref .frame) (key : Value) (hash : UInt64)
    (slots : List (Nat × TextRef)) (w : World σ) :
    host.Comes n c (Storage.searchNames hosted.toSurroundings f key hash slots) w s (Finds f) := by
  induction slots generalizing w with
  | nil => exact .pure .none
  | cons slot slots ih =>
    rw [Storage.searchNames]
    split
    · exact ih w
    · refine .bind (P := fun _ _ t => t = s) (.equals fun _ _ => rfl) ?_ ?_
      · rintro same v _ rfl
        cases same with
        | false => exact ih v
        | true => exact .memory (.pure fun v hv => ⟨slot.1, Except.ok.inj hv⟩)
      · exact fun _ _ _ _ => .error

theorem lookupName_finds (l : Locals) (name : TextRef) (w : World σ) :
    host.Comes n c (Storage.lookupName hosted.toSurroundings l name) w s (Finds l.frame) := by
  have hnote : ∀ hit t, host.Comes n c (ExceptT.lift (hosted (σ := σ).noteLookup hit)) w t
      fun _ w' _ => w'.memory = w.memory := fun hit t =>
    .lift (p := Prog.edit (.emit (.lookup hit))) fun _ w' hr => by
      cases n with
      | zero => cases hr
      | succ n =>
        cases hr
        rfl
  refine .memory (.setStorage (.bind (hnote _ _) ?_ fun _ _ _ _ => .error))
  rintro _ w' _ hmem
  refine .pure fun v hv => ?_
  obtain ⟨index, -, hload⟩ := Option.bind_eq_some_iff.mp (Except.ok.inj hv)
  exact ⟨index, by rw [hmem]; exact hload⟩

theorem getText_finds (l : Locals) (name : TextRef) (w : World σ) :
    host.Comes n c (Storage.getText hosted.toSurroundings name) w (.locals l) (Finds l.frame) :=
  .getStorage (lookupName_finds l name w)

theorem getItem_finds (l : Locals) (key : Value) (hash? : Option UInt64) (w : World σ) :
    host.Comes n c (Storage.getItem hosted.toSurroundings key hash?) w (.locals l)
      (Finds l.frame) := by
  refine .getStorage ?_
  by_cases ht : ∃ name, key = .text name
  · obtain ⟨name, rfl⟩ := ht
    exact lookupName_finds l name w
  · change host.Comes n c (Storage.lookupKey hosted.toSurroundings l key hash?) w _ _
    rw [Storage.lookupKey_of_not_text _ _ _ (not_exists.mp ht)]
    refine .bind (P := fun _ _ _ => True) (.hashOf fun _ _ => trivial) ?_ fun _ _ _ _ => .error
    exact fun hash v t _ => .memory (searchNames_finds l.frame key hash _ v)

-- ---------------------------------------------------------------------------
-- Folds
-- ---------------------------------------------------------------------------

def Keeps (I : α → World σ → Storage → Prop) (r : Except Failure α) (w : World σ) (s : Storage) :
    Prop := ∀ a, r = .ok a → I a w s

variable {visit : α → Value → Value → OnStorage σ α} {I : α → World σ → Storage → Prop}

theorem foldNames_keeps {layout : FrameLayout} {f : Ref .frame}
    (hvisit : ∀ a key v w s, I a w s → w.memory.Entry layout f key v →
      host.Comes n c (visit a key v) w s (Keeps I))
    (slots : List (Nat × TextRef))
    (hslots : ∀ slot ∈ slots, layout.visible? slot.1 = some slot.2) {a : α} (h : I a w s) :
    host.Comes n c (Storage.foldNames hosted.toSurroundings f visit slots a) w s (Keeps I) := by
  induction slots generalizing a w s with
  | nil =>
    refine .pure ?_
    rintro _ ⟨⟩
    exact h
  | cons slot slots ih =>
    have hrest := fun slot hmem => hslots slot (List.mem_cons_of_mem _ hmem)
    rw [Storage.foldNames]
    refine .memory ?_
    cases hload : w.memory.load f slot.1 with
    | none => exact ih hrest h
    | some v =>
      have hentry : w.memory.Entry layout f (.text slot.2) v :=
        ⟨slot.1, slot.2, hslots slot (List.mem_cons_self ..), rfl, hload⟩
      refine .bind (hvisit a _ v w s h hentry) ?_ fun _ _ _ _ => nofun
      exact fun b w' t hb => ih hrest (hb b rfl)

/-- The visitor of a fold over a view is handed entries of the moment and nothing else: what it
keeps when it is handed those, the fold keeps. -/
theorem forEach_keeps {l : Locals}
    (hvisit : ∀ a key v w' s', I a w' s' →
      w'.memory.Entry (w.memory.layout l.frame) l.frame key v →
      host.Comes n c (visit a key v) w' s' (Keeps I)) {a : α} (h : I a w s) :
    host.Comes n c (Storage.forEach hosted.toSurroundings (.locals l) visit a) w s (Keeps I) :=
  .memory (foldNames_keeps hvisit _ (fun _ hslot => FrameLayout.visible_of_mem hslot) h)

end Host

-- ---------------------------------------------------------------------------
-- Accounts
-- ---------------------------------------------------------------------------

namespace Memory.Account

variable {a : Account} {ops : List Operation} {w w' : World σ}

/-- The account is of the memory of the world, and goes on from some operations. -/
structure Follows (a : Account) (ops : List Operation) (w : World σ) : Prop where
  run : ∃ more, a = Account.run (ops ++ more)
  memory : w.memory = a.memory

theorem Follows.right (h : a.Follows ops w) : a.Right := by
  obtain ⟨more, rfl⟩ := h.run
  exact right_run _

theorem follows_run (hw : w.memory = (Account.run ops).memory) : (Account.run ops).Follows ops w :=
  ⟨⟨[], by rw [List.append_nil]⟩, hw⟩

theorem Follows.operates (h : a.Follows ops w) (hw : w.Operates w') :
    ∃ a' : Account, a'.Follows ops w' := by
  obtain ⟨⟨more, rfl⟩, hmemory⟩ := h
  obtain ⟨last, hlast⟩ := hw
  refine ⟨_, ⟨more ++ last, rfl⟩, ?_⟩
  rw [hlast, hmemory, memory_run, memory_run, ← applyAll_append, List.append_assoc]

def Lists (a : Account) (layout : FrameLayout) (f : Ref .frame) (key v : Value) : Prop :=
  ∃ index name, layout.visible? index = some name ∧ key = .text name ∧ a.Shows f index v

theorem Follows.lists (h : a.Follows ops w) {layout : FrameLayout} {f : Ref .frame} {key v : Value}
    (he : w.memory.Entry layout f key v) : a.Lists layout f key v := by
  obtain ⟨index, name, hvisible, hkey, hload⟩ := he
  rw [h.memory] at hload
  exact ⟨index, name, hvisible, hkey, (h.right.load_iff f index v).mp hload⟩

end Memory.Account

namespace Host

variable {host : Host σ} {n : Nat} {c : Ref .context} {w : World σ} {s : Storage}
  {ops : List Operation} {l : Locals}

/-- What is found, if anything is, is shown by a slot of the frame, by the account of the end. -/
def ReadsFrom (ops : List Operation) (f : Ref .frame) (r : Except Failure (Option Value))
    (w : World σ) (_ : Storage) : Prop :=
  ∀ v, r = .ok (some v) → ∃ a : Account, ∃ index, a.Follows ops w ∧ a.Shows f index v

theorem Comes.readsFrom {x : OnStorage σ (Option Value)} {f : Ref .frame}
    (hw : w.memory = (Account.run ops).memory) (h : host.Comes n c x w s (Finds f)) :
    host.Comes n c x w s (ReadsFrom ops f) := by
  refine h.operates.mono ?_
  rintro r w' s' ⟨hfinds, hoperates⟩ v hv
  obtain ⟨index, hload⟩ := hfinds v hv
  obtain ⟨a, ha⟩ := (Memory.Account.follows_run hw).operates hoperates
  rw [ha.memory] at hload
  exact ⟨a, index, ha, (ha.right.load_iff f index v).mp hload⟩

theorem forEach_lists {visit : α → Value → Value → OnStorage σ α} {I : α → World σ → Storage → Prop}
    (hw : w.memory = (Account.run ops).memory)
    (hvisit : ∀ x key v w' s' (a : Account), I x w' s' → a.Follows ops w' →
      a.Lists (w.memory.layout l.frame) l.frame key v →
      host.Comes n c (visit x key v) w' s' (Keeps I)) {x : α} (h : I x w s) :
    host.Comes n c (Storage.forEach hosted.toSurroundings (.locals l) visit x) w s (Keeps I) := by
  have hkeeps : host.Comes n c (Storage.forEach hosted.toSurroundings (.locals l) visit x) w s
      (Keeps fun x w' s' => I x w' s' ∧ ∃ a : Account, a.Follows ops w') := by
    refine forEach_keeps ?_ ⟨h, _, Memory.Account.follows_run hw⟩
    rintro x key v w' s' ⟨hI, a, ha⟩ he
    refine (hvisit x key v w' s' a hI ha (ha.lists he)).operates.mono ?_
    rintro r w'' s'' ⟨hkept, hoperates⟩ y hy
    exact ⟨hkept y hy, ha.operates hoperates⟩
  exact hkeeps.mono fun r w' s' hr y hy => (hr y hy).1

end Host

/-- Whatever operations were done to frames and cells, and however slots and frames share cells, a
slot reads as what its variable was assigned since it was last cleared, by its place and by its
name. A slot that was assigned the mark of an unbound one reads as not bound; a cell gives out what
it was assigned, the mark and other cells included. So the slot is bound exactly if its variable was
assigned, and shows a value of the program, if and only if its variable was assigned nothing else.
Every look-up in a view, every entry that a fold visits and every key of an enumeration is of such
a slot, by the account of that moment, whatever hooks and visitors have done in the meantime. -/
theorem reads_show_what_was_assigned (host : Host σ) (n : Nat) (c : Ref .context)
    (ops : List Operation) (w : World σ) (hw : w.memory = (Account.run ops).memory) :
    let a := Account.run ops
    (∀ f index v, w.memory.load f index = some v ↔ a.Shows f index v) ∧
    (∀ f index, ((w.memory.load f index).isSome =
        (a.assigned (w.memory.variableAt f index)).isSome ∧
        ∀ v, w.memory.load f index = some v → v.isPlumbing = false) ↔
      ∀ v, a.assigned (w.memory.variableAt f index) = some v → v.isPlumbing = false) ∧
    (∀ f name v, w.memory.loadName f name = some v ↔
      ∃ index, (w.memory.layout f).find? name = some index ∧ a.Shows f index v) ∧
    (∀ l key hash?, host.Comes n c (Storage.getItem hosted.toSurroundings key hash?) w (.locals l)
      (Host.ReadsFrom ops l.frame)) ∧
    (∀ l name, host.Comes n c (Storage.getText hosted.toSurroundings name) w (.locals l)
      (Host.ReadsFrom ops l.frame)) ∧
    (∀ (l : Locals) (α : Type) (visit : α → Value → Value → OnStorage σ α)
        (I : α → World σ → Storage → Prop),
      (∀ x key v w' s' (a : Account), I x w' s' → a.Follows ops w' →
        a.Lists (w.memory.layout l.frame) l.frame key v →
        host.Comes n c (visit x key v) w' s' (Host.Keeps I)) →
      ∀ x s, I x w s → host.Comes n c
        (Storage.forEach hosted.toSurroundings (.locals l) visit x) w s (Host.Keeps I)) ∧
    ∀ (cursor : Locals.Cursor) key,
      (Storage.Cursor.next w.memory (.slots cursor)).1 = some key ∨
        (Storage.Cursor.nextBack w.memory (.slots cursor)).1 = some key →
      ∃ v, a.Lists (w.memory.layout cursor.frame) cursor.frame key v := by
  intro a
  have ha : a.Follows ops w := Memory.Account.follows_run hw
  have hload : ∀ f index v, w.memory.load f index = some v ↔ a.Shows f index v := by
    rw [hw]
    exact ha.right.load_iff
  refine ⟨hload, ?_, fun f name v => ?_, ?_, ?_, ?_, ?_⟩
  · rw [hw]
    exact ha.right.bound_iff
  · rw [Memory.loadName, Option.bind_eq_some_iff]
    exact exists_congr fun index => and_congr_right fun _ => hload f index v
  · exact fun l key hash? => (Host.getItem_finds l key hash? w).readsFrom hw
  · exact fun l name => (Host.getText_finds l name w).readsFrom hw
  · exact fun l α visit I hvisit x s h => Host.forEach_lists hw hvisit h
  · intro cursor key hkey
    obtain ⟨v, hv⟩ := Storage.Cursor.key_shown hkey
    exact ⟨v, ha.lists hv⟩

theorem cell_read_through_cell :
    let ops : List Operation := [.newFrame ⟨0, [.named ⟨1, "x"⟩, .named ⟨2, "y"⟩]⟩,
      .newCell (some (.int 5)), .newCell none, .write (.storeRaw ⟨0⟩ 0 (.cell ⟨1⟩)),
      .write (.store ⟨0⟩ 0 (.cell ⟨0⟩)), .storeName ⟨0⟩ "y" .unbound]
    let w := { World.initial () with memory := (Account.run ops).memory }
    w.memory = (Account.run ops).memory ∧
      w.memory.load ⟨0⟩ 0 = some (.cell ⟨0⟩) ∧ w.memory.loadName ⟨0⟩ "x" = some (.cell ⟨0⟩) ∧
      w.memory.load ⟨0⟩ 1 = none ∧ (Account.run ops).assigned (.slot ⟨0⟩ 1) = some .unbound := by
  intro ops w
  obtain ⟨hload, -, hname, -⟩ := reads_show_what_was_assigned idleHost 1 ⟨0⟩ ops w rfl
  have hx : (Account.run ops).Shows ⟨0⟩ 0 (.cell ⟨0⟩) := ⟨rfl, fun _ => rfl⟩
  have hy : ∀ v, ¬ (Account.run ops).Shows ⟨0⟩ 1 v := by
    rintro v ⟨hv, hcell⟩
    cases hv
    cases hcell rfl
  refine ⟨rfl, (hload _ _ _).mpr hx, (hname _ _ _).mpr ⟨0, by decide, hx⟩, ?_, rfl⟩
  exact Option.eq_none_iff_forall_ne_some.mpr fun v hv => hy v ((hload _ _ _).mp hv)

end Resumable
