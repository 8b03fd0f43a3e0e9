import Mathlib.Data.List.Induction
import Resumable.Proofs.Storage.BothEnds

/-!
# The entries of a view

The keys of a view, a fold over it, its length and a look-up each go through the slots of the frame
in a way of their own. All but the look-up see the same entries, one for each visible slot that is
bound. A look-up sees the first slot of a name alone, which is all there is as long as no name is
repeated.
-/

namespace Resumable

namespace FrameLayout

theorem visibleSlots_eq (l : FrameLayout) :
    l.visibleSlots = (List.range l.size).filterMap fun i => (l.visible? i).map (i, ·) := by
  obtain ⟨id, slots⟩ := l
  simp only [visibleSlots, size, visible?, slot?]
  induction slots using List.reverseRecOn with
  | nil => rfl
  | append_singleton slots s ih =>
    rw [List.zipIdx_append, List.filterMap_append, ih, List.length_append, List.length_singleton,
      List.range_succ, List.filterMap_append]
    congr 1
    · refine List.filterMap_congr fun i hi => ?_
      rw [List.getElem?_append_left (List.mem_range.mp hi)]
    · simp [List.filterMap_cons]

def named (l : FrameLayout) (name : String) : Nat := l.visibleSlots.countP (·.2.text == name)

theorem find?_of_named {l : FrameLayout} {name : String} {slot : Nat × TextRef}
    (h : l.named name ≤ 1) (hmem : slot ∈ l.visibleSlots) (hname : slot.2.text = name) :
    l.visibleSlots.find? (·.2.text == name) = some slot := by
  have hslot : slot ∈ l.visibleSlots.filter (·.2.text == name) :=
    List.mem_filter.mpr ⟨hmem, beq_iff_eq.mpr hname⟩
  rw [named, List.countP_eq_length_filter] at h
  rw [← List.head?_filter]
  obtain ⟨other, hother⟩ := List.length_eq_one_iff.mp
    (Nat.le_antisymm h (List.length_pos_of_mem hslot))
  rw [hother, List.mem_singleton] at hslot
  rw [hother, hslot]
  rfl

end FrameLayout

namespace Locals

variable {mem : Memory}

-- ---------------------------------------------------------------------------
-- The keys
-- ---------------------------------------------------------------------------

namespace Cursor

def left (mem : Memory) (c : Cursor) : List TextRef :=
  (List.range' c.front (c.back - c.front)).filterMap (c.keyAt mem)

theorem left_ofLocals (mem : Memory) (l : Locals) :
    (ofLocals mem l).left mem = (l.pairs mem).map (·.1) := by
  rw [pairs, Memory.bindings, FrameLayout.visibleSlots_eq, List.filterMap_filterMap,
    List.map_filterMap, left, ofLocals, Nat.sub_zero, ← List.range_eq_range']
  refine List.filterMap_congr fun i _ => ?_
  rw [keyAt]
  cases (mem.layout l.frame).visible? i with
  | none => rfl
  | some name => cases h : mem.load l.frame i <;> simp [h]

theorem next_left (mem : Memory) {c : Cursor} (h : c.front ≤ c.back) :
    (c.next mem).1 = (c.left mem).head? ∧ (c.next mem).2.left mem = (c.left mem).tail ∧
      (c.next mem).2.front ≤ (c.next mem).2.back := by
  have hn : c.front + (c.back - c.front) = c.back := by omega
  have htakes := nextIn_takes mem c hn
  rw [next]
  generalize c.nextIn mem (c.back - c.front) = x at htakes
  cases htakes with
  | front i hi hb hname hnone =>
    -- the slots that are left are those before the one of the key, itself, and those after it
    have hslots : List.range' c.front (c.back - c.front) =
        List.range' c.front (i - c.front) ++ i :: List.range' (i + 1) (c.back - (i + 1)) := by
      have hlength : c.back - c.front = (i - c.front) + ((c.back - (i + 1)) + 1) := by omega
      rw [hlength, ← List.range'_append_1, List.range'_succ, Nat.add_sub_cancel' hi]
    have hbefore : (List.range' c.front (i - c.front)).filterMap (c.keyAt mem) = [] :=
      List.filterMap_eq_nil_iff.mpr fun j hj => by
        rw [List.mem_range'_1] at hj
        exact hnone j hj.1 (by omega)
    rw [left, hslots, List.filterMap_append, hbefore, List.nil_append,
      List.filterMap_cons_some hname]
    exact ⟨rfl, rfl, hb⟩
  | exhausted i hi hb hnone =>
    have hleft : c.left mem = [] := List.filterMap_eq_nil_iff.mpr fun j hj => by
      rw [List.mem_range'_1] at hj
      exact hnone j hj.1 (by omega)
    rw [hleft, left, Nat.sub_self]
    exact ⟨rfl, rfl, Nat.le_refl _⟩

theorem take_left (mem : Memory) (n : Nat) {c : Cursor} (h : c.front ≤ c.back) :
    Storage.Cursor.take mem (List.replicate n true) (.slots c) =
      (List.range n).map fun i => ((c.left mem)[i]?).map .text := by
  induction n generalizing c with
  | zero => rfl
  | succ n ih =>
    obtain ⟨hkey, htail, hwindow⟩ := next_left mem h
    rw [List.replicate_succ, Storage.Cursor.take, List.range_succ_eq_map, List.map_cons,
      List.map_map]
    simp only [Storage.Cursor.next]
    rw [ih hwindow, htail, hkey, List.head?_eq_getElem?]
    refine congrArg (_ :: ·) (List.map_congr_left fun i _ => ?_)
    simp

end Cursor

-- ---------------------------------------------------------------------------
-- The length
-- ---------------------------------------------------------------------------

theorem size_eq (mem : Memory) {l : Locals} (h : l.count = none) :
    (l.size mem).1 = (l.pairs mem).length := by
  rw [← List.length_map (·.1), ← Cursor.left_ofLocals, Cursor.left, List.length_filterMap_eq_countP,
    size, h, List.range_eq_range']
  refine List.countP_congr fun i _ => ?_
  rw [Cursor.ofLocals, Cursor.keyAt, Memory.visible?]
  cases (mem.layout l.frame).visible? i with
  | none => simp
  | some name => cases mem.load l.frame i <;> simp

-- ---------------------------------------------------------------------------
-- The entries under a name
-- ---------------------------------------------------------------------------

def Shows (mem : Memory) (l : Locals) (name : String) (v : Value) : Prop :=
  ∃ e ∈ l.pairs mem, e.1.text = name ∧ e.2 = v

theorem shows_iff {l : Locals} {name : String} {v : Value} :
    l.Shows mem name v ↔ ∃ slot ∈ (mem.layout l.frame).visibleSlots,
      slot.2.text = name ∧ mem.load l.frame slot.1 = some v := by
  simp only [Shows, pairs, Memory.bindings, List.mem_filterMap, Option.map_eq_some_iff]
  constructor
  · rintro ⟨_, ⟨slot, hslot, _, hload, rfl⟩, rfl, rfl⟩
    exact ⟨slot, hslot, rfl, hload⟩
  · rintro ⟨slot, hslot, rfl, hload⟩
    exact ⟨_, ⟨slot, hslot, v, hload, rfl⟩, rfl, rfl⟩

theorem countP_pairs_le (mem : Memory) (l : Locals) (name : String) :
    (l.pairs mem).countP (·.1.text == name) ≤ (mem.layout l.frame).named name := by
  rw [pairs, Memory.bindings, List.countP_filterMap, FrameLayout.named]
  refine List.countP_mono_left fun slot _ h => ?_
  cases hload : mem.load l.frame slot.1 with
  | none => simp [hload] at h
  | some v => simpa [hload] using h

end Locals

namespace Storage

variable {m : Type → Type} [Monad m] [LawfulMonad m] {mem : Memory} {l : Locals} {o : Objects}

/-- A look-up of a name sees what the first visible slot of that name holds. -/
theorem lookUp_first (h : Hooks (StateT Setting m)) (hc : SoundCache o (mem.layout l.frame) l)
    {name : TextRef} (hn : (Value.text name).In o) (hash? : Option UInt64) : ∃ l' : Locals,
    let found := ((mem.layout l.frame).visibleSlots.find? (·.2.text == name.text)).bind
      fun slot => mem.load l.frame slot.1
    Gives (getItem (surroundings h) (.text name) hash?) mem (.locals l) (.ok found) (.locals l') ∧
      Gives (getText (surroundings h) name) mem (.locals l) (.ok found) (.locals l') := by
  have hx : Gives (lookupName (surroundings h) l name) mem _ _ _ := lookupName_gives l name
  rw [(findSlot_sound hc hn).1, FrameLayout.findVisible?_eq, Option.bind_map] at hx
  exact ⟨_, .bind .get hx, .bind .get hx⟩

/-- The keys, a fold and the length of a view are those of these entries. -/
structure Lists (h : Hooks (StateT Setting m)) (mem : Memory) (l : Locals)
    (entries : List (TextRef × Value)) : Prop where
  keys : ∀ n, Cursor.take mem (List.replicate n true) (.ofStorage mem (.locals l)) =
    (List.range n).map fun i => (entries[i]?).map (.text ·.1)
  forEach : ∀ {α : Type} (g : α → Value → Value → Except Failure α) (a : α),
    Gives (forEach (surroundings h) (.locals l) (foldStep g) a) mem (.locals l)
      (entries.foldlM (fun a e => g a (.text e.1) e.2) a) (.locals l)
  size : l.count = none → (l.size mem).1 = entries.length

theorem lists_pairs (h : Hooks (StateT Setting m)) (mem : Memory) (l : Locals) :
    Lists h mem l (l.pairs mem) where
  keys n := by
    rw [Cursor.ofStorage, Locals.Cursor.take_left mem n (Nat.zero_le _),
      Locals.Cursor.left_ofLocals]
    refine List.map_congr_left fun i _ => ?_
    rw [List.getElem?_map, Option.map_map]
    rfl
  forEach g a := forEach_view h mem l g a
  size := Locals.size_eq mem

/-- The keys of a view, the entries that a fold visits, in the order of their slots, and the length
of a view that has not been counted are those of the bound visible slots. What is found under a name
is the value of an entry of that name. If no other visible slot has the name, it is a key once at
most, and the value of its entry is found. -/
theorem view_entries_agree (h : Hooks (StateT Setting m)) (mem : Memory) (l : Locals) (o : Objects)
    (hc : SoundCache o (mem.layout l.frame) l) :
    Lists h mem l (l.pairs mem) ∧
    ∀ (name : TextRef) (hash? : Option UInt64), (Value.text name).In o → ∃ found, ∃ l' : Locals,
      Gives (getItem (surroundings h) (.text name) hash?) mem (.locals l) (.ok found) (.locals l') ∧
      Gives (getText (surroundings h) name) mem (.locals l) (.ok found) (.locals l') ∧
      (∀ v, found = some v → l.Shows mem name.text v) ∧
      ((mem.layout l.frame).named name.text ≤ 1 →
        (l.pairs mem).countP (·.1.text == name.text) ≤ 1 ∧
        ∀ v, found = some v ↔ l.Shows mem name.text v) := by
  refine ⟨lists_pairs h mem l, fun name hash? hn => ?_⟩
  obtain ⟨l', hitem, htext⟩ := lookUp_first h hc hn hash?
  have hshown : ∀ v, ((mem.layout l.frame).visibleSlots.find? (·.2.text == name.text)).bind
      (fun slot => mem.load l.frame slot.1) = some v → l.Shows mem name.text v := fun v hv => by
    obtain ⟨slot, hslot, hload⟩ := Option.bind_eq_some_iff.mp hv
    have htext : slot.2.text = name.text := by simpa using List.find?_some hslot
    exact Locals.shows_iff.mpr ⟨slot, List.mem_of_find?_eq_some hslot, htext, hload⟩
  refine ⟨_, l', hitem, htext, hshown, fun hnamed => ⟨?_, fun v => ⟨hshown v, fun hv => ?_⟩⟩⟩
  · exact Nat.le_trans (Locals.countP_pairs_le mem l name.text) hnamed
  · obtain ⟨slot, hslot, htext, hload⟩ := Locals.shows_iff.mp hv
    rw [FrameLayout.find?_of_named hnamed hslot htext]
    exact hload

/-- Two slots that are not visible, a variable in a cell, and one that is not bound. -/
def frameOfFive : Memory :=
  ⟨⟨#[some (.int 2)]⟩, ⟨#[⟨⟨0, [.named ⟨0, "x"⟩, .engine "iterator", .named ⟨1, ".0"⟩,
    .named ⟨2, "y"⟩, .named ⟨3, "z"⟩]⟩, #[.int 1, .int 8, .int 9, .cell ⟨0⟩, .unbound]⟩]⟩⟩

def objectsOfFive : Objects := ⟨fun id => ["x", ".0", "y", "z"].getD id "", fun _ => []⟩

theorem view_of_five_entries_agree :
    let h := hooksOfX.hooks (m := StateT Setting Id)
    let view : Locals := .ofFrame ⟨0⟩
    SoundCache objectsOfFive (frameOfFive.layout ⟨0⟩) view ∧
    Lists h frameOfFive view [(⟨0, "x"⟩, .int 1), (⟨2, "y"⟩, .int 2)] ∧
    (∃ l', Gives (getItem (surroundings h) (.text ⟨2, "y"⟩) none) frameOfFive (.locals view)
      (.ok (some (.int 2))) (.locals l')) ∧
    ∃ l', Gives (getItem (surroundings h) (.text ⟨3, "z"⟩) none) frameOfFive (.locals view)
      (.ok none) (.locals l') := by
  intro h view
  have hc : SoundCache objectsOfFive (frameOfFive.layout ⟨0⟩) view := soundCache_ofFrame ⟨0⟩
  have hpairs : view.pairs frameOfFive = [(⟨0, "x"⟩, .int 1), (⟨2, "y"⟩, .int 2)] := rfl
  obtain ⟨hlists, hlookUp⟩ := view_entries_agree h frameOfFive view objectsOfFive hc
  refine ⟨hc, hpairs ▸ hlists, ?_, ?_⟩
  · obtain ⟨found, l', hy, -, -, hshown⟩ := hlookUp ⟨2, "y"⟩ none rfl
    have hfound : found = some (.int 2) :=
      ((hshown (by decide)).2 _).mpr ⟨(⟨2, "y"⟩, .int 2), by simp [hpairs], rfl, rfl⟩
    exact ⟨l', hfound ▸ hy⟩
  · obtain ⟨found, l', hz, -, hshown, -⟩ := hlookUp ⟨3, "z"⟩ none rfl
    have hunbound : ∀ e ∈ view.pairs frameOfFive, e.1.text ≠ "z" := by simp [hpairs]
    have hfound : found = none := Option.eq_none_iff_forall_ne_some.mpr fun v hv => by
      obtain ⟨e, he, hname, -⟩ := hshown v hv
      exact hunbound e he hname
    exact ⟨l', hfound ▸ hz⟩

def frameOfTwo (u v : Value) : Memory :=
  ⟨.empty, ⟨#[⟨⟨0, [.named ⟨0, "x"⟩, .named ⟨1, "x"⟩]⟩, #[u, v]⟩]⟩⟩

/-- Where two visible slots have one name, it is a key twice if both are bound. If the second alone
is bound, a fold visits it, but nothing is found under the name. -/
theorem repeated_name_not_found :
    Cursor.take (frameOfTwo (.int 1) (.int 2)) [true, true]
        (.ofStorage (frameOfTwo (.int 1) (.int 2)) (.locals (.ofFrame ⟨0⟩))) =
      [some (.text ⟨0, "x"⟩), some (.text ⟨1, "x"⟩)] ∧
    (∃ later, (forEach (surroundings (hooksOfX.hooks (m := StateT Setting Id)))
        (.locals (.ofFrame ⟨0⟩)) (foldStep fun seen key v => .ok ((key, v) :: seen)) []).run.run
        ⟨frameOfTwo .unbound (.int 2), .locals (.ofFrame ⟨0⟩), []⟩ =
      pure (.ok [(.text ⟨1, "x"⟩, .int 2)], later)) ∧
    ∃ later, (getItem (surroundings (hooksOfX.hooks (m := StateT Setting Id))) (.text ⟨1, "x"⟩)
        none).run.run ⟨frameOfTwo .unbound (.int 2), .locals (.ofFrame ⟨0⟩), []⟩ =
      pure (.ok none, later) :=
  ⟨rfl, ⟨_, rfl⟩, ⟨_, rfl⟩⟩

end Storage

end Resumable
