import Resumable.Proofs.Storage.Snapshot

/-!
# Keys from both ends

The keys of a view are taken from either end of what is left of its slots, and each slot is read
when it is reached. Whatever is written to the variables in between, no slot is given twice, and one
that stays bound is not passed over.
-/

namespace Resumable

theorem FrameLayout.lt_size_of_visible {l : FrameLayout} {index : Nat}
    (h : (l.visible? index).isSome) : index < l.size := by
  obtain ⟨name, hname⟩ := Option.isSome_iff_exists.mp h
  obtain ⟨slot, hslot, -⟩ := Option.bind_eq_some_iff.mp hname
  exact (List.getElem?_eq_some_iff.mp hslot).1

namespace Locals

namespace Cursor

variable {mem : Memory} {c : Cursor}

-- ---------------------------------------------------------------------------
-- One key
-- ---------------------------------------------------------------------------

theorem keyAt_eq_some {index : Nat} {name : TextRef} :
    c.keyAt mem index = some name ↔
      (mem.layout c.frame).visible? index = some name ∧ (mem.load c.frame index).isSome := by
  unfold keyAt
  cases (mem.layout c.frame).visible? index with
  | none => simp
  | some _ => cases mem.load c.frame index <;> simp

/-- What is taken from an end, and what is left: the first slot from there that has a key, or
nothing. -/
inductive Takes (mem : Memory) (c : Cursor) : Bool → Option TextRef × Cursor → Prop
  | front (i : Nat) : c.front ≤ i → i < c.back → c.keyAt mem i = some name →
      (∀ j, c.front ≤ j → j < i → c.keyAt mem j = none) →
      Takes mem c true (some name, { c with front := i + 1 })
  | back (i : Nat) : c.front ≤ i → i < c.back → c.keyAt mem i = some name →
      (∀ j, i < j → j < c.back → c.keyAt mem j = none) →
      Takes mem c false (some name, { c with back := i })
  | exhausted (i : Nat) : c.front ≤ i → i ≤ c.back →
      (∀ j, c.front ≤ j → j < c.back → c.keyAt mem j = none) →
      Takes mem c fromFront (none, { c with front := i, back := i })

theorem Takes.of_empty {fromFront : Bool} (h : c.front = c.back) :
    Takes mem c fromFront (none, c) := by
  obtain ⟨f, front, back⟩ := c
  obtain rfl : front = back := h
  exact .exhausted front (Nat.le_refl _) (Nat.le_refl _) fun j hj hb =>
    absurd hj (Nat.not_le.mpr hb)

theorem nextIn_takes (mem : Memory) {n : Nat} (c : Cursor) (hn : c.front + n = c.back) :
    Takes mem c true (c.nextIn mem n) := by
  induction n generalizing c with
  | zero => exact .of_empty hn
  | succ n ih =>
    rw [nextIn]
    cases hkey : c.keyAt mem c.front with
    | some name => exact .front c.front (Nat.le_refl _) (by omega) hkey fun j _ _ => by omega
    | none =>
      have hfirst : ∀ j, c.front ≤ j → (c.front + 1 ≤ j → c.keyAt mem j = none) →
          c.keyAt mem j = none := fun j hj hlater => by
        obtain rfl | hlt := Nat.eq_or_lt_of_le hj
        · exact hkey
        · exact hlater hlt
      have hrest := ih { c with front := c.front + 1 } (by simp only; omega)
      dsimp only
      generalize nextIn mem n { c with front := c.front + 1 } = x at hrest ⊢
      cases hrest with
      | front i hi hb hname hnone =>
        exact .front i (Nat.le_of_succ_le hi) hb hname fun j hj hlt =>
          hfirst j hj fun hj => hnone j hj hlt
      | exhausted i hi hb hnone =>
        exact .exhausted i (Nat.le_of_succ_le hi) hb fun j hj hb => hfirst j hj fun hj =>
          hnone j hj hb

theorem nextBackIn_takes (mem : Memory) {n : Nat} (c : Cursor) (hn : c.front + n = c.back) :
    Takes mem c false (c.nextBackIn mem n) := by
  induction n generalizing c with
  | zero => exact .of_empty hn
  | succ n ih =>
    rw [nextBackIn]
    cases hkey : c.keyAt mem (c.back - 1) with
    | some name => exact .back (c.back - 1) (by omega) (by omega) hkey fun j _ _ => by omega
    | none =>
      have hlast : ∀ j, j < c.back → (j < c.back - 1 → c.keyAt mem j = none) →
          c.keyAt mem j = none := fun j hj hearlier => by
        obtain rfl | hlt := Nat.eq_or_lt_of_le (Nat.le_sub_one_of_lt hj)
        · exact hkey
        · exact hearlier hlt
      have hrest := ih { c with back := c.back - 1 } (by simp only; omega)
      dsimp only
      generalize nextBackIn mem n { c with back := c.back - 1 } = x at hrest ⊢
      cases hrest with
      | back i hi hb hname hnone =>
        exact .back i hi (Nat.lt_of_lt_pred hb) hname fun j hlt hj =>
          hlast j hj fun hj => hnone j hlt hj
      | exhausted i hi hb hnone =>
        exact .exhausted i hi (Nat.le_trans hb (Nat.sub_le ..)) fun j hj hb => hlast j hb fun hb =>
          hnone j hj hb

end Cursor

-- ---------------------------------------------------------------------------
-- Keys among writes
-- ---------------------------------------------------------------------------

structure Pull where
  writes : List Memory.Write
  front : Bool

/-- What was taken from an end: the key, if there was one, with the slot that was passed last there,
in the memory of that moment. -/
structure Pulled where
  memory : Memory
  front : Bool
  found : Option (Nat × TextRef)

def Pulled.slot? (p : Pulled) : Option Nat := p.found.map (·.1)

def Pulled.Before (p q : Pulled) : Prop := ∀ i j, p.slot? = some i → q.slot? = some j →
  if p.front then i < j else j < i

namespace Cursor

def pull (mem : Memory) (front : Bool) (c : Cursor) : Pulled × Cursor :=
  if front then
    let (key, c) := c.next mem
    (⟨mem, front, key.map (c.front - 1, ·)⟩, c)
  else
    let (key, c) := c.nextBack mem
    (⟨mem, front, key.map (c.back, ·)⟩, c)

def pullAll : List Pull → Memory → Cursor → List Pulled
  | [], _, _ => []
  | p :: pulls, mem, c =>
    let mem := mem.writeAll p.writes
    let (pulled, c) := c.pull mem p.front
    pulled :: pullAll pulls mem c

/-- Taking a key leaves a smaller window, further from the end than the slot of the key. All other
slots that were passed had no key. -/
structure Pulls (mem : Memory) (c : Cursor) (p : Pulled) (c' : Cursor) : Prop where
  memory : p.memory = mem
  frame : c'.frame = c.frame
  front : c.front ≤ c'.front
  back : c'.back ≤ c.back
  window : c'.front ≤ c'.back
  found : ∀ i name, p.found = some (i, name) →
    c.keyAt mem i = some name ∧ c.front ≤ i ∧ i < c.back ∧
    ∀ j, c'.front ≤ j → j < c'.back → if p.front then i < j else j < i
  exhausted : p.found = none → c'.back ≤ c'.front
  passed : ∀ j, c.front ≤ j → j < c.back → (c.keyAt mem j).isSome →
    p.slot? = some j ∨ c'.front ≤ j ∧ j < c'.back

variable {mem : Memory} {c c' : Cursor} {p : Pulled}

theorem pull_pulls (mem : Memory) (front : Bool) (h : c.front ≤ c.back) :
    Pulls mem c (c.pull mem front).1 (c.pull mem front).2 := by
  have hn : c.front + (c.back - c.front) = c.back := by omega
  have hpassed : ∀ {j}, c.keyAt mem j = none → (c.keyAt mem j).isSome → ∀ {P : Prop}, P :=
    fun hnone hsome => by simp [hnone] at hsome
  cases front with
  | true =>
    have htakes := nextIn_takes mem c hn
    simp only [pull, if_true, next]
    generalize c.nextIn mem (c.back - c.front) = x at htakes
    cases htakes with
    | front i hi hb hname hnone =>
      refine ⟨rfl, rfl, Nat.le_succ_of_le hi, Nat.le_refl _, hb, ?_, nofun,
        fun j hj hjb hsome => ?_⟩
      · rintro _ _ ⟨⟩
        exact ⟨hname, hi, hb, fun j hj _ => hj⟩
      · obtain hlt | rfl | hgt := Nat.lt_trichotomy j i
        · exact hpassed (hnone j hj hlt) hsome
        · exact .inl rfl
        · exact .inr ⟨hgt, hjb⟩
    | exhausted i hi hb hnone =>
      exact ⟨rfl, rfl, hi, hb, Nat.le_refl _, nofun, fun _ => Nat.le_refl _,
        fun j hj hjb hsome => hpassed (hnone j hj hjb) hsome⟩
  | false =>
    have htakes := nextBackIn_takes mem c hn
    simp only [pull, Bool.false_eq_true, if_false, nextBack]
    generalize c.nextBackIn mem (c.back - c.front) = x at htakes
    cases htakes with
    | back i hi hb hname hnone =>
      refine ⟨rfl, rfl, Nat.le_refl _, Nat.le_of_lt hb, hi, ?_, nofun, fun j hj hjb hsome => ?_⟩
      · rintro _ _ ⟨⟩
        exact ⟨hname, hi, hb, fun j _ hj => hj⟩
      · obtain hlt | rfl | hgt := Nat.lt_trichotomy j i
        · exact .inr ⟨hj, hlt⟩
        · exact .inl rfl
        · exact hpassed (hnone j hgt hjb) hsome
    | exhausted i hi hb hnone =>
      exact ⟨rfl, rfl, hi, hb, Nat.le_refl _, nofun, fun _ => Nat.le_refl _,
        fun j hj hjb hsome => hpassed (hnone j hj hjb) hsome⟩

-- ---------------------------------------------------------------------------
-- All keys
-- ---------------------------------------------------------------------------

theorem Pulls.keyAt (h : Pulls mem c p c') (m : Memory) (i : Nat) : c'.keyAt m i = c.keyAt m i := by
  rw [Cursor.keyAt, Cursor.keyAt, h.frame]

theorem Pulls.not_left (h : Pulls mem c p c') {i : Nat} (hi : p.slot? = some i) :
    ¬ (c'.front ≤ i ∧ i < c'.back) := by
  rintro ⟨hfront, hback⟩
  obtain ⟨⟨_, name⟩, hfound, rfl⟩ := Option.map_eq_some_iff.mp hi
  have hbeyond := (h.found _ _ hfound).2.2.2 _ hfront hback
  split at hbeyond <;> exact Nat.lt_irrefl _ hbeyond

theorem pullAll_cons (pull : Pull) (pulls : List Pull) (mem : Memory) (h : c.front ≤ c.back) :
    ∃ p c', Pulls (mem.writeAll pull.writes) c p c' ∧
      pullAll (pull :: pulls) mem c = p :: pullAll pulls (mem.writeAll pull.writes) c' :=
  ⟨_, _, pull_pulls _ pull.front h, rfl⟩

theorem pullAll_found (pulls : List Pull) (mem : Memory) (h : c.front ≤ c.back) :
    ∀ p ∈ pullAll pulls mem c, p.memory.layout c.frame = mem.layout c.frame ∧
      ∀ i name, p.found = some (i, name) →
        c.keyAt p.memory i = some name ∧ c.front ≤ i ∧ i < c.back := by
  induction pulls generalizing mem c with
  | nil => simp [pullAll]
  | cons pull pulls ih =>
    obtain ⟨q, c', hpull, heq⟩ := pullAll_cons pull pulls mem h
    have hlayout := Memory.layout_writeAll mem pull.writes c.frame
    intro p hp
    rw [heq] at hp
    obtain rfl | hp := List.mem_cons.mp hp
    · rw [hpull.memory]
      refine ⟨hlayout, fun i name hfound => ?_⟩
      obtain ⟨hkey, hi, hb, -⟩ := hpull.found i name hfound
      exact ⟨hkey, hi, hb⟩
    · obtain ⟨hsame, hfound⟩ := ih (mem.writeAll pull.writes) hpull.window p hp
      rw [hpull.frame] at hsame
      refine ⟨hsame.trans hlayout, fun i name hi => ?_⟩
      obtain ⟨hkey, hfront, hback⟩ := hfound i name hi
      rw [hpull.keyAt] at hkey
      exact ⟨hkey, Nat.le_trans hpull.front hfront, Nat.lt_of_lt_of_le hback hpull.back⟩

/-- Slots are given in the order in which they lie from each end. -/
theorem pullAll_ordered (pulls : List Pull) (mem : Memory) (h : c.front ≤ c.back) :
    (pullAll pulls mem c).Pairwise Pulled.Before := by
  induction pulls generalizing mem c with
  | nil => exact .nil
  | cons pull pulls ih =>
    obtain ⟨p, c', hpull, heq⟩ := pullAll_cons pull pulls mem h
    rw [heq]
    refine .cons (fun q hq i j hi hj => ?_) (ih _ hpull.window)
    obtain ⟨⟨_, name⟩, hfound, rfl⟩ := Option.map_eq_some_iff.mp hi
    obtain ⟨⟨_, name'⟩, hfound', rfl⟩ := Option.map_eq_some_iff.mp hj
    obtain ⟨-, hfront, hback⟩ := (pullAll_found pulls _ hpull.window q hq).2 _ _ hfound'
    exact (hpull.found _ _ hfound).2.2.2 _ hfront hback

theorem mem_pullAll_slots {pulls : List Pull} (h : c.front ≤ c.back) {p : Pulled} {i : Nat}
    (hp : p ∈ pullAll pulls mem c) (hi : p.slot? = some i) : c.front ≤ i ∧ i < c.back := by
  obtain ⟨⟨_, name⟩, hfound, rfl⟩ := Option.map_eq_some_iff.mp hi
  exact ((pullAll_found pulls mem h p hp).2 _ _ hfound).2

/-- Once nothing is found, each slot that was left and stayed bound had been found once, and nothing
is found any more. -/
theorem pullAll_exhausted (pulls : List Pull) (mem : Memory) (h : c.front ≤ c.back)
    {before after : List Pulled} {p : Pulled} (hp : pullAll pulls mem c = before ++ p :: after)
    (hnone : p.found = none) :
    (∀ q ∈ after, q.found = none) ∧
    ∀ i, c.front ≤ i → i < c.back → (∀ q ∈ before ++ [p], (c.keyAt q.memory i).isSome) →
      (before.filterMap Pulled.slot?).count i = 1 := by
  induction pulls generalizing mem c before with
  | nil => simp [pullAll] at hp
  | cons pull pulls ih =>
    obtain ⟨q, c', hpull, heq⟩ := pullAll_cons pull pulls mem h
    rw [heq] at hp
    cases before with
    | nil =>
      obtain ⟨rfl, rfl⟩ := List.cons.inj hp
      have hend := hpull.exhausted hnone
      refine ⟨fun q hq => ?_, fun i hi hb hbound => ?_⟩
      · cases hfound : q.found with
        | none => rfl
        | some s =>
          have hslot : q.slot? = some s.1 := by rw [Pulled.slot?, hfound, Option.map_some]
          have hleft := mem_pullAll_slots hpull.window hq hslot
          omega
      · have hsome := hbound q (List.mem_singleton_self _)
        rw [hpull.memory] at hsome
        obtain hslot | hleft := hpull.passed i hi hb hsome
        · simp [Pulled.slot?, hnone] at hslot
        · omega
    | cons p' before =>
      obtain ⟨rfl, hrest⟩ := List.cons.inj hp
      obtain ⟨hafter, hcount⟩ := ih _ hpull.window hrest
      refine ⟨hafter, fun i hi hb hbound => ?_⟩
      have hsome := hbound q (List.mem_cons_self ..)
      rw [hpull.memory] at hsome
      have hbefore : ∀ q ∈ before, q ∈ pullAll pulls (mem.writeAll pull.writes) c' := fun q hq => by
        rw [hrest]
        exact List.mem_append_left _ hq
      obtain hslot | ⟨hi', hb'⟩ := hpull.passed i hi hb hsome
      · -- it is given now; what is given later lies further from the end
        have hlater : i ∉ before.filterMap Pulled.slot? := fun hmem => by
          obtain ⟨u, hu, hui⟩ := List.mem_filterMap.mp hmem
          exact hpull.not_left hslot (mem_pullAll_slots hpull.window (hbefore u hu) hui)
        rw [List.filterMap_cons_some hslot, List.count_cons_self, List.count_eq_zero.mpr hlater]
      · -- it is left, so it is given later and not now
        have hlater := hcount i hi' hb' fun u hu => by
          rw [hpull.keyAt]
          exact hbound u (List.mem_cons_of_mem _ hu)
        have hnow : q.slot? ≠ some i := fun hslot => hpull.not_left hslot ⟨hi', hb'⟩
        cases hq : q.slot? with
        | none => rwa [List.filterMap_cons_none hq]
        | some j =>
          have hji : j ≠ i := fun he => hnow (he ▸ hq)
          rwa [List.filterMap_cons_some hq, List.count_cons_of_ne hji]

end Cursor

open Cursor (pullAll)

/-- Keys are taken from the ends of an enumeration of a view, in any order and with any writes in
between. Each is the name of a visible slot that is bound then; from the front the slots ascend,
from the back they descend, and every one from the front lies before every one from the back. When
there is no key for the first time, every visible slot that has stayed bound was given once, and
from then on there is none. -/
theorem keys_from_both_ends (mem : Memory) (l : Locals) (pulls : List Pull) :
    let layout := mem.layout l.frame
    let pulled := pullAll pulls mem (.ofLocals mem l)
    (∀ p ∈ pulled, ∀ i name, p.found = some (i, name) →
      layout.visible? i = some name ∧ (p.memory.load l.frame i).isSome) ∧
    pulled.Pairwise Pulled.Before ∧
    (pulled.filterMap Pulled.slot?).Nodup ∧
    ∀ before p after, pulled = before ++ p :: after → p.found = none →
      (∀ q ∈ after, q.found = none) ∧
      ∀ i, (layout.visible? i).isSome →
        (∀ q ∈ before ++ [p], (q.memory.load l.frame i).isSome) →
        (before.filterMap Pulled.slot?).count i = 1 := by
  intro layout pulled
  have hwindow : (Cursor.ofLocals mem l).front ≤ (Cursor.ofLocals mem l).back := Nat.zero_le _
  have hfound := Cursor.pullAll_found pulls mem hwindow
  have hlayout : ∀ p ∈ pulled, p.memory.layout l.frame = layout := fun p hp => (hfound p hp).1
  have hordered := Cursor.pullAll_ordered pulls mem hwindow
  refine ⟨fun p hp i name hname => ?_, hordered, ?_, fun before p after hp hnone => ?_⟩
  · obtain ⟨hvisible, hbound⟩ := Cursor.keyAt_eq_some.mp ((hfound p hp).2 i name hname).1
    exact ⟨hlayout p hp ▸ hvisible, hbound⟩
  · refine List.pairwise_filterMap.mpr (hordered.imp fun {p q} hbefore i hi j hj => ?_)
    have hbeyond := hbefore i j hi hj
    split at hbeyond <;> omega
  · obtain ⟨hafter, hcount⟩ := Cursor.pullAll_exhausted pulls mem hwindow hp hnone
    refine ⟨hafter, fun i hvisible hbound =>
      hcount i (Nat.zero_le i) (FrameLayout.lt_size_of_visible hvisible) fun q hq => ?_⟩
    obtain ⟨name, hname⟩ := Option.isSome_iff_exists.mp hvisible
    have hmem : q ∈ pulled := by
      rw [hp, List.append_cons]
      exact List.mem_append_left after hq
    exact Option.isSome_iff_exists.mpr
      ⟨name, Cursor.keyAt_eq_some.mpr ⟨hlayout q hmem ▸ hname, hbound q hq⟩⟩

end Locals

end Resumable
