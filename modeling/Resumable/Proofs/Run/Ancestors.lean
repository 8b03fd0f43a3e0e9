import Mathlib.Data.Fintype.Pigeonhole
import Resumable.Heap.Links

/-!
# Chains of contexts

The context of an exception is another exception, which may have a context of its own. Where no
exception is its own context at any remove, every walk along the contexts ends, within as many steps
as there are exceptions. One link more closes a loop exactly if what is linked to leads back.
-/

namespace Resumable.Store

variable {s t : Store .exception Links} {r q x : Ref .exception} {n m : Nat}

-- ---------------------------------------------------------------------------
-- Walks
-- ---------------------------------------------------------------------------

def contextOf (s : Store .exception Links) (r : Ref .exception) : Option (Ref .exception) :=
  (s.get r).context.map (·.ref)

/-- Where a walk of `n` steps along the contexts comes to, if it does not end before. -/
def ancestor (s : Store .exception Links) : Nat → Ref .exception → Option (Ref .exception)
  | 0, r => some r
  | n + 1, r => (s.contextOf r).bind (s.ancestor n)

def LeadsTo (s : Store .exception Links) (r q : Ref .exception) : Prop :=
  ∃ n, s.ancestor n r = some q

/-- No exception comes after itself, and all contexts are exceptions that were made. -/
structure Acyclic (s : Store .exception Links) : Prop where
  made : ∀ r q, s.contextOf r = some q → s.Valid q
  apart : ∀ n r, s.ancestor (n + 1) r ≠ some r

theorem contextOf_of_not_valid (h : ¬ s.Valid r) : s.contextOf r = none := by
  rw [contextOf, get_of_not_valid s h]
  rfl

theorem ancestor_add (m n : Nat) (r : Ref .exception) :
    s.ancestor (m + n) r = (s.ancestor m r).bind (s.ancestor n) := by
  induction m generalizing r with
  | zero => rw [Nat.zero_add, ancestor, Option.bind_some]
  | succ m ih =>
    rw [Nat.succ_add, ancestor, ancestor]
    cases s.contextOf r with
    | none => rfl
    | some p => exact ih p

theorem LeadsTo.refl (s : Store .exception Links) (r : Ref .exception) : s.LeadsTo r r := ⟨0, rfl⟩

theorem LeadsTo.of_context (h : s.contextOf r = some x) (hx : s.LeadsTo x q) : s.LeadsTo r q := by
  obtain ⟨n, hn⟩ := hx
  exact ⟨n + 1, by rw [ancestor, h, Option.bind_some, hn]⟩

theorem LeadsTo.valid (h : s.Acyclic) (hr : s.Valid r) (hq : s.LeadsTo r q) : s.Valid q := by
  obtain ⟨n, hn⟩ := hq
  induction n generalizing r with
  | zero => exact Option.some.inj hn ▸ hr
  | succ n ih =>
    obtain ⟨x, hx, hn⟩ := Option.bind_eq_some_iff.mp hn
    exact ih (h.made r x hx) hn

/-- An exception that a walk leaves was made. -/
theorem valid_of_ancestor_succ (h : (s.ancestor (n + 1) r).isSome) :
    ∃ q, s.ancestor n r = some q ∧ s.Valid q := by
  obtain ⟨p, hp⟩ := Option.isSome_iff_exists.mp h
  rw [ancestor_add] at hp
  obtain ⟨q, hq, hp⟩ := Option.bind_eq_some_iff.mp hp
  refine ⟨q, hq, Classical.byContradiction fun hv => ?_⟩
  simp [ancestor, contextOf_of_not_valid hv] at hp

theorem ancestor_isSome_of_le (h : (s.ancestor n r).isSome) (hm : m ≤ n) :
    (s.ancestor m r).isSome := by
  obtain ⟨k, rfl⟩ := Nat.exists_eq_add_of_le hm
  rw [ancestor_add] at h
  cases hs : s.ancestor m r with
  | none => simp [hs] at h
  | some q => rfl

/-- A walk of more steps than there are exceptions comes to one of them twice. -/
theorem ancestor_repeats (h : (s.ancestor n r).isSome) (hn : s.next.index < n) :
    ∃ i j, i < j ∧ j < n ∧ s.ancestor i r = s.ancestor j r := by
  have hpassed : ∀ i : Fin n, ∃ q, s.ancestor i r = some q ∧ s.Valid q := fun i =>
    valid_of_ancestor_succ (ancestor_isSome_of_le h i.isLt)
  choose f hf hvalid using hpassed
  obtain ⟨i, j, hne, heq⟩ := Fintype.exists_ne_map_eq_of_card_lt
    (fun i => (⟨(f i).index, hvalid i⟩ : Fin s.next.index)) (by simpa using hn)
  have hsame : f i = f j := congrArg Ref.mk (Fin.mk.inj heq)
  have hanc : s.ancestor i r = s.ancestor j r := by rw [hf i, hf j, hsame]
  rcases Nat.lt_or_gt_of_ne (fun h => hne (Fin.ext h)) with hlt | hlt
  · exact ⟨i, j, hlt, j.isLt, hanc⟩
  · exact ⟨j, i, hlt, i.isLt, hanc.symm⟩

theorem leadsTo_iff : s.LeadsTo r q ↔ ∃ n ≤ s.next.index, s.ancestor n r = some q := by
  refine ⟨fun ⟨n, hn⟩ => ?_, fun ⟨n, _, hn⟩ => ⟨n, hn⟩⟩
  -- a walk that is longer can do without what lies between two visits of the same exception
  induction n using Nat.strong_induction_on with
  | _ n ih =>
    by_cases hle : n ≤ s.next.index
    · exact ⟨n, hle, hn⟩
    · obtain ⟨i, j, hij, hj, heq⟩ :=
        ancestor_repeats (Option.isSome_of_eq_some hn) (Nat.lt_of_not_le hle)
      refine ih (i + (n - j)) (by omega) ?_
      rw [ancestor_add, heq, ← ancestor_add, Nat.add_sub_cancel' hj.le, hn]

instance (s : Store .exception Links) (r q : Ref .exception) : Decidable (s.LeadsTo r q) :=
  decidable_of_iff (∃ n ≤ s.next.index, s.ancestor n r = some q) leadsTo_iff.symm

-- ---------------------------------------------------------------------------
-- Walks that end
-- ---------------------------------------------------------------------------

theorem Acyclic.ends (h : s.Acyclic) (r : Ref .exception) :
    s.ancestor (s.next.index + 1) r = none := by
  cases hr : s.ancestor (s.next.index + 1) r with
  | none => rfl
  | some q =>
    have hsome := Option.isSome_of_eq_some hr
    obtain ⟨i, j, hij, hj, heq⟩ := ancestor_repeats hsome (Nat.lt_succ_self _)
    obtain ⟨p, hp⟩ := Option.isSome_iff_exists.mp (ancestor_isSome_of_le hsome hj.le)
    have hloop : s.ancestor (j - i - 1 + 1) p = some p := by
      have hsplit := ancestor_add (s := s) i (j - i) r
      rw [Nat.add_sub_cancel' hij.le, heq, hp, Option.bind_some] at hsplit
      rw [Nat.sub_add_cancel (by omega), ← hsplit]
    exact absurd hloop (h.apart _ p)

theorem ancestor_loop (h : s.ancestor (n + 1) r = some r) (k : Nat) :
    s.ancestor (k * (n + 1)) r = some r := by
  induction k with
  | zero => rw [Nat.zero_mul, ancestor]
  | succ k ih => rw [Nat.succ_mul, ancestor_add, ih, Option.bind_some, h]

theorem Acyclic.of_ends (hmade : ∀ r q, s.contextOf r = some q → s.Valid q)
    (h : ∀ r, ∃ n, s.ancestor n r = none) : s.Acyclic := by
  refine ⟨hmade, fun n r hr => ?_⟩
  obtain ⟨m, hm⟩ := h r
  have hsome := ancestor_isSome_of_le (Option.isSome_of_eq_some (ancestor_loop hr m))
    (Nat.le_mul_of_pos_right m n.succ_pos)
  rw [hm] at hsome
  cases hsome

-- ---------------------------------------------------------------------------
-- Fewer links
-- ---------------------------------------------------------------------------

theorem ancestor_none_of_fewer
    (hc : ∀ q, t.contextOf q = s.contextOf q ∨ t.contextOf q = none)
    (h : s.ancestor n r = none) : t.ancestor n r = none := by
  induction n generalizing r with
  | zero => cases h
  | succ n ih =>
    rcases hc r with heq | hnone
    · rw [ancestor] at h ⊢
      rw [heq]
      cases hr : s.contextOf r with
      | none => rfl
      | some p => exact ih (by rwa [hr] at h)
    · rw [ancestor, hnone, Option.bind_none]

theorem Acyclic.of_fewer (h : s.Acyclic) (hv : ∀ q, s.Valid q → t.Valid q)
    (hc : ∀ q, t.contextOf q = s.contextOf q ∨ t.contextOf q = none) : t.Acyclic := by
  refine .of_ends (fun r q hq => hv q (h.made r q ?_)) fun r =>
    ⟨s.next.index + 1, ancestor_none_of_fewer hc (h.ends r)⟩
  rcases hc r with heq | hnone
  · rwa [← heq]
  · simp [hnone] at hq

theorem contextOf_modify (s : Store .exception Links) (r q : Ref .exception) (f : Links → Links) :
    (s.modify r f).contextOf q =
      if q = r ∧ s.Valid r then (f (s.get r)).context.map (·.ref) else s.contextOf q := by
  unfold contextOf
  split
  · next h => rw [h.1, get_modify_self s f h.2]
  · next h =>
    by_cases hq : q = r
    · subst hq
      have hv : ¬ s.Valid q := fun hv => h ⟨rfl, hv⟩
      rw [get_of_not_valid s hv, get_of_not_valid _ (by simpa using hv)]
    · rw [get_modify_of_ne s f hq]

theorem Acyclic.modify (h : s.Acyclic) (r : Ref .exception) {f : Links → Links}
    (hf : s.Valid r →
      (f (s.get r)).context = (s.get r).context ∨ (f (s.get r)).context = none) :
    (s.modify r f).Acyclic := by
  refine h.of_fewer (fun q hq => (valid_modify ..).mpr hq) fun q => ?_
  rw [contextOf_modify]
  split
  · next hq =>
    rcases hf hq.2 with heq | hnone
    · exact .inl (by rw [heq, hq.1, contextOf])
    · exact .inr (by rw [hnone, Option.map_none])
  · exact .inl rfl

theorem contextOf_add (s : Store .exception Links) (l : Links) (q : Ref .exception) :
    (s.add l).contextOf q = if q = s.next then l.context.map (·.ref) else s.contextOf q := by
  unfold contextOf
  split
  · next h => rw [h, get_add_next]
  · next h => rw [get_add_of_ne s l h]

theorem Acyclic.add_none (h : s.Acyclic) : (s.add .none).Acyclic := by
  refine h.of_fewer (fun q hq => (valid_add ..).mpr (.inl hq)) fun q => ?_
  rw [contextOf_add]
  split
  · exact .inr rfl
  · exact .inl rfl

theorem acyclic_empty : (empty : Store .exception Links).Acyclic := by
  have hnone : ∀ r, (empty : Store .exception Links).contextOf r = none := fun r =>
    contextOf_of_not_valid (by simp [Valid, empty])
  exact .of_ends (fun r q h => by simp [hnone] at h) fun r => ⟨1, by simp [ancestor, hnone]⟩

-- ---------------------------------------------------------------------------
-- One link more
-- ---------------------------------------------------------------------------

/-- In `t` the exception `r`, which has no context in `s`, has the context `x`. -/
structure Joins (s t : Store .exception Links) (r x : Ref .exception) : Prop where
  loose : s.contextOf r = none
  context : ∀ q, t.contextOf q = if q = r then some x else s.contextOf q
  valid : ∀ q, s.Valid q → t.Valid q

namespace Joins

theorem ancestor_eq (h : Joins s t r x) (hq : ¬ s.LeadsTo q r) (n : Nat) :
    t.ancestor n q = s.ancestor n q := by
  induction n generalizing q with
  | zero => rfl
  | succ n ih =>
    have hne : q ≠ r := fun heq => hq (heq ▸ .refl s r)
    rw [ancestor, ancestor, h.context, if_neg hne]
    cases hp : s.contextOf q with
    | none => rfl
    | some p => exact ih fun hpr => hq (.of_context hp hpr)

theorem leadsTo (h : Joins s t r x) (hq : s.LeadsTo q r) : t.LeadsTo q r := by
  obtain ⟨n, hn⟩ := hq
  induction n generalizing q with
  | zero => exact Option.some.inj hn ▸ .refl t _
  | succ n ih =>
    by_cases heq : q = r
    · exact heq ▸ .refl t r
    · obtain ⟨p, hp, hn⟩ := Option.bind_eq_some_iff.mp hn
      exact .of_context (by rw [h.context, if_neg heq, hp]) (ih hn)

/-- A walk that comes to `r` goes on from `x`, and does not come back. -/
theorem ends (h : Joins s t r x) (hs : s.Acyclic) (hr : ¬ s.LeadsTo x r)
    (hq : s.ancestor n q = none) : ∃ m, t.ancestor m q = none := by
  induction n generalizing q with
  | zero => cases hq
  | succ n ih =>
    by_cases heq : q = r
    · refine ⟨s.next.index + 1 + 1, ?_⟩
      rw [ancestor, h.context, if_pos heq, Option.bind_some, h.ancestor_eq hr, hs.ends]
    · rw [ancestor] at hq
      cases hp : s.contextOf q with
      | none => exact ⟨1, by rw [ancestor, h.context, if_neg heq, hp, Option.bind_none]⟩
      | some p =>
        obtain ⟨m, hm⟩ := ih (by rwa [hp] at hq)
        exact ⟨m + 1, by rw [ancestor, h.context, if_neg heq, hp, Option.bind_some, hm]⟩

theorem acyclic (h : Joins s t r x) (hs : s.Acyclic) (hx : s.Valid x) (hr : ¬ s.LeadsTo x r) :
    t.Acyclic := by
  refine .of_ends (fun q p hp => h.valid p ?_) fun q => h.ends hs hr (hs.ends q)
  rw [h.context] at hp
  split at hp
  · exact Option.some.inj hp ▸ hx
  · exact hs.made q p hp

theorem not_acyclic (h : Joins s t r x) (hr : s.LeadsTo x r) : ¬ t.Acyclic := fun ht => by
  obtain ⟨n, hn⟩ := h.leadsTo hr
  exact ht.apart n r (by rw [ancestor, h.context, if_pos rfl, Option.bind_some, hn])

theorem chain {e handled : Exc} (he : s.contextOf e.ref = none) (hv : s.Valid e.ref)
    (hne : handled.same e = false) :
    Joins s (s.modify e.ref (.chain e handled)) e.ref handled.ref where
  loose := he
  context q := by
    have hnone : (s.get e.ref).context = none := Option.map_eq_none_iff.mp he
    have hchain : ((s.get e.ref).chain e handled).context = some handled := by
      simp [Links.chain, hnone, hne]
    rw [contextOf_modify, hchain]
    simp [hv]
  valid q hq := (valid_modify ..).mpr hq

theorem add {l : Links} {e : Exc} (hl : l.context = some e) : Joins s (s.add l) s.next e.ref where
  loose := contextOf_of_not_valid s.not_valid_next
  context q := by rw [contextOf_add, hl, Option.map_some]
  valid q hq := (valid_add ..).mpr (.inl hq)

end Joins

theorem Acyclic.add (h : s.Acyclic) {l : Links} {e : Exc} (hl : l.context = some e)
    (he : s.Valid e.ref) : (s.add l).Acyclic :=
  (Joins.add hl).acyclic h he fun hnext => s.not_valid_next (hnext.valid h he)

end Resumable.Store
