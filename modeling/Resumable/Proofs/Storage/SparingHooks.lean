import Mathlib.Data.List.Perm.Subperm
import Resumable.Proofs.Run.Noting
import Resumable.Proofs.Storage.HostileKeys
import Resumable.Proofs.Storage.SlotCache

/-!
# Hooks are run only when they must be

A look-up asks a key for its hash once, and compares it with stored keys that have the same hash and
are not the key itself, up to the first that is equal or cannot be compared. No hook is run after
one that fails, although the search goes on. None of this depends on the order in which a search is
shown the places of its hash, or on what other places it is shown.
-/

namespace Resumable

variable {σ α β : Type}

-- ---------------------------------------------------------------------------
-- Operations that are noted
-- ---------------------------------------------------------------------------

namespace Host

/-- Whatever an operation comes to, with the notes of its hooks, is as `Q` says. -/
def Notes (host : Host σ) (n : Nat) (c : Ref .context) (x : OnStorage σ α) (w : World σ)
    (s : Storage) (Q : Except Failure α → List Asked → World σ → Prop) : Prop :=
  ∀ r s' asked w', (host.runNoting n c (x.run.run s)).run w = some (((r, s'), asked), w') →
    Q r asked w'

theorem runNoting_bind (host : Host σ) (n : Nat) (c : Ref .context) (x : OnStorage σ α)
    (f : α → OnStorage σ β) (w : World σ) (s : Storage) :
    (host.runNoting n c ((x >>= f).run.run s)).run w =
      ((host.runNoting n c (x.run.run s)).run w).bind fun y => match y.1.1.1 with
        | .ok a => ((host.runNoting n c ((f a).run.run y.1.1.2)).run y.2).map fun z =>
            ((z.1.1, y.1.2 ++ z.1.2), z.2)
        | .error e => some (((.error e, y.1.1.2), y.1.2), y.2) := by
  rw [OnStorage.run_bind, Host.runNoting, Prog.runNoting_bind, StateT.run_bind]
  refine congrArg (Option.bind _) (funext fun y => ?_)
  obtain ⟨⟨⟨e | a, t⟩, asked⟩, v⟩ := y
  · simp [Prog.runNoting]
  · simp only [StateT.run_bind, Option.map_eq_bind]
    rfl

namespace Notes

variable {host : Host σ} {n : Nat} {c : Ref .context} {x : OnStorage σ α} {w v : World σ}
  {s t : Storage} {P Q : Except Failure α → List Asked → World σ → Prop}

theorem mono (h : host.Notes n c x w s P) (hq : ∀ r asked w', P r asked w' → Q r asked w') :
    host.Notes n c x w s Q := fun r s' asked w' hr => hq r asked w' (h r s' asked w' hr)

theorem and (hp : host.Notes n c x w s P) (hq : host.Notes n c x w s Q) :
    host.Notes n c x w s fun r asked w' => P r asked w' ∧ Q r asked w' :=
  fun r s' asked w' hr => ⟨hp r s' asked w' hr, hq r s' asked w' hr⟩

theorem pure {a : α} (hq : Q (.ok a) [] w) :
    host.Notes n c (Pure.pure a : OnStorage σ α) w s Q := by
  rintro _ _ _ _ ⟨⟩
  exact hq

theorem bind {f : α → OnStorage σ β} {Q : Except Failure β → List Asked → World σ → Prop}
    (hx : host.Notes n c x w s P)
    (hf : ∀ a asked v t, P (.ok a) asked v →
      host.Notes n c (f a) v t fun r later => Q r (asked ++ later))
    (he : ∀ e asked v, P (.error e) asked v → Q (.error e) asked v) :
    host.Notes n c (x >>= f) w s Q := by
  intro r s' asked w' hr
  rw [runNoting_bind] at hr
  obtain ⟨⟨⟨⟨a, t⟩, first⟩, v⟩, hv, hr⟩ := Option.bind_eq_some_iff.mp hr
  cases a with
  | ok a =>
    obtain ⟨⟨⟨⟨_, _⟩, later⟩, _⟩, hlater, hr⟩ := Option.map_eq_some_iff.mp hr
    cases hr
    exact hf a first v t (hx _ _ _ _ hv) _ _ _ _ hlater
  | error e =>
    cases hr
    exact he e first v (hx _ _ _ _ hv)

theorem step {f : α → OnStorage σ β} {Q : Except Failure β → List Asked → World σ → Prop} {a : α}
    (hx : (host.runNoting n c (x.run.run s)).run w = some (((.ok a, t), []), v))
    (hf : host.Notes n c (f a) v t Q) : host.Notes n c (x >>= f) w s Q := by
  intro r s' asked w' hr
  rw [runNoting_bind, hx] at hr
  obtain ⟨⟨⟨⟨_, _⟩, later⟩, _⟩, hlater, hr⟩ := Option.map_eq_some_iff.mp hr
  cases hr
  exact hf _ _ _ _ hlater

theorem andThen {f : α → OnStorage σ β} {g : α → β} (hx : host.Notes n c x w s P)
    (hf : ∀ a v t, ∃ t', (host.runNoting n c ((f a).run.run t)).run v =
      some (((.ok (g a), t'), []), v)) :
    host.Notes n c (x >>= f) w s fun r asked w' => ∃ r', r = r'.map g ∧ P r' asked w' := by
  refine .bind hx (fun a asked v t ha r s' later w' hr => ?_)
    fun e asked v he => ⟨.error e, rfl, he⟩
  obtain ⟨t', ht⟩ := hf a v t
  rw [ht] at hr
  cases hr
  exact ⟨.ok a, rfl, by rwa [List.append_nil]⟩

theorem of_comes {P : Except Failure α → World σ → Storage → Prop}
    (h : host.Comes (n + 1) c x w s P) :
    host.Notes n c x w s fun r _ w' => ∃ s', P r w' s' := by
  intro r s' asked w' hr
  refine ⟨s', h r w' s' ?_⟩
  rw [← host.fst_runNoting, StateT.run_map, hr]
  rfl

theorem layout_eq (host : Host σ) (n : Nat) (c : Ref .context) (x : OnStorage σ α) (s : Storage)
    {f : Ref .frame} (hf : w.memory.frames.Valid f) :
    host.Notes n c x w s fun _ _ w' => w'.memory.layout f = w.memory.layout f := by
  intro r s' asked w' hr
  have hrun : (host.run (n + 1) c (x.run.run s)).run w = some ((r, s'), w') := by
    rw [← host.fst_runNoting, StateT.run_map, hr]
    rfl
  exact ((host.run_trails (n + 1) c _ w).2 _ _ hrun).layout_eq hf

theorem request {q : Request σ (Except Failure α)}
    (hq : ∀ r asked w', (Engine.answerNoting ⟨host, host.answer n⟩ c q).run w =
      some ((r, asked), w') → Q r asked w') :
    host.Notes n c (ExceptT.mk (liftM (Prog.request q))) w s Q := by
  intro r s' asked w' hr
  obtain ⟨⟨⟨_, first⟩, u⟩, hu, hr⟩ := Option.bind_eq_some_iff.mp hr
  cases hr
  rw [List.append_nil]
  exact hq _ first _ hu

theorem hash (host : Host σ) (n : Nat) (c : Ref .context) (w : World σ) (s : Storage)
    (key : Value) :
    host.Notes n c ((hosted (σ := σ)).keys.hash key) w s fun r asked _ =>
      ∃ hooks, asked = [.hash key hooks r] := by
  refine .request fun r asked w' hr => ?_
  obtain ⟨⟨⟨answer, hooks⟩, u⟩, -, ha⟩ := Option.bind_eq_some_iff.mp hr
  cases ha
  exact ⟨hooks, rfl⟩

theorem equals (host : Host σ) (n : Nat) (c : Ref .context) (w : World σ) (s : Storage)
    (key other : Value) :
    host.Notes n c ((hosted (σ := σ)).keys.equals key other) w s fun r asked _ =>
      ∃ hooks, asked = [.equals key other hooks r] := by
  refine .request fun r asked w' hr => ?_
  obtain ⟨⟨⟨answer, hooks⟩, u⟩, -, ha⟩ := Option.bind_eq_some_iff.mp hr
  cases ha
  exact ⟨hooks, rfl⟩

end Notes

end Host

-- ---------------------------------------------------------------------------
-- Comparing
-- ---------------------------------------------------------------------------

/-- A key is compared with others in turn, up to the first that is equal or cannot be compared. -/
inductive Scan (key : Value) : List Value → Except Failure Bool → List Asked → Prop
  | missed : Scan key [] (.ok false) []
  | differs : Scan key others answer asked →
      Scan key (other :: others) answer (.equals key other hooks (.ok false) :: asked)
  | equal : Scan key (other :: others) (.ok true) [.equals key other hooks (.ok true)]
  | failed : Scan key (other :: others) (.error f) [.equals key other hooks (.error f)]

theorem Scan.heeded {key : Value} {others : List Value} {answer : Except Failure Bool}
    {asked : List Asked} (h : Scan key others answer asked) (hsound : ∀ a ∈ asked, a.Sound) :
    Heeded answer (asked.flatMap Asked.hooks) := by
  induction h with
  | missed => exact .nil
  | differs h ih =>
    obtain ⟨hfirst, hrest⟩ := List.forall_mem_cons.mp hsound
    rw [List.flatMap_cons]
    exact .after hfirst.1.ok (ih hrest)
  | equal | failed =>
    rw [List.flatMap_singleton]
    exact (List.forall_mem_singleton.mp hsound).1

theorem Scan.heeded_of {key : Value} {others : List Value} {answer : Except Failure Bool}
    {asked : List Asked} (h : Scan key others answer asked) (hsound : ∀ a ∈ asked, a.Sound)
    {r : Except Failure α} (hr : ∀ f, answer = .error f → r = .error f) :
    Heeded r (asked.flatMap Asked.hooks) := by
  have hheeded := h.heeded hsound
  cases answer with
  | ok _ => exact .answered hheeded.ok
  | error f =>
    rw [hr f rfl]
    exact hheeded.error

/-- The key is hashed, if its hash is not given, and what follows is as `Q` says of the hash. -/
inductive Probes (key : Value) (Q : UInt64 → Except Failure α → List Asked → Prop) :
    Option UInt64 → Except Failure α → List Asked → Prop
  | given {hash : UInt64} : Q hash r asked → Probes key Q (some hash) r asked
  | hashed {hash : UInt64} : Q hash r asked →
      Probes key Q none r (.hash key hooks (.ok hash) :: asked)
  | failed : Probes key Q none (.error f) [.hash key hooks (.error f)]

namespace Probes

variable {key : Value} {Q : UInt64 → Except Failure α → List Asked → Prop} {hash? : Option UInt64}
  {r : Except Failure α} {asked : List Asked}

theorem heeded (h : Probes key Q hash? r asked) (hsound : ∀ a ∈ asked, a.Sound)
    (hq : ∀ hash r asked, Q hash r asked → (∀ a ∈ asked, a.Sound) →
      Heeded r (asked.flatMap Asked.hooks)) : Heeded r (asked.flatMap Asked.hooks) := by
  cases h with
  | given h => exact hq _ _ _ h hsound
  | hashed h =>
    obtain ⟨hfirst, hrest⟩ := List.forall_mem_cons.mp hsound
    rw [List.flatMap_cons]
    exact .after hfirst.1.ok (hq _ _ _ h hrest)
  | failed =>
    rw [List.flatMap_singleton]
    exact (List.forall_mem_singleton.mp hsound).1.error

theorem map {R : UInt64 → Except Failure β → List Asked → Prop} {g : α → β}
    (h : Probes key Q hash? r asked)
    (hq : ∀ hash r asked, Q hash r asked → R hash (r.map g) asked) :
    Probes key R hash? (r.map g) asked := by
  cases h with
  | given h => exact .given (hq _ _ _ h)
  | hashed h => exact .hashed (hq _ _ _ h)
  | failed => exact .failed

end Probes

-- ---------------------------------------------------------------------------
-- Maps
-- ---------------------------------------------------------------------------

namespace Map

variable {m : Map} {key : Value} {hash : UInt64}

/-- The stored keys that a key must be compared with to tell that it is not there: those of its
hash, the key itself apart. -/
def rivals (m : Map) (key : Value) (hash : UInt64) : List Value :=
  (m.entries.toList.filter fun e => e.hash == hash && !e.key.identical key).map (·.key)

def rivalsAt (m : Map) (key : Value) (hash : UInt64) (places : List Nat) : List Value :=
  ((places.filterMap (m.holder? hash)).filter fun e => !e.key.identical key).map (·.key)

/-- The table shows the other slots of a tag as well, but none of them has a place of the hash. -/
theorem FiledOnce.shows (h : m.FiledOnce) (hash : UInt64) : m.Shows hash (m.places hash) := by
  refine ⟨fun place => h.lt_size, fun place e he hh => ?_⟩
  have hfiled : (m.filed hash).count place = 1 := by
    rw [h hash place, he]
    simp [hh]
  rw [← hfiled, places, filed, Table.shown, Table.filed, List.count_eq_countP, List.count_eq_countP,
    List.countP_map, List.countP_map, List.countP_filter, List.countP_filter]
  refine List.countP_congr fun slot hslot => ?_
  have hslot : slot.place ∈ m.filed slot.hash :=
    List.mem_map_of_mem (List.mem_filter.mpr ⟨hslot, beq_self_eq_true _⟩)
  obtain ⟨e', he', hh'⟩ := h.entry hslot
  by_cases hp : slot.place = place
  · have hsame : slot.hash = hash := by
      rw [hp, he] at he'
      rw [← hh', ← Option.some.inj he', hh]
    simp [hp, hsame]
  · simp [hp]

theorem findIdxs_filterMap (p : α → Bool) (xs : List α) :
    (xs.findIdxs p).filterMap (xs[·]?) = xs.filter p := by
  induction xs with
  | nil => rfl
  | cons x xs ih =>
    have hrest : ((xs.findIdxs p).map (· + 1)).filterMap ((x :: xs)[·]?) = xs.filter p := by
      rw [List.filterMap_map, ← ih]
      rfl
    rw [findIdxs_cons_succ, List.filter_cons]
    split
    · rw [List.filterMap_cons_some (List.getElem?_cons_zero), hrest]
    · exact hrest

theorem holder_isSome (m : Map) (hash : UInt64) (place : Nat) :
    (m.holder? hash place).isSome = m.entries[place]?.any (·.hash == hash) := by
  cases h : m.entries[place]? with
  | none => simp [holder?, h]
  | some e => by_cases hh : e.hash = hash <;> simp [holder?, h, hh]

theorem Shows.own_perm {places : List Nat} (h : m.Shows hash places) :
    (places.filter fun place => (m.holder? hash place).isSome).Perm
      (m.entries.toList.findIdxs (·.hash == hash)) := by
  refine List.perm_iff_count.mpr fun place => ?_
  rw [List.nodup_findIdxs.count]
  simp only [mem_findIdxs, Array.getElem?_toList, ← holder_isSome]
  split
  · next hown =>
    obtain ⟨e, he⟩ := Option.isSome_iff_exists.mp hown
    obtain ⟨he, hh⟩ := Option.filter_eq_some_iff.mp he
    rw [List.count_filter (p := fun place => (m.holder? hash place).isSome) hown]
    exact h.once place e he (by simpa using hh)
  · next hown =>
    rw [List.count_eq_zero]
    exact fun hmem => hown (List.mem_filter.mp hmem).2

/-- Whatever a search for the hash is shown, the keys of the hash there are the rivals. -/
theorem Shows.rivalsAt_perm {places : List Nat} (h : m.Shows hash places) (key : Value) :
    (m.rivalsAt key hash places).Perm (m.rivals key hash) := by
  have hholders : places.filterMap (m.holder? hash) =
      (places.filter fun place => (m.holder? hash place).isSome).filterMap
        fun place => m.entries.toList[place]? := by
    rw [List.filterMap_filter]
    refine List.filterMap_congr fun place _ => ?_
    cases he : m.holder? hash place with
    | none => rfl
    | some e =>
      obtain ⟨hplace, -⟩ := Option.filter_eq_some_iff.mp he
      rw [Array.getElem?_toList, hplace]
      rfl
  have hentries : (places.filterMap (m.holder? hash)).Perm
      (m.entries.toList.filter (·.hash == hash)) := by
    rw [hholders, ← findIdxs_filterMap (·.hash == hash) m.entries.toList]
    exact h.own_perm.filterMap _
  have hrivals := (hentries.filter fun e => !e.key.identical key).map (·.key)
  rw [List.filter_filter] at hrivals
  simp only [Bool.and_comm] at hrivals
  exact hrivals

/-- The key is compared with keys of the hash at some places, in their order, and all of them if
nothing is found. -/
def Tries (m : Map) (key : Value) (hash : UInt64) (places : List Nat)
    (r : Except Failure (Option Nat)) (asked : List Asked) : Prop :=
  ∃ tried answer, Scan key tried answer asked ∧ tried.Sublist (m.rivalsAt key hash places) ∧
    (∀ f, answer = .error f → r = .error f) ∧
    (r = .ok none → answer = .ok false ∧ tried = m.rivalsAt key hash places)

/-- The key is compared with rivals, each once at most, and with each of them if nothing is
found. -/
def Compares (m : Map) (key : Value) (hash : UInt64) (r : Except Failure (Option α))
    (asked : List Asked) : Prop :=
  ∃ tried answer, Scan key tried answer asked ∧ tried.Subperm (m.rivals key hash) ∧
    (∀ f, answer = .error f → r = .error f) ∧
    (r = .ok none → answer = .ok false ∧ tried.Perm (m.rivals key hash))

theorem Compares.heeded {r : Except Failure (Option α)} {asked : List Asked}
    (h : m.Compares key hash r asked) (hsound : ∀ a ∈ asked, a.Sound) :
    Heeded r (asked.flatMap Asked.hooks) := by
  obtain ⟨tried, answer, hscan, -, herror, -⟩ := h
  exact hscan.heeded_of hsound herror

theorem Compares.map {r : Except Failure (Option α)} {asked : List Asked} (f : Option α → Option β)
    (hf : ∀ a, f a = none → a = none) (h : m.Compares key hash r asked) :
    m.Compares key hash (r.map f) asked := by
  obtain ⟨tried, answer, hscan, hsub, herror, hnone⟩ := h
  refine ⟨tried, answer, hscan, hsub, fun e he => ?_, fun hr => hnone ?_⟩
  · rw [herror e he]
    rfl
  · cases r with
    | error e => cases hr
    | ok a => rw [hf a (Except.ok.inj hr)]

theorem rivalsAt_cons_none {place : Nat} (h : m.holder? hash place = none) (places : List Nat) :
    m.rivalsAt key hash (place :: places) = m.rivalsAt key hash places := by
  simp [rivalsAt, h]

theorem rivalsAt_cons_some {place : Nat} {e : Entry} (h : m.holder? hash place = some e)
    (hid : e.key.identical key = false) (places : List Nat) :
    m.rivalsAt key hash (place :: places) = e.key :: m.rivalsAt key hash places := by
  simp [rivalsAt, h, hid]

namespace Tries

theorem nothing : m.Tries key hash [] (.ok none) [] :=
  ⟨[], .ok false, .missed, List.nil_sublist _, by rintro _ ⟨⟩, fun _ => ⟨rfl, rfl⟩⟩

theorem itself (places : List Nat) (place : Nat) :
    m.Tries key hash places (.ok (some place)) [] :=
  ⟨[], .ok false, .missed, List.nil_sublist _, by rintro _ ⟨⟩, by rintro ⟨⟩⟩

variable {place : Nat} {e : Entry} {rest : List Nat} {r : Except Failure (Option Nat)}
  {asked : List Asked}

theorem skips (he : m.holder? hash place = none) (h : m.Tries key hash rest r asked) :
    m.Tries key hash (place :: rest) r asked := by
  unfold Tries
  rwa [rivalsAt_cons_none he]

variable (he : m.holder? hash place = some e) (hid : e.key.identical key = false)
include he hid

theorem equal (hooks : List HookRun) :
    m.Tries key hash (place :: rest) (.ok (some place)) [.equals key e.key hooks (.ok true)] := by
  refine ⟨[e.key], .ok true, .equal, ?_, by rintro _ ⟨⟩, by rintro ⟨⟩⟩
  rw [rivalsAt_cons_some he hid]
  exact (List.nil_sublist _).cons_cons _

theorem failed (hooks : List HookRun) (f : Failure) :
    m.Tries key hash (place :: rest) (.error f) [.equals key e.key hooks (.error f)] := by
  refine ⟨[e.key], .error f, .failed, ?_, by rintro _ ⟨⟩; rfl, by rintro ⟨⟩⟩
  rw [rivalsAt_cons_some he hid]
  exact (List.nil_sublist _).cons_cons _

theorem differs (hooks : List HookRun) (h : m.Tries key hash rest r asked) :
    m.Tries key hash (place :: rest) r (.equals key e.key hooks (.ok false) :: asked) := by
  obtain ⟨tried, answer, hscan, hsub, herror, hnone⟩ := h
  refine ⟨e.key :: tried, answer, .differs hscan, ?_, herror, fun hr => ?_⟩ <;>
    rw [rivalsAt_cons_some he hid]
  · exact hsub.cons_cons _
  · exact (hnone hr).imp_right fun htried => congrArg _ htried

end Tries

inductive Op.Seeks : Op → Value → Option UInt64 → Prop
  | set {key : Value} : Seeks (.set key v) key none
  | get {key : Value} : Seeks (.get key hash?) key hash?
  | getText : Seeks (.getText name) (.text name) (some (Hash.ofText name.text))
  | remove {key : Value} : Seeks (.remove key) key none

end Map

namespace Host

variable {host : Host σ} {n : Nat} {c : Ref .context}

theorem search_tries (host : Host σ) (n : Nat) (c : Ref .context) (m : Map) (key : Value)
    (hash : UInt64) (places : List Nat) (w : World σ) (s : Storage) :
    host.Notes n c (m.search hosted.keys key hash places) w s fun r asked _ =>
      m.Tries key hash places r asked := by
  induction places generalizing w s with
  | nil =>
    rw [Map.search_nil]
    exact .pure .nothing
  | cons place rest ih =>
    cases he : m.holder? hash place with
    | none =>
      rw [Map.search_none he]
      exact (ih w s).mono fun _ _ _ h => h.skips he
    | some e =>
      rw [Map.search_some he]
      cases hid : e.key.identical key with
      | true =>
        rw [if_pos rfl]
        exact .pure (.itself _ place)
      | false =>
        rw [if_neg Bool.false_ne_true]
        refine .bind (.equals host n c w s key e.key) ?_ ?_
        · rintro same _ v t ⟨hooks, rfl⟩
          cases same with
          | true => exact .pure (.equal he hid hooks)
          | false => exact (ih v t).mono fun _ _ _ h => h.differs he hid hooks
        · rintro f _ v ⟨hooks, rfl⟩
          exact .failed he hid hooks f

theorem search_notes {m : Map} {hash : UInt64} {places : List Nat} (hm : m.Shows hash places)
    (key : Value) (w : World σ) (s : Storage) :
    host.Notes n c (m.search hosted.keys key hash places) w s fun r asked _ =>
      m.Compares key hash r asked := by
  have hperm := hm.rivalsAt_perm key
  refine (search_tries host n c m key hash places w s).mono ?_
  rintro r asked _ ⟨tried, answer, hscan, hsub, herror, hnone⟩
  refine ⟨tried, answer, hscan, hsub.subperm.trans hperm.subperm, herror, fun hr => ?_⟩
  obtain ⟨hanswer, rfl⟩ := hnone hr
  exact ⟨hanswer, hperm⟩

theorem find_notes {m : Map} (hm : m.FiledOnce) (key : Value) (hash : UInt64) (w : World σ)
    (s : Storage) :
    host.Notes n c (m.find? hosted.keys key hash) w s fun r asked _ =>
      m.Compares key hash r asked ∧
        ∀ place, r = .ok (some place) → ∃ e, m.entries[place]? = some e := by
  refine ((search_notes (hm.shows hash) key w s).and
    (.of_comes (find_comes host (n + 1) c m key hash w s))).mono ?_
  rintro r asked w' ⟨hcompares, _, -, hplace⟩
  refine ⟨hcompares, fun place hr => ?_⟩
  have hlt : place < m.entries.size := hm.lt_size (hplace place hr)
  exact ⟨m.entries[place], Array.getElem?_eq_getElem hlt⟩

theorem probe_notes {γ : Type} {m : Map} (hm : m.FiledOnce) (key : Value) (hash? : Option UInt64)
    (found : γ → Option β) {f : UInt64 → Option Nat → OnStorage σ γ}
    (hf : ∀ hash place?, (∀ place, place? = some place → ∃ e, m.entries[place]? = some e) →
      ∃ a, f hash place? = pure a ∧ (found a = none → place? = none)) (w : World σ) (s : Storage) :
    host.Notes n c (do
      let hash ← Map.hashOf hosted.keys key hash?
      let place? ← m.find? hosted.keys key hash
      f hash place?) w s fun r asked _ =>
        Probes key (fun hash r asked => m.Compares key hash (r.map found) asked) hash? r asked := by
  have hfind : ∀ hash v t, host.Notes n c (m.find? hosted.keys key hash >>= f hash) v t
      fun r asked _ => m.Compares key hash (r.map found) asked := fun hash v t => by
    refine .bind (find_notes hm key hash v t) ?_ ?_
    · rintro place? asked u t ⟨⟨tried, answer, hscan, hsub, herror, hnone⟩, hplace⟩
      obtain ⟨a, ha, hfound⟩ := hf hash place? fun place hp => hplace place (congrArg _ hp)
      rw [ha]
      refine .pure ?_
      rw [List.append_nil]
      refine ⟨tried, answer, hscan, hsub, fun f hr => (nomatch herror f hr), fun hr => hnone ?_⟩
      rw [hfound (Except.ok.inj hr)]
    · rintro e asked u ⟨⟨tried, answer, hscan, hsub, herror, -⟩, -⟩
      exact ⟨tried, answer, hscan, hsub, fun f hr => by cases herror f hr; rfl, nofun⟩
  cases hash? with
  | some hash =>
    refine .step (a := hash) (v := w) (t := s) rfl ((hfind hash w s).mono ?_)
    exact fun _ _ _ h => .given h
  | none =>
    refine .bind (.hash host n c w s key) ?_ ?_
    · rintro hash _ v t ⟨hooks, rfl⟩
      exact (hfind hash v t).mono fun _ _ _ h => .hashed h
    · rintro e _ v ⟨hooks, rfl⟩
      exact .failed

variable {m : Map} (hm : m.FiledOnce) (key : Value) (w : World σ) (s : Storage)
include hm

theorem mapGet_notes (hash? : Option UInt64) :
    host.Notes n c (m.get? hosted.keys key hash?) w s fun r asked _ =>
      Probes key (m.Compares key) hash? r asked := by
  have hprobe : host.Notes n c (m.get? hosted.keys key hash?) w s fun r asked _ =>
      Probes key (fun hash r asked => m.Compares key hash (r.map id) asked) hash? r asked := by
    refine probe_notes hm key hash? id (fun _ place? hplace => ?_) w s
    cases place? with
    | none => exact ⟨none, rfl, fun _ => rfl⟩
    | some place =>
      obtain ⟨e, he⟩ := hplace place rfl
      exact ⟨some e.value, by rw [Option.bind_some, he]; rfl, nofun⟩
  simpa only [Except.map_id, id_eq] using hprobe

theorem mapSet_notes (v : Value) :
    host.Notes n c (m.set hosted.keys key v) w s fun r asked _ =>
      Probes key (fun hash r asked => m.Compares key hash (r.map Prod.fst) asked) none r asked := by
  refine probe_notes hm key none Prod.fst (fun _ place? hplace => ?_) w s
  cases place? with
  | none => exact ⟨_, rfl, fun _ => rfl⟩
  | some place =>
    obtain ⟨e, he⟩ := hplace place rfl
    exact ⟨_, rfl, by simp [he]⟩

theorem mapRemove_notes :
    host.Notes n c (m.remove hosted.keys key) w s fun r asked _ =>
      Probes key (fun hash r asked => m.Compares key hash (r.map Prod.fst) asked) none r asked := by
  refine probe_notes hm key none Prod.fst (fun _ place? hplace => ?_) w s
  cases place? with
  | none => exact ⟨_, rfl, fun _ => rfl⟩
  | some place =>
    obtain ⟨e, he⟩ := hplace place rfl
    exact ⟨_, rfl, by simp [he]⟩

theorem perform_notes {op : Map.Op} {key : Value} {hash? : Option UInt64}
    (hop : op.Seeks key hash?) :
    host.Notes n c op.perform w (.map m) fun r asked _ =>
      Probes key (m.Compares key) hash? r asked := by
  cases hop with
  | get => exact .step rfl (mapGet_notes hm key w (.map m) hash?)
  | getText => exact .step rfl (mapGet_notes hm _ w (.map m) _)
  | set =>
    refine .step rfl ((Notes.andThen (mapSet_notes hm key w (.map m) _)
      fun a v t => ⟨.map a.2, rfl⟩).mono ?_)
    rintro _ asked _ ⟨r, rfl, h⟩
    exact h.map fun _ _ _ h => h
  | remove =>
    have hremove : host.Notes n c (Storage.removeItem hosted.toSurroundings key) w (.map m)
        fun r asked _ => Probes key (m.Compares key) none r asked := by
      refine .step rfl ((Notes.andThen (mapRemove_notes hm key w (.map m))
        fun a v t => ⟨.map a.2, rfl⟩).mono ?_)
      rintro _ asked _ ⟨r, rfl, h⟩
      exact h.map fun _ _ _ h => h
    refine .step rfl ((Notes.andThen hremove fun a v t => ⟨t, rfl⟩).mono ?_)
    rintro _ asked _ ⟨r, rfl, h⟩
    exact h.map fun _ _ _ h => h.map (Option.map (·.value))
      fun a => Option.map_eq_none_iff.mp

end Host

-- ---------------------------------------------------------------------------
-- Views
-- ---------------------------------------------------------------------------

/-- The visible names of a hash, in the order of their slots. -/
def FrameLayout.namesOf (layout : FrameLayout) (hash : UInt64) : List Value :=
  (layout.visibleSlots.filter fun slot => Hash.ofText slot.2.text == hash).map (.text ·.2)

/-- The key is compared with some names in turn, and is not found if it is different from all. -/
def ComparesNames (key : Value) (names : List Value) (r : Except Failure (Option Value))
    (asked : List Asked) : Prop :=
  ∃ answer, Scan key names answer asked ∧ (∀ f, answer = .error f → r = .error f) ∧
    (answer = .ok false → r = .ok none)

namespace ComparesNames

variable {key name : Value} {names : List Value} {r : Except Failure (Option Value)}
  {asked : List Asked}

theorem nothing : ComparesNames key [] (.ok none) [] :=
  ⟨.ok false, .missed, by rintro _ ⟨⟩, fun _ => rfl⟩

theorem equal (hooks : List HookRun) (found : Option Value) :
    ComparesNames key (name :: names) (.ok found) [.equals key name hooks (.ok true)] :=
  ⟨.ok true, .equal, by rintro _ ⟨⟩, by rintro ⟨⟩⟩

theorem failed (hooks : List HookRun) (f : Failure) :
    ComparesNames key (name :: names) (.error f) [.equals key name hooks (.error f)] :=
  ⟨.error f, .failed, by rintro _ ⟨⟩; rfl, by rintro ⟨⟩⟩

theorem differs (hooks : List HookRun) (h : ComparesNames key names r asked) :
    ComparesNames key (name :: names) r (.equals key name hooks (.ok false) :: asked) :=
  let ⟨answer, hscan, hrest⟩ := h
  ⟨answer, .differs hscan, hrest⟩

end ComparesNames

namespace Host

variable {host : Host σ} {n : Nat} {c : Ref .context}

theorem searchNames_notes (host : Host σ) (n : Nat) (c : Ref .context) (f : Ref .frame)
    (key : Value) (hash : UInt64) (slots : List (Nat × TextRef)) (w : World σ) (s : Storage) :
    host.Notes n c (Storage.searchNames hosted.toSurroundings f key hash slots) w s
      fun r asked _ => ComparesNames key
        ((slots.filter fun slot => Hash.ofText slot.2.text == hash).map (.text ·.2)) r asked := by
  induction slots generalizing w s with
  | nil => exact .pure .nothing
  | cons slot slots ih =>
    rw [Storage.searchNames, List.filter_cons]
    by_cases hh : Hash.ofText slot.2.text = hash
    · rw [if_neg (by simp [hh]), if_pos (by simp [hh]), List.map_cons]
      refine .bind (.equals host n c w s key (.text slot.2)) ?_ ?_
      · rintro same _ v t ⟨hooks, rfl⟩
        cases same with
        | true => exact .step (t := t) (v := v) rfl (.pure (.equal hooks _))
        | false => exact (ih v t).mono fun _ _ _ h => h.differs hooks
      · rintro f _ v ⟨hooks, rfl⟩
        exact .failed hooks f
    · rw [if_pos (by simpa using hh), if_neg (by simpa using hh)]
      exact ih w s

theorem getItem_notes {w : World σ} {l : Locals} (hf : w.memory.frames.Valid l.frame) {key : Value}
    (hk : ∀ t, key ≠ .text t) (hash? : Option UInt64) :
    host.Notes n c (Storage.getItem hosted.toSurroundings key hash?) w (.locals l) fun r asked _ =>
      Probes key (fun hash => ComparesNames key ((w.memory.layout l.frame).namesOf hash)) hash? r
        asked := by
  have hsearch : ∀ hash v t, v.memory.layout l.frame = w.memory.layout l.frame →
      host.Notes n c (ExceptT.lift (hosted (σ := σ)).memory >>= fun mem =>
        Storage.searchNames hosted.toSurroundings l.frame key hash
          (mem.layout l.frame).visibleSlots) v t
        fun r asked _ => ComparesNames key ((w.memory.layout l.frame).namesOf hash) r asked :=
    fun hash v t hv => by
      refine .step (a := v.memory) (v := v) (t := t) rfl ?_
      rw [hv]
      exact searchNames_notes host n c l.frame key hash _ v t
  refine .step (a := .locals l) (v := w) (t := .locals l) rfl ?_
  dsimp only
  rw [Storage.lookupKey_of_not_text _ _ _ hk]
  cases hash? with
  | some hash =>
    refine .step (a := hash) (v := w) (t := .locals l) rfl ((hsearch hash w _ rfl).mono ?_)
    exact fun _ _ _ h => .given h
  | none =>
    refine .bind ((Notes.hash host n c w _ key).and (.layout_eq host n c _ _ hf)) ?_ ?_
    · rintro hash _ v t ⟨⟨hooks, rfl⟩, hv⟩
      exact (hsearch hash v t hv).mono fun _ _ _ h => .hashed h
    · rintro e _ v ⟨⟨hooks, rfl⟩, -⟩
      exact .failed

end Host

-- ---------------------------------------------------------------------------
-- All hooks
-- ---------------------------------------------------------------------------

/-- In each run of the operation, the hooks that are run can be noted. They are those of what is
asked of keys, which is as `Q` says; each answer has hooks of its own kind, and none is run after
one that fails, whose failure is the result. -/
def Host.Spares (host : Host σ) (n : Nat) (c : Ref .context) (x : OnStorage σ α) (w : World σ)
    (s : Storage) (Q : Except Failure α → List Asked → Prop) : Prop :=
  ∀ r s' w', (host.run (n + 1) c (x.run.run s)).run w = some ((r, s'), w') → ∃ asked,
    (host.runNoting n c (x.run.run s)).run w = some (((r, s'), asked), w') ∧
    (∀ a ∈ asked, a.Sound) ∧ Heeded r (asked.flatMap Asked.hooks) ∧ Q r asked

theorem Host.Notes.spares {host : Host σ} {n : Nat} {c : Ref .context} {x : OnStorage σ α}
    {w : World σ} {s : Storage} {Q : Except Failure α → List Asked → Prop}
    (h : host.Notes n c x w s fun r asked _ => Q r asked)
    (hq : ∀ r asked, Q r asked → (∀ a ∈ asked, a.Sound) → Heeded r (asked.flatMap Asked.hooks)) :
    host.Spares n c x w s Q := by
  intro r s' w' hr
  rw [← host.fst_runNoting, StateT.run_map] at hr
  obtain ⟨⟨⟨_, asked⟩, _⟩, hnoted, hfst⟩ := Option.map_eq_some_iff.mp hr
  cases hfst
  have hsound := Prog.runNoting_sound _ hnoted
  have hasked := h _ _ _ _ hnoted
  exact ⟨asked, hnoted, hsound, hq _ _ hasked hsound, hasked⟩

theorem ComparesNames.heeded {key : Value} {names : List Value} {r : Except Failure (Option Value)}
    {asked : List Asked} (h : ComparesNames key names r asked) (hsound : ∀ a ∈ asked, a.Sound) :
    Heeded r (asked.flatMap Asked.hooks) := by
  obtain ⟨answer, hscan, herror, -⟩ := h
  exact hscan.heeded_of hsound herror

/-- Setting, getting or removing a key in a map hashes it once, if its hash is not given, and
compares it with stored keys of its hash that are not the key itself: with none more than once, and
with each of them if nothing is found. No hook is run after one that fails, whose failure is the
result. So it is whatever places a search is shown, in whatever order, if those of the hash are
among them once. In a view a key that is no text is compared with the visible names of its hash in
the order of their slots, up to the first that is equal or cannot be compared. -/
theorem hooks_run_only_when_needed (host : Host σ) (n : Nat) (c : Ref .context) (w : World σ) :
    (∀ (m : Map) (op : Map.Op) (key : Value) (hash? : Option UInt64),
      m.FiledOnce → op.Seeks key hash? →
      host.Spares n c op.perform w (.map m) (Probes key (m.Compares key) hash?)) ∧
    (∀ (m : Map) (key : Value) (hash : UInt64) (places : List Nat) (s : Storage),
      m.Shows hash places →
      host.Spares n c (m.search hosted.keys key hash places) w s (m.Compares key hash)) ∧
    ∀ (l : Locals) (key : Value) (hash? : Option UInt64),
      w.memory.frames.Valid l.frame → (∀ t, key ≠ .text t) →
      host.Spares n c (Storage.getItem hosted.toSurroundings key hash?) w (.locals l)
        (Probes key
          (fun hash => ComparesNames key ((w.memory.layout l.frame).namesOf hash)) hash?) := by
  refine ⟨fun m op key hash? hm hop => ?_, fun m key hash places s hm => ?_,
    fun l key hash? hf hk => ?_⟩
  · exact (Host.perform_notes hm w hop).spares fun r asked h hsound =>
      h.heeded hsound fun _ _ _ h => h.heeded
  · exact (Host.search_notes hm key w s).spares fun r asked h hsound => h.heeded hsound
  · exact (Host.getItem_notes hf hk hash?).spares fun r asked h hsound =>
      h.heeded hsound fun _ _ _ h => h.heeded

def mapOfXY : Map := .ofDistinctTexts [(⟨0, "x"⟩, .int 1), (⟨1, "y"⟩, .int 2)]

theorem entries_mapOfXY : mapOfXY.entries =
    #[⟨.text ⟨0, "x"⟩, .int 1, Hash.ofText "x"⟩, ⟨.text ⟨1, "y"⟩, .int 2, Hash.ofText "y"⟩] := rfl

theorem holder_mapOfXY : mapOfXY.holder? (Hash.ofText "x") 1 = none := by
  have hne : Hash.ofText "y" ≠ Hash.ofText "x" := by decide +kernel
  simp [Map.holder?, entries_mapOfXY, hne]

theorem shows_mapOfXY : mapOfXY.Shows (Hash.ofText "x") [1, 0, 1] := by
  refine ⟨by simp [Map.size, entries_mapOfXY], fun place e he hh => ?_⟩
  obtain _ | _ | place := place
  · rfl
  · have hnone := holder_mapOfXY
    simp [Map.holder?, he, hh] at hnone
  · simp [entries_mapOfXY] at he

theorem colliding_hooks_run : mapOfX.FiledOnce ∧
    (Map.Op.set collidingKey (.int 2)).Seeks collidingKey none ∧
    (∃ asked, (colliding.runNoting 0 ⟨0⟩
        ((Map.Op.set collidingKey (.int 2)).perform.run.run (.map mapOfX))).run (.initial ()) =
      some (((.error (.internal "no answer"), .map mapOfX), asked), .initial ()) ∧
    Probes collidingKey (mapOfX.Compares collidingKey) none
      (.error (.internal "no answer") : Except Failure (Option Value)) asked) ∧
    mapOfXY.Shows (Hash.ofText "x") [1, 0, 1] ∧
    ∃ asked, (colliding.runNoting 0 ⟨0⟩ ((mapOfXY.search hosted.keys collidingKey
        (Hash.ofText "x") [1, 0, 1]).run.run .empty)).run (.initial ()) =
      some (((.error (.internal "no answer"), .empty), asked), .initial ()) ∧
    mapOfXY.Compares collidingKey (Hash.ofText "x")
      (.error (.internal "no answer") : Except Failure (Option Nat)) asked := by
  have honce : mapOfX.FiledOnce := (Map.indexed_ofDistinctTexts _).filedOnce
  have hseeks : (Map.Op.set collidingKey (.int 2)).Seeks collidingKey none := .set
  have hholder : mapOfXY.holder? (Hash.ofText "x") 0 =
      some ⟨.text ⟨0, "x"⟩, .int 1, Hash.ofText "x"⟩ := by
    simp [Map.holder?, entries_mapOfXY]
  have hsearch : (colliding.run 1 ⟨0⟩ ((mapOfXY.search hosted.keys collidingKey
      (Hash.ofText "x") [1, 0, 1]).run.run .empty)).run (.initial ()) =
        some ((.error (.internal "no answer"), .empty), .initial ()) := by
    rw [Map.search_none holder_mapOfXY]
    exact Host.search_fails hholder rfl (colliding_equals _ _) [1]
  obtain ⟨hmap, hshown, -⟩ := hooks_run_only_when_needed colliding 0 ⟨0⟩ (.initial ())
  obtain ⟨asked, hnoted, -, -, hprobes⟩ :=
    hmap _ _ _ _ honce hseeks _ _ _ (colliding_set (.initial ()))
  obtain ⟨asked', hnoted', -, -, hcompares⟩ :=
    hshown _ _ _ _ _ shows_mapOfXY _ _ _ hsearch
  exact ⟨honce, hseeks, ⟨asked, hnoted, hprobes⟩, shows_mapOfXY, asked', hnoted', hcompares⟩

end Resumable
