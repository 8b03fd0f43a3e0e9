import Resumable.Proofs.Hash.Reserved

/-!
# Hash hooks paired with equality hooks

Equal keys have to have equal hashes, so the two hooks of a class belong together: the nearest layer
that declares either of them should decide how instances are hashed, and one that declares equality
alone should leave them without a hash. Hashing looks for the two hooks separately instead, and
refuses only where no layer has a hash hook. The two rules differ for exactly those classes whose
nearest hooks compare without hashing while some layer above hashes: their instances are hashed by
the hook that was declared for another equality.
-/

namespace Resumable

inductive Hashing where
  | byHook (layer : Layer)
  | refused
  | byIdentity
  deriving DecidableEq

namespace Class

/-- A hash hook is used wherever it is declared, an equality hook without one refuses. -/
def hashing (c : Class) : Hashing :=
  match c.hashLayer?, c.equalityLayer? with
  | some layer, _ => .byHook layer
  | none, some _ => .refused
  | none, none => .byIdentity

/-- The nearest layer that declares one of the two hooks decides. -/
def pairedHashing (c : Class) : Hashing :=
  match c.layers.find? fun layer => layer.hashes || layer.compares with
  | some layer => if layer.hashes then .byHook layer else .refused
  | none => .byIdentity

/-- The nearest layer that declares one of the two hooks declares equality alone, and some layer
above it hashes. -/
def Mispaired (c : Class) : Prop :=
  ∃ below layer above, c.layers = below ++ layer :: above ∧
    (∀ l ∈ below, l.hashes = false ∧ l.compares = false) ∧
    layer.hashes = false ∧ layer.compares = true ∧ ∃ l ∈ above, l.hashes = true

-- ---------------------------------------------------------------------------
-- One layer more
-- ---------------------------------------------------------------------------

variable (layer : Layer) (parent : Class) (base? : Option ExcType)

theorem chain {motive : Class → Prop} (alone : ∀ layer base?, motive ⟨layer, [], base?⟩)
    (extend : ∀ layer parent, motive parent → motive (extend layer parent)) (c : Class) :
    motive c := by
  obtain ⟨layer, parents, base?⟩ := c
  induction parents generalizing layer with
  | nil => exact alone layer base?
  | cons next above ih => exact extend layer ⟨next, above, base?⟩ (ih next)

@[simp] theorem hashLayer?_alone :
    (⟨layer, [], base?⟩ : Class).hashLayer? = if layer.hashes then some layer else none := by
  simp [hashLayer?, layers, List.find?_singleton]

@[simp] theorem hashLayer?_extend :
    (extend layer parent).hashLayer? = if layer.hashes then some layer else parent.hashLayer? := by
  cases h : layer.hashes <;> simp [hashLayer?, h]

@[simp] theorem equalityLayer?_extend :
    (extend layer parent).equalityLayer? =
      if layer.compares then some layer else parent.equalityLayer? := by
  cases h : layer.compares <;> simp [equalityLayer?, h]

@[simp] theorem hashing_alone :
    (⟨layer, [], base?⟩ : Class).hashing =
      if layer.hashes then .byHook layer
      else if layer.compares then .refused
      else .byIdentity := by
  cases hh : layer.hashes <;> cases hc : layer.compares <;>
    simp [hashing, hashLayer?, equalityLayer?, layers, hh, hc]

@[simp] theorem hashing_extend :
    (extend layer parent).hashing =
      if layer.hashes then .byHook layer
      else if layer.compares ∧ parent.hashLayer? = none then .refused
      else parent.hashing := by
  cases hh : layer.hashes <;> cases hc : layer.compares <;> cases hp : parent.hashLayer? <;>
    simp [hashing, hh, hc, hp]

@[simp] theorem pairedHashing_alone :
    (⟨layer, [], base?⟩ : Class).pairedHashing =
      if layer.hashes then .byHook layer
      else if layer.compares then .refused
      else .byIdentity := by
  cases hh : layer.hashes <;> cases hc : layer.compares <;>
    simp [pairedHashing, layers, hh, hc]

@[simp] theorem pairedHashing_extend :
    (extend layer parent).pairedHashing =
      if layer.hashes then .byHook layer
      else if layer.compares then .refused
      else parent.pairedHashing := by
  cases hh : layer.hashes <;> cases hc : layer.compares <;>
    simp [pairedHashing, hh, hc]

theorem hashLayer?_isSome {c : Class} :
    c.hashLayer?.isSome ↔ ∃ l ∈ c.layers, l.hashes = true := by
  simp [hashLayer?]

@[simp] theorem not_mispaired_alone : ¬ (⟨layer, [], base?⟩ : Class).Mispaired := by
  rintro ⟨below, l, above, hl, -, -, -, top, htop, -⟩
  cases below with
  | nil => simp_all [layers]
  | cons => simp [layers] at hl

@[simp] theorem mispaired_extend :
    (extend layer parent).Mispaired ↔
      layer.hashes = false ∧
        (layer.compares = true ∧ parent.hashLayer?.isSome ∨
          layer.compares = false ∧ parent.Mispaired) := by
  constructor
  · rintro ⟨below, l, above, hl, hbelow, hh, hc, htop⟩
    cases below with
    | nil =>
      obtain ⟨rfl, rfl⟩ : layer = l ∧ parent.layers = above := by simpa using hl
      exact ⟨hh, .inl ⟨hc, hashLayer?_isSome.mpr htop⟩⟩
    | cons first below =>
      obtain ⟨rfl, hparent⟩ : layer = first ∧ parent.layers = below ++ l :: above := by
        simpa using hl
      obtain ⟨hfirst, hbelow⟩ := List.forall_mem_cons.mp hbelow
      exact ⟨hfirst.1, .inr ⟨hfirst.2, below, l, above, hparent, hbelow, hh, hc, htop⟩⟩
  · rintro ⟨hh, ⟨hc, htop⟩ | ⟨hc, below, l, above, hparent, hbelow, hrest⟩⟩
    · exact ⟨[], layer, parent.layers, rfl, by simp, hh, hc, hashLayer?_isSome.mp htop⟩
    · refine ⟨layer :: below, l, above, by simp [hparent], ?_, hrest⟩
      exact List.forall_mem_cons.mpr ⟨⟨hh, hc⟩, hbelow⟩

-- ---------------------------------------------------------------------------
-- Whole chains
-- ---------------------------------------------------------------------------

theorem hashing_of_hashLayer? {c : Class} {layer : Layer} (h : c.hashLayer? = some layer) :
    c.hashing = .byHook layer := by
  simp [hashing, h]

theorem hashing_eq_refused_iff (c : Class) :
    c.hashing = .refused ↔
      (∃ l ∈ c.layers, l.compares = true) ∧ ∀ l ∈ c.layers, l.hashes = false := by
  have hh : c.hashLayer? = none ↔ ∀ l ∈ c.layers, l.hashes = false := by simp [hashLayer?]
  have he : c.equalityLayer?.isSome ↔ ∃ l ∈ c.layers, l.compares = true := by
    simp [equalityLayer?]
  rw [← hh, ← he]
  cases hl : c.hashLayer? <;> cases hq : c.equalityLayer? <;> simp [hashing, hl, hq]

theorem mispaired_iff (c : Class) :
    c.Mispaired ↔ c.pairedHashing = .refused ∧ c.hashLayer?.isSome := by
  induction c using chain with
  | alone layer base? =>
    cases hh : layer.hashes <;> simp [hh]
  | extend layer parent ih =>
    cases hh : layer.hashes <;> cases hc : layer.compares <;> simp [hh, hc, ih]

theorem hashing_eq_pairedHashing_iff (c : Class) :
    c.hashing = c.pairedHashing ↔ ¬ c.Mispaired := by
  induction c using chain with
  | alone layer base? => simp
  | extend layer parent ih =>
    cases hh : layer.hashes with
    | true => simp [hh]
    | false =>
      cases hc : layer.compares with
      | false => simp [hh, hc, ih]
      | true =>
        cases hp : parent.hashLayer? with
        | none => simp [hh, hc, hp]
        | some l => simp [hh, hc, hp, hashing_of_hashLayer? hp]

theorem hashing_eq_byHook_iff {c : Class} {layer : Layer} :
    c.hashing = .byHook layer ↔ c.hashLayer? = some layer := by
  cases hl : c.hashLayer? <;> cases hq : c.equalityLayer? <;> simp [hashing, hl, hq]

end Class

-- ---------------------------------------------------------------------------
-- Hashing instances
-- ---------------------------------------------------------------------------

variable {σ : Type}

def Hashing.answer (e : Engine σ) (c : Ref .context) (i : Instance) :
    Hashing → Exec σ (Except Failure UInt64)
  | byHook layer => e.performHook c (e.host.hash layer i)
  | refused => return .error (← Exec.fault (.unhashable i.cls.name))
  | byIdentity => return .ok (Address.hash (Address.ofIdentity i.id))

theorem Engine.hash_eq_answer (e : Engine σ) (c : Ref .context) (i : Instance) :
    e.hash c i.value = i.cls.hashing.answer e c i := by
  cases hl : i.cls.hashLayer? with
  | some layer => rw [hash_instance hl, Class.hashing_of_hashLayer? hl, Hashing.answer]
  | none =>
    cases hq : i.cls.equalityLayer? with
    | some layer =>
      simp only [hash, Instance.value, Value.hash, Value.hashInstance, Class.hashing, hl, hq]
      rfl
    | none =>
      simp only [hash, Instance.value, Value.hash, Value.hashInstance, Class.hashing, hl, hq]
      rfl

/-- Whatever the hooks do, an instance is hashed by the nearest hash hook, by identity where there
is no hook at all, and is refused a hash where some layer compares and none hashes. That is how the
nearest layer with a hook would have it, except where that layer compares without hashing and an
inherited hook hashes nevertheless. -/
theorem instances_hashed_unless_mispaired (cls : Class) :
    (∀ (σ : Type) (host : Host σ) (n : Nat) (c : Ref .context) (i : Instance), i.cls = cls →
      host.answer (n + 1) c (.hash i.value) =
        cls.hashing.answer ⟨host, host.answer n⟩ c i) ∧
    (cls.hashing = .refused ↔
      (∃ l ∈ cls.layers, l.compares = true) ∧ ∀ l ∈ cls.layers, l.hashes = false) ∧
    (∀ layer, cls.hashing = .byHook layer ↔ cls.hashLayer? = some layer) ∧
    ((∀ (σ : Type) (host : Host σ) (n : Nat) (c : Ref .context) (i : Instance), i.cls = cls →
      host.answer (n + 1) c (.hash i.value) =
        cls.pairedHashing.answer ⟨host, host.answer n⟩ c i) ↔ ¬ cls.Mispaired) ∧
    (cls.Mispaired → cls.pairedHashing = .refused ∧ ∃ layer, cls.hashing = .byHook layer) := by
  have hanswer : ∀ (σ : Type) (host : Host σ) (n : Nat) (c : Ref .context) (i : Instance),
      i.cls = cls → host.answer (n + 1) c (.hash i.value) =
        cls.hashing.answer ⟨host, host.answer n⟩ c i := by
    rintro σ host n c i rfl
    exact Engine.hash_eq_answer ⟨host, host.answer n⟩ c i
  have hmispaired : cls.Mispaired →
      cls.pairedHashing = .refused ∧ ∃ layer, cls.hashing = .byHook layer := by
    intro h
    obtain ⟨hrefused, hsome⟩ := cls.mispaired_iff.mp h
    obtain ⟨layer, hl⟩ := Option.isSome_iff_exists.mp hsome
    exact ⟨hrefused, layer, Class.hashing_of_hashLayer? hl⟩
  refine ⟨hanswer, cls.hashing_eq_refused_iff, fun _ => Class.hashing_eq_byHook_iff, ⟨?_, ?_⟩,
    hmispaired⟩
  · -- a hook that answers tells the inherited hash from a refusal
    intro hpaired h
    obtain ⟨hrefused, layer, hhook⟩ := hmispaired h
    have hboth := (hanswer Unit .hashingToReserved 0 ⟨0⟩ ⟨1, cls, .none⟩ rfl).symm.trans
      (hpaired Unit .hashingToReserved 0 ⟨0⟩ ⟨1, cls, .none⟩ rfl)
    rw [hhook, hrefused] at hboth
    have hrun := congrArg (·.run (.initial ())) hboth
    cases hrun
  · intro h σ host n c i hi
    rw [hanswer σ host n c i hi, cls.hashing_eq_pairedHashing_iff.mpr h]

def comparingSubclass : Class :=
  .extend ⟨2, "Comparing", false, true, false⟩ (.root ⟨1, "Hashed", true, true, false⟩)

theorem comparing_subclass_hashed :
    comparingSubclass.Mispaired ∧ comparingSubclass.pairedHashing = .refused ∧
      ∀ (σ : Type) (host : Host σ) (n : Nat) (c : Ref .context) (i : Instance),
        i.cls = comparingSubclass →
        host.answer (n + 1) c (.hash i.value) =
          Engine.performHook ⟨host, host.answer n⟩ c
            (host.hash ⟨1, "Hashed", true, true, false⟩ i) := by
  have hmispaired : comparingSubclass.Mispaired := by simp [comparingSubclass, Class.root]
  obtain ⟨hanswer, -, -, -, hrule⟩ := instances_hashed_unless_mispaired comparingSubclass
  exact ⟨hmispaired, (hrule hmispaired).1, hanswer⟩

end Resumable
