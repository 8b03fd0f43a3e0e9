import Resumable.Storage.Basic
import Resumable.Value.Equality
import Resumable.Value.Hash

/-!
# Operations on a storage in place

A `Setting` is a storage together with the memory that views read, and the reports on look-ups in
views. `Gives` says that an operation has a result and leaves a storage, changes no memory, and has
no other effect, in whatever monad; its rules follow the monad.
-/

namespace Resumable

namespace Storage

structure Setting where
  memory : Memory
  storage : Storage
  /-- Whether each name that was looked up in a view was cached, the latest first. -/
  lookups : List Bool

section

variable {m : Type → Type} [Monad m]

instance : MonadStateOf Storage (StateT Setting m) where
  get := StateT.modifyGet fun t => (t.storage, t)
  set storage := StateT.modifyGet fun t => (⟨⟩, { t with storage })
  modifyGet f := StateT.modifyGet fun t => ((f t.storage).1, { t with storage := (f t.storage).2 })

def surroundings (h : Hooks (StateT Setting m)) : Surroundings (StateT Setting m) where
  keys := ⟨Value.hash h, Value.equals h⟩
  memory := StateT.modifyGet fun t => (t.memory, t)
  noteLookup hit := StateT.modifyGet fun t => (⟨⟩, { t with lookups := hit :: t.lookups })

-- ---------------------------------------------------------------------------
-- Runs
-- ---------------------------------------------------------------------------

inductive Op (α : Type) where
  | set (key v : Value)
  | get (key : Value) (hash? : Option UInt64)
  | getText (key : TextRef)
  | pop (key : Value)
  | clear
  /-- Takes keys from the ends listed, the front if `true`. -/
  | keys (ends : List Bool)
  | forEach (f : α → Value → Value → Except Failure α) (start : α)
  | len
  | copy
  | markRunsCode

inductive Answer (α : Type) where
  | value (result : Except Failure (Option Value))
  | done
  | keys (taken : List (Option Value))
  | folded (result : Except Failure α)
  | number (n : Nat)

def Cursor.take (mem : Memory) : List Bool → Cursor → List (Option Value)
  | [], _ => []
  | true :: ends, c => (c.next mem).1 :: Cursor.take mem ends (c.next mem).2
  | false :: ends, c => (c.nextBack mem).1 :: Cursor.take mem ends (c.nextBack mem).2

variable {α : Type}

def foldStep (f : α → Value → Value → Except Failure α) (a : α) (key v : Value) :
    ExceptT Failure (StateT Setting m) α :=
  ExceptT.mk (pure (f a key v))

def perform (h : Hooks (StateT Setting m)) : Op α → StateT Setting m (Answer α)
  | .set key v => do return .value (← (setItem (surroundings h) key v).run)
  | .get key hash? => do return .value (← (getItem (surroundings h) key hash?).run)
  | .getText key => do return .value (← (Storage.getText (surroundings h) key).run)
  | .pop key => do return .value (← (Storage.pop (surroundings h) key).run)
  | .clear => do
    modifyThe Storage Storage.clear
    return .done
  | .keys ends => do
    let t ← getThe Setting
    return .keys (Cursor.take t.memory ends (.ofStorage t.memory t.storage))
  | .forEach f start => do
    let storage ← getThe Storage
    return .folded (← (Storage.forEach (surroundings h) storage (foldStep f) start).run)
  | .len => do
    let t ← getThe Setting
    MonadStateOf.set { t with storage := (t.storage.size t.memory).2 }
    return .number (t.storage.size t.memory).1
  | .copy => do
    modifyThe Storage Storage.copy
    return .done
  | .markRunsCode => do
    let _ ← (Storage.markRunsCode (surroundings h)).run
    return .done

def performAll (h : Hooks (StateT Setting m)) : List (Op α) → StateT Setting m (List (Answer α))
  | [] => return []
  | op :: ops => do
    let answer ← perform h op
    let answers ← performAll h ops
    return answer :: answers

@[simp] theorem run_modifyGet {β : Type} (f : Setting → β × Setting) (t : Setting) :
    (StateT.modifyGet f : StateT Setting m β).run t = pure (f t) := rfl

@[simp] theorem run_get (t : Setting) :
    (StateT.get : StateT Setting m Setting).run t = pure (t, t) := rfl

@[simp] theorem run_set (t t' : Setting) :
    (StateT.set t' : StateT Setting m PUnit).run t = pure (⟨⟩, t') := rfl

-- ---------------------------------------------------------------------------
-- Results
-- ---------------------------------------------------------------------------

/-- The operation has the result and leaves the storage, and changes no memory. -/
def Gives {β : Type} (x : ExceptT Failure (StateT Setting m) β) (mem : Memory) (before : Storage)
    (result : Except Failure β) (after : Storage) : Prop :=
  ∀ lookups, ∃ later, x.run.run ⟨mem, before, lookups⟩ = pure (result, ⟨mem, after, later⟩)

/-- The operation fails and leaves the storage, and changes no memory; the failure may be a new one
each time. -/
def Refuses {β : Type} (x : ExceptT Failure (StateT Setting m) β) (mem : Memory)
    (before : Storage) (e : m Failure) (after : Storage) : Prop :=
  ∀ lookups, ∃ later, x.run.run ⟨mem, before, lookups⟩ =
    (fun e => (.error e, ⟨mem, after, later⟩)) <$> e

section

variable [LawfulMonad m] (h : Hooks (StateT Setting m)) (t : Setting)

theorem run_clear : (perform h (.clear : Op α)).run t =
    pure (.done, { t with storage := t.storage.clear }) := by
  simp [perform, modifyThe, MonadStateOf.modifyGet]

theorem run_copy : (perform h (.copy : Op α)).run t =
    pure (.done, { t with storage := t.storage.copy }) := by
  simp [perform, modifyThe, MonadStateOf.modifyGet]

theorem run_markRunsCode {mem : Memory} {s s' : Storage}
    (hx : Gives (Storage.markRunsCode (surroundings h)) mem s (.ok ()) s') (lookups : List Bool) :
    ∃ later, (perform h (.markRunsCode : Op α)).run ⟨mem, s, lookups⟩ =
      pure (.done, ⟨mem, s', later⟩) := by
  obtain ⟨later, hx⟩ := hx lookups
  exact ⟨later, by simp [perform, hx]⟩

theorem run_keys (ends : List Bool) : (perform h (.keys ends : Op α)).run t =
    pure (.keys (Cursor.take t.memory ends (.ofStorage t.memory t.storage)), t) := by
  simp [perform, getThe, MonadStateOf.get]

theorem run_len : (perform h (.len : Op α)).run t =
    pure (.number (t.storage.size t.memory).1,
      { t with storage := (t.storage.size t.memory).2 }) := by
  simp [perform, getThe, MonadStateOf.get, MonadStateOf.set]

theorem run_forEach (f : α → Value → Value → Except Failure α) (start : α) :
    (perform h (.forEach f start)).run t = (do
      let (result, t) ←
        (Storage.forEach (surroundings h) t.storage (foldStep f) start).run.run t
      return (.folded result, t)) := by
  simp [perform, getThe, MonadStateOf.get]

end

end

namespace Gives

variable {m : Type → Type} [Monad m] {β γ : Type} {mem : Memory} {s s' s'' : Storage}

theorem pure (b : β) : Gives (Pure.pure b : ExceptT Failure (StateT Setting m) β) mem s (.ok b) s :=
  fun lookups => ⟨lookups, rfl⟩

theorem throw (e : Failure) :
    Gives (MonadExcept.throw e : ExceptT Failure (StateT Setting m) β) mem s (.error e) s :=
  fun lookups => ⟨lookups, rfl⟩

variable [LawfulMonad m]

theorem bind {x : ExceptT Failure (StateT Setting m) β}
    {f : β → ExceptT Failure (StateT Setting m) γ} {b : β} {result : Except Failure γ}
    (hx : Gives x mem s (.ok b) s') (hf : Gives (f b) mem s' result s'') :
    Gives (x >>= f) mem s result s'' := by
  intro lookups
  obtain ⟨later, hx⟩ := hx lookups
  obtain ⟨last, hf⟩ := hf later
  refine ⟨last, ?_⟩
  simp only [ExceptT.run_bind, StateT.run_bind, hx, pure_bind]
  exact hf

theorem fail {x : ExceptT Failure (StateT Setting m) β}
    {f : β → ExceptT Failure (StateT Setting m) γ} {e : Failure}
    (hx : Gives x mem s (.error e) s') : Gives (x >>= f) mem s (.error e) s' := by
  intro lookups
  obtain ⟨later, hx⟩ := hx lookups
  refine ⟨later, ?_⟩
  simp only [ExceptT.run_bind, StateT.run_bind, hx, pure_bind]
  rfl

theorem value {α : Type} {x : ExceptT Failure (StateT Setting m) (Option Value)}
    {result : Except Failure (Option Value)} (hx : Gives x mem s result s')
    (lookups : List Bool) :
    ∃ later, (do return Answer.value (← x.run) : StateT Setting m (Answer α)).run
      ⟨mem, s, lookups⟩ = Pure.pure (.value result, ⟨mem, s', later⟩) := by
  obtain ⟨later, hx⟩ := hx lookups
  refine ⟨later, ?_⟩
  simp [hx]

theorem of_modifyGet {f : Setting → β × Setting} {b : β}
    (hf : ∀ lookups, ∃ later, f ⟨mem, s, lookups⟩ = (b, ⟨mem, s', later⟩)) :
    Gives (ExceptT.lift (StateT.modifyGet f : StateT Setting m β)) mem s (.ok b) s' := by
  intro lookups
  obtain ⟨later, hf⟩ := hf lookups
  refine ⟨later, ?_⟩
  simp [hf]

theorem get : Gives (getThe Storage : ExceptT Failure (StateT Setting m) Storage) mem s (.ok s) s :=
  of_modifyGet fun lookups => ⟨lookups, rfl⟩

theorem set (s' : Storage) :
    Gives (MonadStateOf.set s' : ExceptT Failure (StateT Setting m) PUnit) mem s (.ok ⟨⟩) s' :=
  of_modifyGet fun lookups => ⟨lookups, rfl⟩

theorem memory (h : Hooks (StateT Setting m)) :
    Gives (ExceptT.lift (surroundings h).memory) mem s (.ok mem) s :=
  of_modifyGet fun lookups => ⟨lookups, rfl⟩

theorem noteLookup (h : Hooks (StateT Setting m)) (hit : Bool) :
    Gives (ExceptT.lift ((surroundings h).noteLookup hit)) mem s (.ok ⟨⟩) s :=
  of_modifyGet fun lookups => ⟨hit :: lookups, rfl⟩

end Gives

namespace Refuses

variable {m : Type → Type} [Monad m] [LawfulMonad m] {β γ : Type} {mem : Memory}
  {s s' s'' : Storage} {x : ExceptT Failure (StateT Setting m) β}
  {f : β → ExceptT Failure (StateT Setting m) γ} {e : m Failure}

theorem bind {b : β} (hx : Gives x mem s (.ok b) s') (hf : Refuses (f b) mem s' e s'') :
    Refuses (x >>= f) mem s e s'' := by
  intro lookups
  obtain ⟨later, hx⟩ := hx lookups
  obtain ⟨last, hf⟩ := hf later
  refine ⟨last, ?_⟩
  simp only [ExceptT.run_bind, StateT.run_bind, hx, pure_bind]
  exact hf

theorem fail (hx : Refuses x mem s e s') : Refuses (x >>= f) mem s e s' := by
  intro lookups
  obtain ⟨later, hx⟩ := hx lookups
  refine ⟨later, ?_⟩
  simp only [ExceptT.run_bind, StateT.run_bind, hx, map_eq_pure_bind, bind_assoc, pure_bind]
  rfl

end Refuses

end Storage

end Resumable
