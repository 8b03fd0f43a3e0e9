import Resumable.Run.Answer
import Resumable.Run.Operations

/-!
# Storages and the hooks of a host

An operation has its storage to itself, but the hooks of keys are programs of the host: they may do
anything else to the world, fail, and answer differently each time. `Comes` says what an operation
can come to, from a world and a storage. Its rules follow the monad.
-/

namespace Resumable

variable {σ α β : Type}

/-- Operations of programs that have a storage to themselves. -/
abbrev OnStorage (σ α : Type) : Type 1 := ExceptT Failure (StateT Storage (Prog σ)) α

/-- Keys are hashed and compared by the host, and look-ups are reported to the tracer. -/
def hosted : DictSurroundings (StateT Storage (Prog σ)) := Action.surroundings (σ := σ)

def idleHost : Host Unit where
  body _ := .done (.ok (.returns .none))
  hash _ _ := .done (.ok 0)
  compare _ _ _ := .done (.ok false)
  construct _ _ _ := .done (.ok .none)

theorem OnStorage.run_bind (x : OnStorage σ α) (f : α → OnStorage σ β) (s : Storage) :
    (x >>= f).run.run s = (x.run.run s).bind fun y => match y.1 with
      | .ok a => (f a).run.run y.2
      | .error e => .done (.error e, y.2) := by
  refine congrArg (Prog.bind _) (funext fun y => ?_)
  rcases y with ⟨_ | _, _⟩ <;> rfl

namespace Host

-- ---------------------------------------------------------------------------
-- Runs
-- ---------------------------------------------------------------------------

section

variable {host : Host σ} {n : Nat} {c : Ref .context} {w v : World σ} {s t : Storage}
  {x : OnStorage σ α} {f : α → OnStorage σ β}

theorem run_bind (x : OnStorage σ α) (f : α → OnStorage σ β) :
    (host.run n c ((x >>= f).run.run s)).run w =
      ((host.run n c (x.run.run s)).run w).bind fun r => match r.1.1 with
        | .ok a => (host.run n c ((f a).run.run r.1.2)).run r.2
        | .error e => some ((.error e, r.1.2), r.2) := by
  rw [OnStorage.run_bind, Host.run, Prog.run_bind, StateT.run_bind]
  refine congrArg (Option.bind _) (funext fun y => ?_)
  rcases y with ⟨⟨_ | _, _⟩, _⟩ <;> rfl

theorem run_bind_ok (hx : (host.run n c (x.run.run s)).run w = some ((.ok a, t), v)) :
    (host.run n c ((x >>= f).run.run s)).run w = (host.run n c ((f a).run.run t)).run v := by
  rw [run_bind, hx]
  rfl

theorem run_bind_error (hx : (host.run n c (x.run.run s)).run w = some ((.error e, t), v)) :
    (host.run n c ((x >>= f).run.run s)).run w = some ((.error e, t), v) := by
  rw [run_bind, hx]
  rfl

theorem run_hash (h : (host.answer n c (.hash key)).run w = some (r, v)) :
    (host.run n c (((hosted (σ := σ)).keys.hash key).run.run s)).run w = some ((r, s), v) := by
  change Option.bind ((host.answer n c (.hash key)).run w) _ = _
  rw [h]
  rfl

theorem run_equals (h : (host.answer n c (.equals a b)).run w = some (r, v)) :
    (host.run n c (((hosted (σ := σ)).keys.equals a b).run.run s)).run w = some ((r, s), v) := by
  change Option.bind ((host.answer n c (.equals a b)).run w) _ = _
  rw [h]
  rfl

theorem run_promote (host : Host σ) (n : Nat) (c : Ref .context) (w : World σ) (s : Storage) :
    (host.run (n + 1) c ((Storage.promote (hosted (σ := σ)).toSurroundings).run.run s)).run w =
      some ((.ok (s.toMap w.memory), .map (s.toMap w.memory)), w) := rfl

end

-- ---------------------------------------------------------------------------
-- What operations come to
-- ---------------------------------------------------------------------------

/-- Whatever an operation comes to is as `Q` says: the result, the world and the storage. -/
def Comes (host : Host σ) (n : Nat) (c : Ref .context) (x : OnStorage σ α) (w : World σ)
    (s : Storage) (Q : Except Failure α → World σ → Storage → Prop) : Prop :=
  ∀ r w' s', (host.run n c (x.run.run s)).run w = some ((r, s'), w') → Q r w' s'

namespace Comes

variable {host : Host σ} {n : Nat} {c : Ref .context} {x : OnStorage σ α} {w : World σ}
  {s : Storage} {P Q : Except Failure α → World σ → Storage → Prop}

theorem mono (h : host.Comes n c x w s P) (hq : ∀ r w' s', P r w' s' → Q r w' s') :
    host.Comes n c x w s Q := fun r w' s' hr => hq r w' s' (h r w' s' hr)

theorem pure {a : α} (hq : Q (.ok a) w s) :
    host.Comes n c (Pure.pure a : OnStorage σ α) w s Q := by
  rintro _ _ _ ⟨⟩
  exact hq

theorem throw {e : Failure} (hq : Q (.error e) w s) :
    host.Comes n c (MonadExcept.throw e : OnStorage σ α) w s Q := by
  rintro _ _ _ ⟨⟩
  exact hq

theorem bind {f : α → OnStorage σ β} {Q : Except Failure β → World σ → Storage → Prop}
    (hx : host.Comes n c x w s P)
    (hf : ∀ a v t, P (.ok a) v t → host.Comes n c (f a) v t Q)
    (he : ∀ e v t, P (.error e) v t → Q (.error e) v t) : host.Comes n c (x >>= f) w s Q := by
  intro r w' s' hr
  rw [run_bind] at hr
  obtain ⟨⟨⟨a, t⟩, v⟩, hv, hr⟩ := Option.bind_eq_some_iff.mp hr
  cases a with
  | ok a => exact hf a v t (hx _ _ _ hv) r w' s' hr
  | error e =>
    cases hr
    exact he e v t (hx _ _ _ hv)

theorem lift {p : Prog σ α}
    (hq : ∀ a w', (host.run n c p).run w = some (a, w') → Q (.ok a) w' s) :
    host.Comes n c (ExceptT.lift (liftM p)) w s Q := by
  intro r w' s' hr
  have hlift : (ExceptT.lift (liftM p : StateT Storage (Prog σ) α)).run.run s =
      p.bind fun a => .done (.ok a, s) :=
    Prog.bind_assoc p (fun a => .done (a, s)) fun y => .done ((.ok y.1 : Except Failure α), y.2)
  rw [hlift, Host.run, Prog.run_bind, StateT.run_bind] at hr
  obtain ⟨⟨a, v⟩, hv, hr⟩ := Option.bind_eq_some_iff.mp hr
  cases hr
  exact hq a v hv

theorem action {a : Action σ α}
    (hq : ∀ r w', (host.run n c a.run).run w = some (r, w') → Q r w' s) :
    host.Comes n c (ExceptT.mk (liftM a.run)) w s Q := by
  intro r w' s' hr
  have hlift : (liftM a.run : StateT Storage (Prog σ) _).run s = a.run.bind fun r => .done (r, s) :=
    rfl
  rw [ExceptT.run_mk, hlift, Host.run, Prog.run_bind, StateT.run_bind] at hr
  obtain ⟨⟨r, v⟩, hv, hr⟩ := Option.bind_eq_some_iff.mp hr
  cases hr
  exact hq r v hv

theorem step {f : α → OnStorage σ β} {Q : Except Failure β → World σ → Storage → Prop} {a : α}
    {v : World σ} {t : Storage}
    (hx : host.Comes n c x w s fun r w' s' => r = .ok a ∧ w' = v ∧ s' = t)
    (hf : host.Comes n c (f a) v t Q) : host.Comes n c (x >>= f) w s Q := by
  refine bind hx ?_ ?_
  · rintro _ _ _ ⟨⟨⟩, rfl, rfl⟩
    exact hf
  · rintro _ _ _ ⟨⟨⟩, -⟩

section

variable {Q : Except Failure β → World σ → Storage → Prop}

theorem getStorage {f : Storage → OnStorage σ β} (hf : host.Comes n c (f s) w s Q) :
    host.Comes n c (getThe Storage >>= f) w s Q := by
  refine step (a := s) ?_ hf
  rintro _ _ _ ⟨⟩
  exact ⟨rfl, rfl, rfl⟩

theorem setStorage {f : PUnit → OnStorage σ β} (hf : host.Comes n c (f ⟨⟩) w t Q) :
    host.Comes n c (MonadStateOf.set t >>= f) w s Q := by
  refine step (a := ⟨⟩) ?_ hf
  rintro _ _ _ ⟨⟩
  exact ⟨rfl, rfl, rfl⟩

theorem memory {f : Memory → OnStorage σ β} (hf : host.Comes n c (f w.memory) w s Q) :
    host.Comes n c (ExceptT.lift (hosted (σ := σ)).memory >>= f) w s Q := by
  refine step (lift fun mem w' hr => ?_) hf
  cases n with
  | zero => cases hr
  | succ n =>
    cases hr
    exact ⟨rfl, rfl, rfl⟩

end

theorem hash {Q : Except Failure UInt64 → World σ → Storage → Prop} {key : Value}
    (hq : ∀ r w', Q r w' s) :
    host.Comes n c ((hosted (σ := σ)).keys.hash key) w s Q := action fun r w' _ => hq r w'

theorem equals {Q : Except Failure Bool → World σ → Storage → Prop} {a b : Value}
    (hq : ∀ r w', Q r w' s) :
    host.Comes n c ((hosted (σ := σ)).keys.equals a b) w s Q := action fun r w' _ => hq r w'

theorem hashOf {Q : Except Failure UInt64 → World σ → Storage → Prop} {key : Value}
    {hash? : Option UInt64} (hq : ∀ r w', Q r w' s) :
    host.Comes n c (Map.hashOf (hosted (σ := σ)).keys key hash?) w s Q := by
  cases hash? with
  | none => exact hash hq
  | some hash => exact pure (hq _ _)

end Comes

end Host

end Resumable
