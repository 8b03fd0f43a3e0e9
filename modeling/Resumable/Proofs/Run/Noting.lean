import Resumable.Proofs.Value.Related
import Resumable.Run.Answer

/-!
# The hooks that are run

A program asks for the hashes of values and whether values are equal, and hooks are run to answer
it. The hooks are noted here as they are run; to note them changes nothing. A hook that fails is the
last one that is run for an answer, and its failure is the answer.
-/

namespace Resumable

variable {σ α β : Type}

-- ---------------------------------------------------------------------------
-- Hooks
-- ---------------------------------------------------------------------------

inductive HookRun where
  | hash (layer : Layer) (i : Instance) (answer : Except Failure UInt64)
  | compare (layer : Layer) (i : Instance) (other : Value) (answer : Except Failure Bool)

namespace HookRun

def isHash : HookRun → Bool
  | hash .. => true
  | compare .. => false

def failure? : HookRun → Option Failure
  | hash _ _ (.error f) => some f
  | compare _ _ _ (.error f) => some f
  | _ => none

end HookRun

/-- Hooks that are noted as they are run. -/
def Hooks.noted {m : Type → Type} [Monad m] (h : Hooks m) : Hooks (StateT (List HookRun) m) where
  hash layer i := do
    let answer ← StateT.lift (h.hash layer i)
    modify (· ++ [.hash layer i answer])
    return answer
  compare layer i other := do
    let answer ← StateT.lift (h.compare layer i other)
    modify (· ++ [.compare layer i other answer])
    return answer
  construct layer cls args := StateT.lift (h.construct layer cls args)
  newExc type class? args := StateT.lift (h.newExc type class? args)
  newText text := StateT.lift (h.newText text)
  newIdentity := StateT.lift h.newIdentity

/-- Without the notes, `x` is `y`. -/
def Unnoted {m : Type → Type} [Monad m] (x : ExceptT Failure (StateT (List HookRun) m) α)
    (y : ExceptT Failure m α) : Prop := ∀ notes, Prod.fst <$> x.run.run notes = y.run

namespace Unnoted

variable {m : Type → Type} [Monad m] [LawfulMonad m]

theorem simulation : Simulation (StateT (List HookRun) m) m fun x y => Unnoted x y where
  pure _ _ := map_pure ..
  throw _ _ := map_pure ..
  bind {_ _ x y f g} hx hf notes := by
    rw [ExceptT.run_bind, ExceptT.run_bind, StateT.run_bind, map_bind, ← hx notes, bind_map_left]
    refine congrArg (_ >>= ·) (funext fun r => ?_)
    obtain ⟨a | f, notes⟩ := r
    · exact map_pure ..
    · exact hf f notes

variable (h : Hooks m)

theorem fail (f : Fault) : Unnoted (h.noted.fail f : ExceptT Failure _ α) (h.fail f) := by
  intro notes
  simp [Hooks.fail, Hooks.fault, Hooks.newMessage, Hooks.noted]

theorem hash (v : Value) : Unnoted (v.hash h.noted) (v.hash h) := by
  refine simulation.hash (fun layer i notes => ?_) (fail h) v
  simp [Hooks.noted]

theorem equals (a b : Value) : Unnoted (a.equals h.noted b) (a.equals h b) := by
  refine simulation.equals (fun layer i other notes => ?_) a b
  simp [Hooks.noted]

end Unnoted

-- ---------------------------------------------------------------------------
-- Failures of hooks
-- ---------------------------------------------------------------------------

/-- No hook that was run has failed, or only the last one, with the failure that is the result. -/
inductive Heeded : Except Failure α → List HookRun → Prop
  | answered : (∀ h ∈ hooks, h.failure? = none) → Heeded r hooks
  | failed : (∀ h ∈ hooks, h.failure? = none) → h.failure? = some f →
      Heeded (.error f) (hooks ++ [h])

namespace Heeded

variable {r : Except Failure α} {hooks later : List HookRun}

theorem nil : Heeded r [] := .answered (List.forall_mem_nil _)

theorem single {h : HookRun} (hf : ∀ f, h.failure? = some f → r = .error f) : Heeded r [h] := by
  cases hh : h.failure? with
  | none => exact .answered (List.forall_mem_singleton.mpr hh)
  | some f =>
    rw [hf f hh]
    exact .failed (List.forall_mem_nil _) hh

theorem ok {a : α} (h : Heeded (.ok a) hooks) : ∀ h ∈ hooks, h.failure? = none := by
  cases h with
  | answered hnone => exact hnone

theorem error {f : Failure} (h : Heeded (.error f : Except Failure α) hooks) :
    Heeded (.error f : Except Failure β) hooks := by
  cases h with
  | answered hnone => exact .answered hnone
  | failed hnone hf => exact .failed hnone hf

theorem after (hnone : ∀ h ∈ hooks, h.failure? = none) (h : Heeded r later) :
    Heeded r (hooks ++ later) := by
  cases h with
  | answered hl => exact .answered (List.forall_mem_append.mpr ⟨hnone, hl⟩)
  | failed hl hf =>
    rw [← List.append_assoc]
    exact .failed (List.forall_mem_append.mpr ⟨hnone, hl⟩) hf

end Heeded

/-- The hooks that are run are all hash hooks, or all equality hooks, and the last one is heeded. -/
def Heeds (hashes : Bool) (x : ExceptT Failure (StateT (List HookRun) (Exec σ)) α) : Prop :=
  ∀ notes w r notes' w', (x.run.run notes).run w = some ((r, notes'), w') →
    ∃ hooks, notes' = notes ++ hooks ∧ Heeded r hooks ∧ ∀ h ∈ hooks, h.isHash = hashes

namespace Heeds

variable {hashes : Bool}

theorem quiet {x : ExceptT Failure (StateT (List HookRun) (Exec σ)) α}
    (h : ∀ notes w r notes' w', (x.run.run notes).run w = some ((r, notes'), w') →
      notes' = notes) : Heeds hashes x := by
  intro notes w r notes' w' hr
  obtain rfl := h _ _ _ _ _ hr
  exact ⟨[], (List.append_nil _).symm, .nil, List.forall_mem_nil _⟩

theorem pure (a : α) :
    Heeds hashes (Pure.pure a : ExceptT Failure (StateT (List HookRun) (Exec σ)) α) :=
  .quiet <| by rintro _ _ _ _ _ ⟨⟩; rfl

theorem throw (f : Failure) : Heeds hashes
    (MonadExcept.throw f : ExceptT Failure (StateT (List HookRun) (Exec σ)) α) :=
  .quiet <| by rintro _ _ _ _ _ ⟨⟩; rfl

theorem bind {x : ExceptT Failure (StateT (List HookRun) (Exec σ)) α}
    {f : α → ExceptT Failure (StateT (List HookRun) (Exec σ)) β}
    (hx : Heeds hashes x) (hf : ∀ a, Heeds hashes (f a)) : Heeds hashes (x >>= f) := by
  intro notes w r notes' w' hr
  rw [ExceptT.run_bind, StateT.run_bind, StateT.run_bind] at hr
  obtain ⟨⟨⟨r₁, notes₁⟩, v⟩, hv, hr⟩ := Option.bind_eq_some_iff.mp hr
  obtain ⟨hooks, rfl, hheeded, hkind⟩ := hx _ _ _ _ _ hv
  cases r₁ with
  | error f =>
    cases hr
    exact ⟨hooks, rfl, hheeded.error, hkind⟩
  | ok a =>
    obtain ⟨later, rfl, hlater, hkind'⟩ := hf a _ _ _ _ _ hr
    exact ⟨hooks ++ later, List.append_assoc .., .after hheeded.ok hlater,
      List.forall_mem_append.mpr ⟨hkind, hkind'⟩⟩

theorem simulation (hashes : Bool) : Simulation (StateT (List HookRun) (Exec σ))
    (StateT (List HookRun) (Exec σ)) fun x y => x = y ∧ Heeds hashes x where
  pure a := ⟨rfl, pure a⟩
  throw f := ⟨rfl, throw f⟩
  bind := by
    rintro _ _ x _ f g ⟨rfl, hx⟩ hf
    obtain rfl : f = g := funext fun a => (hf a).1
    exact ⟨rfl, bind hx fun a => (hf a).2⟩

theorem hook {h : Except Failure α → HookRun} {x : Exec σ (Except Failure α)}
    (hkind : ∀ r, (h r).isHash = hashes)
    (hfailure : ∀ r f, (h r).failure? = some f → r = .error f) :
    Heeds hashes (ExceptT.mk do
      let answer ← StateT.lift x
      modify (· ++ [h answer])
      return answer) := by
  intro notes w r notes' w' hr
  obtain ⟨⟨⟨_, _⟩, v⟩, hv, hr⟩ := Option.bind_eq_some_iff.mp hr
  obtain ⟨⟨a, u⟩, -, ha⟩ := Option.bind_eq_some_iff.mp hv
  cases ha
  cases hr
  exact ⟨[h r], rfl, .single (hfailure r), List.forall_mem_singleton.mpr (hkind r)⟩

variable (h : Hooks (Exec σ))

theorem fail (f : Fault) : Heeds hashes (h.noted.fail f : ExceptT Failure _ α) := by
  refine .quiet fun notes w r notes' w' hr => ?_
  have hfail : (h.noted.fail f : ExceptT Failure _ α).run.run notes =
      (fun e => (Except.error e, notes)) <$> h.fault f := by
    simp [Hooks.fail, Hooks.fault, Hooks.newMessage, Hooks.noted]
  rw [hfail, StateT.run_map] at hr
  obtain ⟨⟨e, v⟩, -, he⟩ := Option.map_eq_some_iff.mp hr
  cases he
  rfl

theorem hash (v : Value) : Heeds true (v.hash h.noted) := by
  refine ((simulation true).hash (fun layer i => ⟨rfl, ?_⟩) (fun f => ⟨rfl, fail h f⟩) v).2
  exact hook (fun _ => rfl) fun r f hf => by cases r <;> cases hf; rfl

theorem equals (a b : Value) : Heeds false (a.equals h.noted b) := by
  refine ((simulation false).equals (fun layer i other => ⟨rfl, ?_⟩) a b).2
  exact hook (fun _ => rfl) fun r f hf => by cases r <;> cases hf; rfl

end Heeds

-- ---------------------------------------------------------------------------
-- Programs
-- ---------------------------------------------------------------------------

/-- A program asked for a hash, or whether a key is equal to another one, hooks were run, and it was
answered. -/
inductive Asked where
  | hash (key : Value) (hooks : List HookRun) (answer : Except Failure UInt64)
  | equals (key other : Value) (hooks : List HookRun) (answer : Except Failure Bool)

namespace Asked

def hooks : Asked → List HookRun
  | hash _ hooks _ => hooks
  | equals _ _ hooks _ => hooks

def Sound : Asked → Prop
  | hash _ hooks answer => Heeded answer hooks ∧ ∀ h ∈ hooks, h.isHash = true
  | equals _ _ hooks answer => Heeded answer hooks ∧ ∀ h ∈ hooks, h.isHash = false

end Asked

namespace Engine

variable (e : Engine σ) (c : Ref .context)

/-- Answers a request, and notes it if hooks are run for it. -/
def answerNoting : Request σ β → Exec σ (β × List Asked)
  | .hash v => do
    let (answer, hooks) ← (v.hash (e.hooks c).noted).run.run []
    return (answer, [.hash v hooks answer])
  | .equals a b => do
    let (answer, hooks) ← (a.equals (e.hooks c).noted b).run.run []
    return (answer, [.equals a b hooks answer])
  | q => do return (← e.answer c q, [])

theorem fst_answerNoting (q : Request σ β) : Prod.fst <$> e.answerNoting c q = e.answer c q := by
  cases q with
  | hash v =>
    simp only [answerNoting, answer, Engine.hash, ← Unnoted.hash (e.hooks c) v [], map_bind,
      map_pure]
    rfl
  | equals a b =>
    simp only [answerNoting, answer, Engine.equals, ← Unnoted.equals (e.hooks c) a b [], map_bind,
      map_pure]
    rfl
  | _ => simp only [answerNoting, map_bind, map_pure, bind_pure]

theorem answerNoting_sound {q : Request σ β} {w w' : World σ} {r : β} {asked : List Asked}
    (h : (e.answerNoting c q).run w = some ((r, asked), w')) : ∀ a ∈ asked, a.Sound := by
  cases q with
  | hash v =>
    obtain ⟨⟨⟨answer, hooks⟩, u⟩, hu, hr⟩ := Option.bind_eq_some_iff.mp h
    obtain ⟨_, rfl, hheeded, hkind⟩ := Heeds.hash (e.hooks c) v _ _ _ _ _ hu
    cases hr
    exact List.forall_mem_singleton.mpr ⟨hheeded, hkind⟩
  | equals a b =>
    obtain ⟨⟨⟨answer, hooks⟩, u⟩, hu, hr⟩ := Option.bind_eq_some_iff.mp h
    obtain ⟨_, rfl, hheeded, hkind⟩ := Heeds.equals (e.hooks c) a b _ _ _ _ _ hu
    cases hr
    exact List.forall_mem_singleton.mpr ⟨hheeded, hkind⟩
  | _ =>
    simp only [answerNoting, StateT.run_bind] at h
    obtain ⟨⟨answer, u⟩, -, hr⟩ := Option.bind_eq_some_iff.mp h
    cases hr
    exact List.forall_mem_nil _

end Engine

namespace Prog

variable (e : Engine σ)

def runNoting (c : Ref .context) {α : Type} : Prog σ α → Exec σ (α × List Asked)
  | done a => pure (a, [])
  | ask q k => do
    let (b, asked) ← e.answerNoting c q
    let (a, later) ← (k b).runNoting c
    return (a, asked ++ later)
  | handling exc inner k => do
    modify fun w => w.modifyContext c (·.handling exc)
    let (b, asked) ← inner.runNoting c
    modify fun w => w.modifyContext c (·.handledOne)
    let (a, later) ← (k b).runNoting c
    return (a, asked ++ later)
  | within c' inner k => do
    let (b, asked) ← inner.runNoting c'
    let (a, later) ← (k b).runNoting c
    return (a, asked ++ later)

/-- To note the hooks changes nothing. -/
theorem fst_runNoting (c : Ref .context) (p : Prog σ α) :
    Prod.fst <$> p.runNoting e c = p.run e.answer c := by
  induction p generalizing c with
  | done a => rfl
  | ask q k ih =>
    simp only [runNoting, run, ← ih _ c, ← e.fst_answerNoting c q, map_eq_pure_bind,
      LawfulMonad.bind_assoc, pure_bind]
  | handling exc inner k ihi ihk =>
    simp only [runNoting, run, ← ihi c, ← ihk _ c, map_eq_pure_bind, LawfulMonad.bind_assoc,
      pure_bind]
  | within c' inner k ihi ihk =>
    simp only [runNoting, run, ← ihi c', ← ihk _ c, map_eq_pure_bind, LawfulMonad.bind_assoc,
      pure_bind]

theorem runNoting_bind (c : Ref .context) (p : Prog σ α) (f : α → Prog σ β) :
    (p.bind f).runNoting e c = do
      let (a, asked) ← p.runNoting e c
      let (b, later) ← (f a).runNoting e c
      return (b, asked ++ later) := by
  induction p with
  | done a => simp [runNoting]
  | ask q k ih => simp [bind, runNoting, ih, List.append_assoc]
  | handling exc inner k _ ih => simp [bind, runNoting, ih, List.append_assoc]
  | within c' inner k _ ih => simp [bind, runNoting, ih, List.append_assoc]

theorem sound_append {x : Exec σ (β × List Asked)} {f : β → Exec σ (α × List Asked)}
    {w w' : World σ} {a : α} {asked : List Asked}
    (h : (do
      let (b, asked) ← x
      let (a, later) ← f b
      return (a, asked ++ later)).run w = some ((a, asked), w'))
    (hx : ∀ b first v, x.run w = some ((b, first), v) → ∀ y ∈ first, y.Sound)
    (hf : ∀ b v later, (f b).run v = some ((a, later), w') → ∀ y ∈ later, y.Sound) :
    ∀ y ∈ asked, y.Sound := by
  obtain ⟨⟨⟨b, first⟩, v⟩, hv, h⟩ := Option.bind_eq_some_iff.mp h
  obtain ⟨⟨⟨_, later⟩, _⟩, hlater, h⟩ := Option.bind_eq_some_iff.mp h
  cases h
  exact List.forall_mem_append.mpr ⟨hx b first v hv, hf b v later hlater⟩

theorem runNoting_sound {c : Ref .context} {p : Prog σ α} {w w' : World σ} {a : α}
    {asked : List Asked} (h : (p.runNoting e c).run w = some ((a, asked), w')) :
    ∀ x ∈ asked, x.Sound := by
  induction p generalizing c w w' asked with
  | done =>
    cases h
    exact List.forall_mem_nil _
  | ask q k ih =>
    exact sound_append h (fun _ _ _ => e.answerNoting_sound c) fun b _ _ => ih b
  | handling exc inner k ihi ihk =>
    -- what is handled is noted in the context before the inner program and after it
    exact sound_append (f := fun b => do
      modify fun w => w.modifyContext c (·.handledOne)
      (k b).runNoting e c) h (fun _ _ _ => ihi) fun b _ _ => ihk b
  | within c' inner k ihi ihk =>
    exact sound_append h (fun _ _ _ => ihi) fun b _ _ => ihk b

end Prog

def Host.runNoting (host : Host σ) (n : Nat) (c : Ref .context) (p : Prog σ α) :
    Exec σ (α × List Asked) := p.runNoting ⟨host, host.answer n⟩ c

theorem Host.fst_runNoting (host : Host σ) (n : Nat) (c : Ref .context) (p : Prog σ α) :
    Prod.fst <$> host.runNoting n c p = host.run (n + 1) c p :=
  Prog.fst_runNoting ⟨host, host.answer n⟩ c p

end Resumable
