import Resumable.Proofs.Run.Requests

/-!
# Families of runs

What is true of the answers that a family of engines gives to requests is true of all they do, as
long as it is carried through binds: an engine makes of a request what its host and the answers of
the level below make of it, and nothing else.
-/

namespace Resumable

variable {σ ι : Type}

/-- A property of families of computations that is closed under what computations are made of. -/
structure Closed (L : {α : Type} → (ι → Exec σ α) → Prop) : Prop where
  const : ∀ {α : Type} (x : Exec σ α), L fun _ => x
  bind : ∀ {α β : Type} {x : ι → Exec σ α} {f : α → ι → Exec σ β}, L x → (∀ a, L (f a)) →
    L fun i => x i >>= fun a => f a i

/-- What the levels below and the programs of the hosts come to has the property. -/
structure Engine.Among (L : {α : Type} → (ι → Exec σ α) → Prop) (e : ι → Engine σ) : Prop where
  ask : ∀ {α : Type} (c : Ref .context) (q : Request σ α), L fun i => (e i).ask c q
  body : ∀ c t, L fun i => (e i).perform c ((e i).host.body t)
  hash : ∀ c layer inst, L fun i => (e i).perform c ((e i).host.hash layer inst)
  compare : ∀ c layer inst other,
    L fun i => (e i).perform c ((e i).host.compare layer inst other)
  construct : ∀ c layer cls args,
    L fun i => (e i).perform c ((e i).host.construct layer cls args)

namespace Closed

variable {L : {α : Type} → (ι → Exec σ α) → Prop}

theorem ite {c : Prop} [Decidable c] {x y : ι → Exec σ α} (hx : L x) (hy : L y) :
    L fun i => if c then x i else y i := by
  by_cases h : c
  · simpa only [if_pos h] using hx
  · simpa only [if_neg h] using hy

variable (hL : Closed @L)
include hL

theorem bind_const (x : Exec σ α) {f : α → ι → Exec σ β} (hf : ∀ a, L (f a)) :
    L fun i => x >>= fun a => f a i := hL.bind (hL.const x) hf

theorem const_bind {x : ι → Exec σ α} (hx : L x) (f : α → Exec σ β) : L fun i => x i >>= f :=
  hL.bind hx fun a => hL.const (f a)

/-- One program, whose requests are answered in different ways. -/
theorem perform {e : ι → Engine σ}
    (hask : ∀ {β : Type} (c : Ref .context) (q : Request σ β), L fun i => (e i).ask c q)
    (c : Ref .context) (p : Prog σ α) : L fun i => (e i).perform c p := by
  unfold Engine.perform
  induction p generalizing c with
  | done a => exact hL.const _
  | ask q k ih => exact hL.bind (hask c q) fun b => ih b c
  | handling exc inner k ihi ihk =>
    exact hL.bind_const _ fun _ => hL.bind (ihi c) fun b => hL.bind_const _ fun _ => ihk b c
  | within c' inner k ihi ihk => exact hL.bind (ihi c') fun b => ihk b c

theorem whileForwarding {x : ι → Exec σ α} (g sub : Ref .generator) (hx : L x) :
    L fun i => Engine.whileForwarding g sub (x i) :=
  hL.bind_const _ fun _ => hL.bind_const _ fun _ => hL.const_bind hx _

theorem inward {x : ι → Exec σ Outcome} (c : Ref .context) (g : Ref .generator) (hx : L x) :
    L fun i => Engine.inward c g (x i) := by
  refine hL.bind_const _ fun entered => ?_
  cases entered with
  | error f => exact hL.const _
  | ok _ => exact hL.const_bind hx _

-- ---------------------------------------------------------------------------
-- Values
-- ---------------------------------------------------------------------------

/-- In the monad of families a value is hashed by all hooks at once. -/
theorem congruence : Congruence (ReaderT ι (Exec σ)) fun x _ => L x where
  pure _ := hL.const _
  bind hx hf := hL.bind hx hf

omit hL in
theorem simulation (i : ι) : Simulation (ReaderT ι (Exec σ)) (Exec σ)
    fun x y => x.run.run i = y.run where
  pure _ := rfl
  throw _ := rfl
  bind {α β x y f g} hx hf := by
    simp only [ExceptT.run_bind, ReaderT.run_bind, hx]
    refine bind_congr fun r => ?_
    cases r with
    | ok a => exact hf a
    | error f => rfl

variable {e : ι → Engine σ}

theorem performHook {p : ι → Prog σ α} (c : Ref .context)
    (hp : L fun i => (e i).perform c (p i)) : L fun i => (e i).performHook c (p i) := by
  unfold Engine.performHook
  exact hL.bind_const _ fun _ => hL.const_bind hp _

omit hL in
/-- The hooks of all engines of a family. -/
def hooks (e : ι → Engine σ) (c : Ref .context) : Hooks (ReaderT ι (Exec σ)) where
  hash layer inst i := ((e i).hooks c).hash layer inst
  compare layer inst other i := ((e i).hooks c).compare layer inst other
  construct layer cls args i := ((e i).hooks c).construct layer cls args
  newExc type class? args _ := Exec.newExc type class? args
  newText text _ := Exec.newText text
  newIdentity _ := Exec.newIdentity

variable (he : Engine.Among @L e)
include he

theorem hooks_related (c : Ref .context) :
    (hooks e c).Related (fun x _ => L x) (hooks e c) where
  hash layer inst := hL.performHook c (he.hash c layer inst)
  compare layer inst other := hL.performHook c (he.compare c layer inst other)
  construct layer cls args := hL.performHook c (he.construct c layer cls args)
  newExc _ _ _ := hL.const _
  newText _ := hL.const _
  newIdentity := hL.const _

theorem hash (c : Ref .context) (v : Value) : L fun i => (e i).hash c v := by
  have h := hL.congruence.hash (hL.hooks_related he c) v
  have heq : ∀ i, (v.hash (hooks e c)).run.run i = (e i).hash c v := fun i =>
    (simulation i).hash (fun _ _ => rfl) (fun _ => rfl) v
  exact funext heq ▸ h

theorem equals (c : Ref .context) (a b : Value) : L fun i => (e i).equals c a b := by
  have h := hL.congruence.equals (hL.hooks_related he c) a b
  have heq : ∀ i, (a.equals (hooks e c) b).run.run i = (e i).equals c a b := fun i =>
    (simulation i).equals (fun _ _ _ => rfl) a b
  exact funext heq ▸ h

theorem call (c : Ref .context) (f : Value) (args : List Value) :
    L fun i => (e i).call c f args := by
  have h := hL.congruence.call (hL.hooks_related he c) f args
  have heq : ∀ i, (f.call (hooks e c) args).run.run i = (e i).call c f args := fun i => by
    cases f with
    | cls cls =>
      simp only [Engine.call, Value.call, Value.construct]
      split <;> rfl
    | _ => rfl
  exact funext heq ▸ h

-- ---------------------------------------------------------------------------
-- Resumptions
-- ---------------------------------------------------------------------------

theorem runBody (c : Ref .context) (g : Ref .generator) (p : Option Payload) (kind : ResumeKind) :
    L fun i => (e i).runBody c g p kind := by
  unfold Engine.runBody
  refine hL.bind_const _ fun w => hL.bind_const _ fun _ => hL.bind_const _ fun _ => ?_
  exact hL.bind_const _ fun _ => hL.bind_const _ fun _ => hL.const_bind (he.body c _) _

theorem settle (c : Ref .context) (g : Ref .generator) (answer : Except Failure Value) :
    L fun i => (e i).settle c g answer := by
  cases answer with
  | ok v => exact hL.const _
  | error f =>
    unfold Engine.settle
    refine hL.bind_const _ fun _ => ?_
    split
    · exact hL.runBody he c g _ _
    · exact hL.runBody he c g _ _
    · exact hL.const _

theorem resumeDelegate (c : Ref .context) (g sub : Ref .generator) (p : Payload) :
    L fun i => (e i).resumeDelegate c g sub p :=
  hL.const_bind (hL.whileForwarding g sub (hL.const_bind (he.ask c _) _)) _

theorem closeDelegate (c : Ref .context) (g sub : Ref .generator) (exit : Exc)
    (hostTrace : Bool) : L fun i => (e i).closeDelegate c g sub exit hostTrace :=
  hL.const_bind (hL.whileForwarding g sub (he.ask c _)) _

theorem forwardThrow (c : Ref .context) (g sub : Ref .generator) (exc : Exc) (hostTrace : Bool)
    (kind : ResumeKind) : L fun i => (e i).forwardThrow c g sub exc hostTrace kind := by
  refine ite (hL.bind (hL.closeDelegate he c g sub exc hostTrace) fun closed => ?_)
    (hL.bind (hL.resumeDelegate he c g sub _) fun answer => hL.settle he c g answer)
  refine hL.bind_const _ fun _ => ?_
  split
  · exact hL.runBody he c g _ kind
  · exact hL.runBody he c g _ kind
  · exact hL.const _

theorem advance (c : Ref .context) (g : Ref .generator) (sent : Option Value) :
    L fun i => (e i).advance c g sent := by
  refine hL.bind_const _ fun w => ?_
  dsimp only
  split
  · exact hL.const _
  · exact hL.const _
  · refine ite (hL.const _) ?_
    cases (w.generator g).delegate with
    | none => exact hL.inward c g (hL.runBody he c g _ _)
    | some sub =>
      exact hL.inward c g (hL.bind (hL.resumeDelegate he c g sub _) fun a => hL.settle he c g a)

theorem inject (c : Ref .context) (g : Ref .generator) (exc : Exc) (hostTrace : Bool) :
    L fun i => (e i).inject c g exc hostTrace := by
  refine hL.bind_const _ fun w => ?_
  dsimp only
  split
  · exact hL.const _
  · exact hL.const _
  · exact hL.const _
  · cases (w.generator g).delegate with
    | none => exact hL.inward c g (hL.runBody he c g _ _)
    | some sub => exact hL.inward c g (hL.forwardThrow he c g sub exc hostTrace _)

theorem close (c : Ref .context) (g : Ref .generator) : L fun i => (e i).close c g := by
  refine hL.bind_const _ fun w => ?_
  split
  · exact hL.const _
  · exact hL.const _
  · exact hL.const _
  · refine hL.bind_const _ fun entered => ?_
    cases entered with
    | error f => exact hL.const _
    | ok _ =>
      refine hL.const_bind ?_ _
      refine hL.bind_const _ fun u => hL.bind_const _ fun exit => ?_
      cases (u.generator g).delegate with
      | none => exact hL.runBody he c g _ _
      | some sub => exact hL.forwardThrow he c g sub exit false _

theorem prepareException (c : Ref .context) (type : Value) (value : Option Value) :
    L fun i => (e i).prepareException c type value := by
  unfold Engine.prepareException
  dsimp only
  split
  · split
    · exact hL.const _
    · exact hL.const_bind (hL.call he c type _) _
  · exact hL.const _

theorem throw (c : Ref .context) (g : Ref .generator) (type : Value)
    (value traceback : Option Value) : L fun i => (e i).throw c g type value traceback := by
  have hthrown : L fun i => (e i).thrown c g type value traceback := by
    refine hL.bind_const _ fun w => ite (hL.const _) (hL.bind_const _ fun t => ?_)
    cases t with
    | error f => exact hL.const _
    | ok t => exact hL.const_bind (hL.prepareException he c type value) _
  refine hL.bind hthrown fun r => ?_
  cases r with
  | error f => exact hL.const _
  | ok exc => exact hL.bind_const _ fun w => hL.const_bind (hL.inject he c g exc _) _

-- ---------------------------------------------------------------------------
-- Requests
-- ---------------------------------------------------------------------------

theorem answer (c : Ref .context) (q : Request σ α) : L fun i => (e i).answer c q := by
  cases q with
  | hash v => exact hL.hash he c v
  | equals a b => exact hL.equals he c a b
  | call f args => exact hL.call he c f args
  | resume g p =>
    rcases p with _ | v | ⟨exc, hostTrace⟩
    · exact hL.advance he c g none
    · exact hL.advance he c g (some v)
    · exact hL.inject he c g exc hostTrace
  | throw g type value traceback => exact hL.throw he c g type value traceback
  | close g => exact hL.close he c g
  | _ => exact hL.const _

end Closed

end Resumable
