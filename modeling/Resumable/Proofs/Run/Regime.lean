import Resumable.Proofs.Run.Alike
import Resumable.Proofs.Run.Coherence
import Resumable.Proofs.Value.Related
import Resumable.Run.Answer

/-!
# Regimes

A regime says which worlds a run may pass, and what a world may become while something runs in it.
Two computations follow it if they run alike from the worlds it admits and keep to it. What the
programs of two engines and the hooks of their values do follows from what the requests do, in any
regime.
-/

namespace Resumable

variable {σ : Type}

-- ---------------------------------------------------------------------------
-- Quiet computations
-- ---------------------------------------------------------------------------

/-- What resumptions and handlers change of a context. -/
structure Meter where
  tracker : Tracker
  handled : List Exc
  depth : Nat

def Context.meter (c : Context) : Meter := ⟨c.tracker, c.handled, c.depth⟩

/-- No context is another one but for its events. -/
structure World.Steady (w w' : World σ) : Prop where
  valid : ∀ c, w.contexts.Valid c → w'.contexts.Valid c
  meter : ∀ c, w.contexts.Valid c → (w'.context c).meter = (w.context c).meter

/-- A later world in which nothing befell any generator, nor any context but that its events may
have changed. -/
structure World.Calm (w w' : World σ) : Prop extends w.Idle w', w.Steady w'

namespace World

variable {w v w' : World σ}

namespace Steady

theorem of_contexts (hc : w'.contexts = w.contexts) : w.Steady w' where
  valid c := by simp [hc]
  meter c _ := by simp only [context, hc]

theorem trans (h : w.Steady v) (h' : v.Steady w') : w.Steady w' where
  valid c hc := h'.valid c (h.valid c hc)
  meter c hc := (h'.meter c (h.valid c hc)).trans (h.meter c hc)

theorem modifyContext {f : Context → Context} (c : Ref .context)
    (hf : ∀ x, (f x).meter = x.meter) : w.Steady (w.modifyContext c f) where
  valid c' hc := (Store.valid_modify ..).mpr hc
  meter c' hc := by
    by_cases h : c' = c
    · subst h
      exact (congrArg Context.meter (Store.get_modify_self _ f hc)).trans (hf _)
    · exact congrArg Context.meter (Store.get_modify_of_ne _ f h)

end Steady

namespace Calm

theorem of_contexts (h : w.Idle w') (hc : w'.contexts = w.contexts) : w.Calm w' :=
  ⟨h, .of_contexts hc⟩

theorem of_eq (hh : w'.history = w.history) (hg : w'.generators = w.generators)
    (hc : w'.calls = w.calls) (hx : w'.contexts = w.contexts) : w.Calm w' :=
  of_contexts (.of_eq hh hg hc) hx

theorem refl (w : World σ) : w.Calm w := of_eq rfl rfl rfl rfl

theorem trans (h : w.Calm v) (h' : v.Calm w') : w.Calm w' :=
  ⟨h.toIdle.trans h'.toIdle, h.toSteady.trans h'.toSteady⟩

theorem setActivation (h : w.calls = .level ⟨g, c, .running a⟩ :: rest) (b : Activation) :
    w.Calm (w.setActivity (.running b)) := by
  exact of_contexts (.setActivation h b) (contexts_setActivity _)

theorem modifyContext {f : Context → Context} (c : Ref .context)
    (hf : ∀ x, (f x).meter = x.meter) : w.Calm (w.modifyContext c f) :=
  ⟨.of_eq rfl rfl rfl, .modifyContext c hf⟩

theorem addContext (x : Context) : w.Calm { w with contexts := w.contexts.add x } where
  toIdle := .of_eq rfl rfl rfl
  valid _ hc := (Store.valid_add ..).mpr (.inl hc)
  meter _ hc := congrArg Context.meter (Store.get_add_of_valid _ x hc)

end Calm

end World

namespace Exec

def Quiet (x : Exec σ α) : Prop := ∀ w, Alike x x w fun _ w' => w.Calm w'

namespace Quiet

theorem pure (a : α) : Quiet (Pure.pure a : Exec σ α) := fun w => .pure (.refl w)

theorem of_get : Quiet (get : Exec σ (World σ)) := fun w => .of_run rfl (.refl w)

theorem of_modify {f : World σ → World σ} (hf : ∀ w : World σ, w.Calm (f w)) :
    Quiet (modify f : Exec σ Unit) := fun w => .of_run rfl (hf w)

theorem of_modifyGet {f : World σ → α × World σ} (hf : ∀ w : World σ, w.Calm (f w).2) :
    Quiet (modifyGet f : Exec σ α) := fun w => .of_run rfl (hf w)

theorem bind {x : Exec σ α} {f : α → Exec σ β} (hx : Quiet x) (hf : ∀ a, Quiet (f a)) :
    Quiet (x >>= f) := fun w =>
  .bind (hx w) fun a w' h => (hf a w').mono fun _ _ h' => h.trans h'

theorem ite {c : Prop} [Decidable c] {x y : Exec σ α} (hx : Quiet x) (hy : Quiet y) :
    Quiet (if c then x else y) := by
  split
  · exact hx
  · exact hy

theorem newIdentity : Quiet (newIdentity : Exec σ Identity) :=
  of_modifyGet fun _ => .of_eq rfl rfl rfl rfl

theorem newText (text : String) : Quiet (newText text : Exec σ TextRef) :=
  bind newIdentity fun _ => pure _

theorem newExc (type : ExcType) (class? : Option Class) (args : List Value) :
    Quiet (newExc type class? args : Exec σ Exc) := of_modifyGet fun _ => .of_eq rfl rfl rfl rfl

theorem fault (f : Fault) : Quiet (fault f : Exec σ Failure) :=
  bind (newText _) fun _ => bind (newExc _ _ _) fun _ => pure _

theorem stopIteration (v : Value) : Quiet (stopIteration v : Exec σ Exc) := newExc _ _ _

theorem modifyLinks (e : Exc) (f : World σ → Links → Links) :
    Quiet (modify fun w => w.modifyLinks e (f w) : Exec σ Unit) :=
  of_modify fun _ => .of_eq rfl rfl rfl rfl

theorem pushTraceback (e : Exc) (place : Snapshot) :
    Quiet (pushTraceback e place : Exec σ Unit) :=
  bind newIdentity fun _ => modifyLinks _ _

theorem takePayload : Quiet (takePayload : Exec σ (Except Failure Value)) := by
  intro w
  refine .step rfl ?_
  split
  · exact pure _ w
  · next a ha =>
    obtain ⟨g, c, rest, hc⟩ := World.calls_of_activation? ha
    refine .step rfl ?_
    split <;> exact .pure (.setActivation hc _)

theorem callerException (c : Ref .context) : Quiet (callerException c : Exec σ (Option Exc)) := by
  intro w
  refine .step rfl ?_
  split
  · exact pure _ w
  · next a ha =>
    split
    · exact pure _ w
    · obtain ⟨g, c', rest, hc⟩ := World.calls_of_activation? ha
      exact .step rfl (.step rfl (.pure (.setActivation hc _)))

theorem chainCaller (c : Ref .context) (e : Exc) : Quiet (chainCaller c e : Exec σ Unit) := by
  refine bind of_get fun w => ite (pure _) (bind (callerException c) fun found => ?_)
  cases found with
  | none => exact pure _
  | some handled => exact modifyLinks _ _

end Quiet

end Exec

-- ---------------------------------------------------------------------------
-- Regimes
-- ---------------------------------------------------------------------------

/-- Which worlds a run may pass, and what may become of one while something runs in it. -/
structure Regime (σ : Type) where
  Admits : World σ → Prop
  Leads : World σ → World σ → Prop
  admits : Leads w w' → Admits w'
  trans : Leads w v → Leads v w' → Leads w w'
  calm : Admits w → w.Calm w' → Leads w w'
  handling : Admits w → ∀ c e, Admits (w.modifyContext c (·.handling e))
  handled : Admits w → Leads (w.modifyContext c (·.handling e)) w' →
    Leads w (w'.modifyContext c (·.handledOne))
  hook : Admits w → Admits (w.push .hook)
  hooked : Admits w → Leads (w.push .hook) w' → Leads w w'.pop

namespace Exec

def Follows (r : Regime σ) {α : Type} (x y : Exec σ α) : Prop :=
  ∀ w, r.Admits w → Alike x y w fun _ w' => r.Leads w w'

namespace Follows

variable {r : Regime σ}

theorem of_quiet {x : Exec σ α} (h : Quiet x) : Follows r x x := fun w hw =>
  (h w).mono fun _ _ h => r.calm hw h

theorem pure (a : α) : Follows r (Pure.pure a) (Pure.pure a) := of_quiet (.pure a)

theorem bind {x y : Exec σ α} {f g : α → Exec σ β} (hx : Follows r x y)
    (hf : ∀ a, Follows r (f a) (g a)) : Follows r (x >>= f) (y >>= g) := fun w hw =>
  .bind (hx w hw) fun a w' h => (hf a w' (r.admits h)).mono fun _ _ h' => r.trans h h'

theorem ite {c : Prop} [Decidable c] {x y x' y' : Exec σ α} (h : Follows r x y)
    (h' : Follows r x' y') : Follows r (if c then x else x') (if c then y else y') :=
  fun w hw => .ite (h w hw) (h' w hw)

theorem congruence (r : Regime σ) : Congruence (Exec σ) (@Follows σ r) where
  pure := pure
  bind := bind

end Follows

end Exec

/-- The request is an operation on a generator, which takes place in the context it is made in. -/
def Request.Operates : {α : Type} → Request σ α → Prop
  | _, .resume .. | _, .throw .. | _, .close .. => True
  | _, _ => False

/-- Two engines of one host whose levels below follow a regime, alike. -/
structure Engine.Under (r : Regime σ) (e e' : Engine σ) : Prop where
  host : e.host = e'.host
  ask : ∀ {α : Type} (c : Ref .context) (q : Request σ α), Exec.Follows r (e.ask c q) (e'.ask c q)

namespace Engine

open Exec (Follows Quiet)

variable {r : Regime σ} {e e' : Engine σ}

theorem perform_follows (he : e.Under r e') (c : Ref .context) (p : Prog σ α) :
    Follows r (e.perform c p) (e'.perform c p) := by
  unfold perform
  induction p generalizing c with
  | done a => exact .pure a
  | ask q k ih => exact .bind (he.ask c q) fun b => ih b c
  | handling exc inner k ihi ihk =>
    intro w hw
    refine .step rfl (.bind (ihi c _ (r.handling hw c exc)) fun b v hv => .step rfl ?_)
    have hleads := r.handled hw hv
    exact (ihk b c _ (r.admits hleads)).mono fun _ _ h => r.trans hleads h
  | within c' inner k ihi ihk => exact .bind (ihi c') fun b => ihk b c

theorem performHook_follows (he : e.Under r e') (c : Ref .context) (p : Prog σ α) :
    Follows r (e.performHook c p) (e'.performHook c p) := fun _ hw =>
  .step rfl (.bind (perform_follows he c p _ (r.hook hw)) fun _ _ h =>
    .step rfl (.pure (r.hooked hw h)))

theorem hooks_related (he : e.Under r e') (c : Ref .context) :
    (e.hooks c).Related (@Follows σ r) (e'.hooks c) where
  hash layer i := by
    simp only [hooks, he.host]
    exact performHook_follows he c _
  compare layer i other := by
    simp only [hooks, he.host]
    exact performHook_follows he c _
  construct layer cls args := by
    simp only [hooks, he.host]
    exact performHook_follows he c _
  newExc _ _ _ := .of_quiet (.newExc _ _ _)
  newText _ := .of_quiet (.newText _)
  newIdentity := .of_quiet .newIdentity

theorem hash_follows (he : e.Under r e') (c : Ref .context) (v : Value) :
    Follows r (e.hash c v) (e'.hash c v) := (Follows.congruence r).hash (hooks_related he c) v

theorem equals_follows (he : e.Under r e') (c : Ref .context) (a b : Value) :
    Follows r (e.equals c a b) (e'.equals c a b) :=
  (Follows.congruence r).equals (hooks_related he c) a b

theorem call_follows (he : e.Under r e') (c : Ref .context) (f : Value) (args : List Value) :
    Follows r (e.call c f args) (e'.call c f args) :=
  (Follows.congruence r).call (hooks_related he c) f args

-- ---------------------------------------------------------------------------
-- Throwing by type
-- ---------------------------------------------------------------------------

theorem madeException_quiet (cls made : Value) : Quiet (madeException cls made : Exec σ Exc) := by
  unfold madeException
  split
  · exact .pure _
  · exact .bind .of_get fun _ => .bind (.newText _) fun _ => .newExc _ _ _

theorem prepareException_follows (he : e.Under r e') (c : Ref .context) (type : Value)
    (value : Option Value) :
    Follows r (e.prepareException c type value) (e'.prepareException c type value) := by
  unfold prepareException
  dsimp only
  split
  · split
    · exact .pure _
    · refine .bind (call_follows he c type _) fun r => ?_
      cases r with
      | ok made => exact .of_quiet (.bind (madeException_quiet type made) fun _ => .pure _)
      | error f => exact .pure _
  · split
    · exact .of_quiet (.bind (.fault _) fun _ => .pure _)
    · exact .pure _
    · exact .of_quiet (.bind (.fault _) fun _ => .pure _)

theorem givenTraceback_quiet (t : Option Value) :
    Quiet (givenTraceback t : Exec σ (Except Failure (Option Traceback))) := by
  unfold givenTraceback
  split
  · exact .pure _
  · exact .pure _
  · exact .pure _
  · exact .bind (.fault _) fun _ => .pure _

theorem thrown_follows (he : e.Under r e') (c : Ref .context) (g : Ref .generator) (type : Value)
    (value traceback : Option Value) :
    Follows r (e.thrown c g type value traceback) (e'.thrown c g type value traceback) := by
  unfold thrown
  refine .bind (.of_quiet .of_get) fun _ => .ite ?_ ?_
  · exact .of_quiet (.bind (.fault _) fun _ => .pure _)
  · refine .bind (.of_quiet (givenTraceback_quiet traceback)) fun t => ?_
    cases t with
    | error f => exact .pure _
    | ok t =>
      refine .bind (prepareException_follows he c type value) fun r => ?_
      cases r with
      | error f => exact .pure _
      | ok exc =>
        have hend : ∀ t, Quiet (do
            modify fun w => w.modifyLinks exc t
            return Except.ok exc : Exec σ (Except Failure Exc)) := fun t =>
          .bind (.modifyLinks exc _) fun _ => .pure _
        refine .ite ?_ (.of_quiet (hend _))
        exact .of_quiet (.bind (.modifyLinks exc _) fun _ => hend _)

theorem result_quiet (o : Outcome) : Quiet (result o : Exec σ (Except Failure Value)) := by
  cases o with
  | returned v => exact .bind (.stopIteration v) fun _ => .pure _
  | _ => exact .pure _

theorem throw_follows (he : e.Under r e') (c : Ref .context) (g : Ref .generator) (type : Value)
    (value traceback : Option Value)
    (hinject : ∀ exc hostTrace,
      Follows r (e.inject c g exc hostTrace) (e'.inject c g exc hostTrace)) :
    Follows r (e.throw c g type value traceback) (e'.throw c g type value traceback) := by
  unfold throw
  refine .bind (thrown_follows he c g type value traceback) fun r => ?_
  cases r with
  | error f => exact .pure _
  | ok exc =>
    exact .bind (.of_quiet .of_get) fun _ =>
      .bind (hinject exc _) fun o => .of_quiet (result_quiet o)

-- ---------------------------------------------------------------------------
-- Requests
-- ---------------------------------------------------------------------------

theorem edit_quiet (c : Ref .context) (x : Edit) :
    Quiet (modify (x.apply c) : Exec σ Unit) := by
  refine .of_modify fun w => ?_
  cases x with
  | name | qualifiedName => exact .of_contexts (.modifyGenerator fun _ => rfl) rfl
  | emit | clearEvents => exact .modifyContext c fun _ => rfl
  | _ => exact .of_eq rfl rfl rfl rfl

theorem make_quiet (x : Creation α) : Quiet (x.make : Exec σ α) := by
  cases x with
  | identity => exact .newIdentity
  | text s => exact .newText s
  | cell v => exact .of_modifyGet fun _ => .of_eq rfl rfl rfl rfl
  | frame layout => exact .of_modifyGet fun _ => .of_eq rfl rfl rfl rfl
  | exc type class? args => exact .newExc type class? args
  | context c => exact .of_modifyGet fun _ => .addContext c

theorem answer_follows (he : e.Under r e') (c : Ref .context) (q : Request σ α)
    (hmake : ∀ (t : Target) (frame : Ref .frame) (args : List Value),
      Follows r (Exec.newGenerator (σ := σ) (.create t frame args))
        (Exec.newGenerator (.create t frame args)))
    (hresume : q.Operates → ∀ g p, Follows r (e.resume c g p) (e'.resume c g p))
    (hclose : q.Operates → ∀ g, Follows r (e.close c g) (e'.close c g)) :
    Follows r (e.answer c q) (e'.answer c q) := by
  cases q with
  | look f => exact .of_quiet (.bind .of_get fun _ => .pure _)
  | here => exact .pure c
  | modifyHost f => exact .of_quiet (.of_modify fun _ => .of_eq rfl rfl rfl rfl)
  | edit x => exact .of_quiet (edit_quiet c x)
  | create x => exact .of_quiet (make_quiet x)
  | hash v => exact hash_follows he c v
  | equals a b => exact equals_follows he c a b
  | call f args => exact call_follows he c f args
  | newGenerator t args =>
    refine .ite ?_ (.of_quiet (.bind (.fault _) fun _ => .pure _))
    refine .bind (.of_quiet (.of_modifyGet fun _ => .of_eq rfl rfl rfl rfl)) fun frame => ?_
    refine .bind (.of_quiet (.of_modify fun _ => .of_eq rfl rfl rfl rfl)) fun _ => ?_
    exact .bind (hmake t frame args) fun _ => .pure _
  | resume g p => exact hresume trivial g p
  | throw g type value traceback =>
    exact throw_follows he c g type value traceback fun exc hostTrace =>
      hresume trivial g (some (.throw exc hostTrace))
  | close g => exact hclose trivial g
  | take => exact .of_quiet .takePayload
  | caller => exact .of_quiet (.callerException c)
  | chain exc => exact .of_quiet (.chainCaller c exc)

end Engine

end Resumable
