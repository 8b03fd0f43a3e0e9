import Resumable.Proofs.Run.Metering
import Resumable.Proofs.Run.Trail
import Resumable.Proofs.Run.Watched

/-!
# Calls and handlers are put back

A request leaves every context handling what it handled before, and the calls in progress as they
were. Only a body changes its own call: it takes what was delivered to it, and looks up what its
resumer was handling. The call is gone when the body stops, and what it looked up never gets to the
generator, so another resumption does not find it.
-/

namespace Resumable

open Exec (Alike)

variable {σ : Type}

namespace World

variable {w v w' : World σ}

/-- No generator keeps what a resumption of it looked up. -/
def Clean (w : World σ) : Prop := ∀ g, (w.generator g).template.caller = none

/-- A later world in which the contexts handle what they did and the calls in progress are the
same. The call on top may be another if it belongs to who led there. -/
structure Restored (own : Bool) (w w' : World σ) : Prop where
  clean : w'.Clean
  valid : ∀ c, w.contexts.Valid c → w'.contexts.Valid c
  handled : ∀ c, w.contexts.Valid c → (w'.context c).handled = (w.context c).handled
  below : w'.calls.tail = w.calls.tail
  calls : own = false → w'.calls = w.calls

theorem Clean.initial (s : σ) : (World.initial s).Clean := fun _ => rfl

namespace Restored

variable {own : Bool}

theorem of_eq (hw : w.Clean) (hg : w'.generators = w.generators) (hx : w'.contexts = w.contexts)
    (hc : w'.calls = w.calls) : w.Restored own w' where
  clean g := by
    rw [generator, hg]
    exact hw g
  valid c := by simp [hx]
  handled c _ := by simp only [context, hx]
  below := by rw [hc]
  calls _ := hc

theorem refl (hw : w.Clean) : w.Restored own w := of_eq hw rfl rfl rfl

theorem trans (h : w.Restored own v) (h' : v.Restored own w') : w.Restored own w' where
  clean := h'.clean
  valid c hc := h'.valid c (h.valid c hc)
  handled c hc := (h'.handled c (h.valid c hc)).trans (h.handled c hc)
  below := h'.below.trans h.below
  calls ho := (h'.calls ho).trans (h.calls ho)

theorem owned (h : w.Restored own w') : w.Restored true w' := { h with calls := nofun }

theorem modifyGenerator {f : Generator → Generator} (hw : w.Clean) (g : Ref .generator)
    (hf : ∀ x, (f x).template = x.template) : w.Restored own (w.modifyGenerator g f) :=
  { refl hw with
    clean := fun g' => by
      rw [part_modifyGenerator hf]
      exact hw g' }

theorem modifyContext {f : Context → Context} (hw : w.Clean) (c : Ref .context)
    (hf : (f (w.context c)).handled = (w.context c).handled) :
    w.Restored own (w.modifyContext c f) :=
  { refl hw with
    valid := fun _ hc => valid_modifyContext.mpr hc
    handled := fun c' hc => by
      rw [context_modifyContext hc]
      split
      · next h =>
        subst h
        exact hf
      · rfl }

theorem addContext (hw : w.Clean) (k : Context) :
    w.Restored own { w with contexts := w.contexts.add k } :=
  { refl hw with
    valid := fun _ hc => (Store.valid_add ..).mpr (.inl hc)
    handled := fun _ hc => congrArg Context.handled (Store.get_add_of_valid _ k hc) }

theorem generating (hw : w.Clean) (t : Target) (args : List Value) :
    w.Restored own (w.generating t args) :=
  { refl hw with
    clean := fun g => by
      let made : Generator := .create t w.memory.frames.next args
      by_cases hg : g = w.generators.next
      · subst hg
        exact congrArg (·.template.caller) (Store.get_add_next w.generators made)
      · refine .trans ?_ (hw g)
        exact congrArg (·.template.caller) (Store.get_add_of_ne w.generators made hg) }

theorem setActivity (hw : w.Clean) (a : Activity) : w.Restored true (w.setActivity a) where
  clean g := by
    rw [generator, generators_setActivity]
    exact hw g
  valid c := by simp
  handled c _ := by simp only [context, contexts_setActivity]
  below := tail_setActivity a
  calls := nofun

/-- Whoever runs in a call of its own leaves the calls below as they were. -/
theorem within (x : Call) (h : (w.push x).Restored true v) : w.Restored false v.pop where
  clean := h.clean
  valid := h.valid
  handled := h.handled
  below := congrArg List.tail h.below
  calls _ := h.below

theorem handledOne {e : Exc} {c : Ref .context}
    (h : (w.modifyContext c (·.handling e)).Restored own w') :
    w.Restored own (w'.modifyContext c (·.handledOne)) :=
  { h with
    valid := fun c' hc => valid_modifyContext.mpr (h.valid c' (valid_modifyContext.mpr hc))
    handled := fun c' hc => by
      have hv : (w.modifyContext c (·.handling e)).contexts.Valid c' := valid_modifyContext.mpr hc
      have hhandled := h.handled c' hv
      rw [context_modifyContext hc] at hhandled
      rw [context_modifyContext (h.valid c' hv)]
      split at hhandled
      · next he =>
        rw [if_pos he]
        exact congrArg List.tail hhandled
      · next he =>
        rw [if_neg he]
        exact hhandled }

end Restored

end World

-- ---------------------------------------------------------------------------
-- Computations that put everything back
-- ---------------------------------------------------------------------------

namespace Exec

/-- Two computations that run alike where nothing is kept, and put everything back. -/
def Restores (own : Bool) {α : Type} (x y : Exec σ α) : Prop :=
  ∀ w, w.Clean → Alike x y w fun _ w' => w.Restored own w'

namespace Restores

variable {own : Bool} {x y : Exec σ α}

theorem owned (h : Restores own x y) : Restores true x y := fun w hw =>
  (h w hw).mono fun _ _ h => h.owned

theorem pure (a : α) : Restores own (Pure.pure a : Exec σ α) (Pure.pure a) := fun _ hw =>
  .pure (.refl hw)

theorem of_get : Restores own (get : Exec σ (World σ)) get := fun _ hw => .of_run rfl (.refl hw)

theorem of_modify {f : World σ → World σ} (hf : ∀ w : World σ, w.Clean → w.Restored own (f w)) :
    Restores own (modify f : Exec σ Unit) (modify f) := fun w hw => .of_run rfl (hf w hw)

theorem of_modifyGet {f : World σ → α × World σ}
    (hf : ∀ w : World σ, w.Clean → w.Restored own (f w).2) :
    Restores own (modifyGet f : Exec σ α) (modifyGet f) := fun w hw => .of_run rfl (hf w hw)

theorem bind {f g : α → Exec σ β} (hx : Restores own x y) (hf : ∀ a, Restores own (f a) (g a)) :
    Restores own (x >>= f) (y >>= g) := fun w hw =>
  .bind (hx w hw) fun a w' h => (hf a w' h.clean).mono fun _ _ h' => h.trans h'

theorem ite {p : Prop} [Decidable p] {x' y' : Exec σ α} (h : Restores own x y)
    (h' : Restores own x' y') : Restores own (if p then x else x') (if p then y else y') :=
  fun w hw => .ite (h w hw) (h' w hw)

theorem congruence : Congruence (Exec σ) (Restores false) where
  pure := pure
  bind := bind

-- What the world offers.

theorem newIdentity : Restores own (newIdentity : Exec σ Identity) newIdentity :=
  of_modifyGet fun _ hw => .of_eq hw rfl rfl rfl

theorem newText (text : String) : Restores own (newText text : Exec σ TextRef) (newText text) :=
  bind newIdentity fun _ => pure _

theorem newExc (type : ExcType) (class? : Option Class) (args : List Value) :
    Restores own (newExc type class? args : Exec σ Exc) (newExc type class? args) :=
  of_modifyGet fun _ hw => .of_eq hw rfl rfl rfl

theorem fault (f : Fault) : Restores own (fault f : Exec σ Failure) (fault f) :=
  bind (newText _) fun _ => bind (newExc _ _ _) fun _ => pure _

theorem stopIteration (v : Value) :
    Restores own (stopIteration v : Exec σ Exc) (stopIteration v) := newExc _ _ _

theorem modifyLinks (e : Exc) (f : World σ → Links → Links) :
    Restores own (modify fun w => w.modifyLinks e (f w) : Exec σ Unit)
      (modify fun w => w.modifyLinks e (f w)) := of_modify fun _ hw => .of_eq hw rfl rfl rfl

theorem modifyGenerator (g : Ref .generator) {f : Generator → Generator}
    (hf : ∀ x, (f x).template = x.template) :
    Restores own (modify fun w => w.modifyGenerator g f : Exec σ Unit)
      (modify fun w => w.modifyGenerator g f) := of_modify fun _ hw => .modifyGenerator hw g hf

theorem pushTraceback (e : Exc) (place : Snapshot) :
    Restores own (pushTraceback e place : Exec σ Unit) (pushTraceback e place) :=
  bind newIdentity fun _ => modifyLinks _ _

theorem record (h : Happening) : Restores own (record h : Exec σ Unit) (record h) :=
  of_modify fun _ hw => .of_eq hw rfl rfl rfl

theorem emit (c : Ref .context) (g : Ref .generator) (e : TraceEvent) :
    Restores own (emit c g e : Exec σ Unit) (emit c g e) := of_modify fun _ hw =>
  .trans (.modifyContext (f := (·.emit e)) hw c rfl) (.of_eq hw rfl rfl rfl)

theorem takePayload :
    Restores true (takePayload : Exec σ (Except Failure Value)) takePayload := by
  intro w hw
  refine .step rfl ?_
  split
  · exact pure _ w hw
  · refine .step rfl ?_
    split <;> exact .pure (.setActivity hw _)

theorem callerException (c : Ref .context) :
    Restores true (callerException c : Exec σ (Option Exc)) (callerException c) := by
  intro w hw
  refine .step rfl ?_
  split
  · exact pure _ w hw
  · split
    · exact pure _ w hw
    · exact .step rfl (.step rfl (.pure (.setActivity hw _)))

theorem chainCaller (c : Ref .context) (e : Exc) :
    Restores true (chainCaller c e : Exec σ Unit) (chainCaller c e) := by
  refine bind of_get fun w => ite (pure _) (bind (callerException c) fun found => ?_)
  cases found with
  | none => exact pure _
  | some handled => exact modifyLinks _ _

end Restores

end Exec

namespace Engine

open Exec (Restores)

variable {own : Bool} {e e' : Engine σ}

/-- Two engines of one host whose levels below put everything back, alike. -/
structure Restoring (e e' : Engine σ) : Prop where
  host : e.host = e'.host
  ask : ∀ {α : Type} (c : Ref .context) (q : Request σ α), Restores true (e.ask c q) (e'.ask c q)

theorem perform_restores (he : e.Restoring e') (c : Ref .context) (p : Prog σ α) :
    Restores true (e.perform c p) (e'.perform c p) := by
  unfold perform
  induction p generalizing c with
  | done a => exact .pure a
  | ask q k ih => exact .bind (he.ask c q) fun b => ih b c
  | handling exc inner k ihi ihk =>
    intro w hw
    have hclean : (w.modifyContext c (·.handling exc)).Clean := hw
    refine .step rfl (.bind (ihi c _ hclean) fun b v hv => .step rfl ?_)
    exact (ihk b c _ hv.handledOne.clean).mono fun _ _ h => hv.handledOne.trans h
  | within c' inner k ihi ihk => exact .bind (ihi c') fun b => ihk b c

theorem performHook_restores (he : e.Restoring e') (c : Ref .context) (p : Prog σ α) :
    Restores false (e.performHook c p) (e'.performHook c p) := fun w hw =>
  .step rfl (.bind (perform_restores he c p (w.push .hook) hw) fun _ _ h =>
    .step rfl (.pure (.within .hook h)))

theorem hooks_restoring (he : e.Restoring e') (c : Ref .context) :
    (e.hooks c).Related (@Restores σ false) (e'.hooks c) where
  hash layer i := by
    simp only [hooks, he.host]
    exact performHook_restores he c _
  compare layer i other := by
    simp only [hooks, he.host]
    exact performHook_restores he c _
  construct layer cls args := by
    simp only [hooks, he.host]
    exact performHook_restores he c _
  newExc _ _ _ := .newExc _ _ _
  newText _ := .newText _
  newIdentity := .newIdentity

-- ---------------------------------------------------------------------------
-- The run of a body
-- ---------------------------------------------------------------------------

theorem escape_restores (c : Ref .context) (g : Ref .generator) (thrown : Option Exc)
    (f : Failure) : Restores true (escape c g thrown f : Exec σ Failure) (escape c g thrown f) := by
  cases f with
  | raised r =>
    unfold escape
    refine .ite ?_ (.bind (.chainCaller _ _) fun _ => ?_)
    all_goals
      refine .bind .of_get fun w => .bind (.pushTraceback _ _) fun _ => .ite ?_ (.pure _)
      refine .bind (.newText _) fun _ => .bind (.newExc _ _ _) fun wrapper => ?_
      exact .bind (.modifyLinks wrapper _) fun _ => .pure _
  | _ => exact .pure _

theorem setCourse_restores (g : Ref .generator) {f : Generator → Generator}
    (a : World σ → Activity) (hf : ∀ x, (f x).template = x.template) :
    Restores true (modify fun w => (w.modifyGenerator g f).setActivity (a w) : Exec σ Unit)
      (modify fun w => (w.modifyGenerator g f).setActivity (a w)) := .of_modify fun w hw => by
  have hset : w.Restored true (w.modifyGenerator g f) := .modifyGenerator hw g hf
  exact hset.trans (.setActivity hset.clean _)

theorem endActivity_restores (g : Ref .generator) {f : Generator → Generator}
    (hf : ∀ x, (f x).template = x.template) :
    Restores true (endActivity g f : Exec σ Unit) (endActivity g f) := .of_modify fun w hw => by
  have hset : w.Restored true (w.setActivity .between) := .setActivity hw _
  exact hset.trans (.modifyGenerator hset.clean g hf)

theorem conclude_restores (c : Ref .context) (g : Ref .generator) (name : String)
    (thrown : Option Exc) (r : Except Failure BodyResult) :
    Restores true (conclude c g name thrown r : Exec σ Outcome) (conclude c g name thrown r) := by
  refine .bind (.record _) fun _ => ?_
  rcases r with f | s | v
  · refine .bind (.modifyGenerator g fun _ => rfl) fun _ => ?_
    refine .bind (escape_restores c g thrown f) fun f' => ?_
    exact .bind (endActivity_restores g fun _ => rfl) fun _ => .bind (.emit c g _) fun _ => .pure _
  · exact .bind (endActivity_restores g fun _ => rfl) fun _ => .bind (.emit c g _) fun _ => .pure _
  · exact .bind (endActivity_restores g fun _ => rfl) fun _ => .bind (.emit c g _) fun _ => .pure _

theorem heeded_restores (r : Except Failure BodyResult) :
    Restores true (heeded r : Exec σ (Except Failure BodyResult)) (heeded r) := by
  cases r with
  | error f => exact .pure _
  | ok r => exact .bind .of_get fun _ => .ite (.pure _) (.pure _)

theorem runBody_restores (he : e.Restoring e') (c : Ref .context) (g : Ref .generator)
    (p : Option Payload) (kind : ResumeKind) :
    Restores true (e.runBody c g p kind) (e'.runBody c g p kind) := by
  simp only [runBody, he.host]
  refine .bind .of_get fun w => ?_
  refine .bind (setCourse_restores g (fun _ => _) fun _ => rfl) fun _ => ?_
  refine .bind (.record _) fun _ => .bind .of_get fun _ => .bind (.emit c g _) fun _ => ?_
  refine .bind (perform_restores he c _) fun r => ?_
  exact .bind (heeded_restores r) fun r => conclude_restores c g _ _ r

-- ---------------------------------------------------------------------------
-- Delegation
-- ---------------------------------------------------------------------------

theorem result_restores (o : Outcome) :
    Restores own (result o : Exec σ (Except Failure Value)) (result o) := by
  cases o with
  | returned v => exact .bind (.stopIteration v) fun _ => .pure _
  | _ => exact .pure _

theorem whileForwarding_restores (g sub : Ref .generator) {x y : Exec σ α}
    (hx : Restores true x y) :
    Restores true (whileForwarding g sub x) (whileForwarding g sub y) := by
  refine .bind (setCourse_restores g (fun _ => _) fun _ => rfl) fun _ => ?_
  refine .bind (.record _) fun _ => .bind hx fun a => ?_
  exact .bind (setCourse_restores g (fun _ => _) fun _ => rfl) fun _ => .pure a

theorem resumeDelegate_restores (he : e.Restoring e') (c : Ref .context) (g sub : Ref .generator)
    (p : Payload) : Restores true (e.resumeDelegate c g sub p) (e'.resumeDelegate c g sub p) := by
  refine .bind (whileForwarding_restores g sub ?_) fun a => .bind (.record _) fun _ => .pure a
  exact .bind (he.ask c _) fun o => result_restores o

theorem closeDelegate_restores (he : e.Restoring e') (c : Ref .context) (g sub : Ref .generator)
    (exit : Exc) (hostTrace : Bool) :
    Restores true (e.closeDelegate c g sub exit hostTrace)
      (e'.closeDelegate c g sub exit hostTrace) :=
  .bind (whileForwarding_restores g sub (he.ask c _)) fun a => .bind (.record _) fun _ => .pure a

theorem dropDelegate_restores (g : Ref .generator) :
    Restores own (dropDelegate g : Exec σ Unit) (dropDelegate g) :=
  .modifyGenerator g fun _ => rfl

theorem settle_restores (he : e.Restoring e') (c : Ref .context) (g : Ref .generator)
    (a : Except Failure Value) : Restores true (e.settle c g a) (e'.settle c g a) := by
  cases a with
  | ok v => exact .bind .of_get fun _ => .bind (.emit c g _) fun _ => .pure _
  | error f =>
    refine .bind (dropDelegate_restores g) fun _ => ?_
    cases f.stopValue? with
    | some v => exact runBody_restores he c g _ _
    | none =>
      cases f with
      | raised r => exact runBody_restores he c g _ _
      | _ => exact .pure _

theorem forward_restores (he : e.Restoring e') (c : Ref .context) (g sub : Ref .generator)
    (v : Value) : Restores true (e.forward c g sub v) (e'.forward c g sub v) :=
  .bind (resumeDelegate_restores he c g sub _) fun a => settle_restores he c g a

theorem forwardThrow_restores (he : e.Restoring e') (c : Ref .context) (g sub : Ref .generator)
    (exc : Exc) (hostTrace : Bool) (kind : ResumeKind) :
    Restores true (e.forwardThrow c g sub exc hostTrace kind)
      (e'.forwardThrow c g sub exc hostTrace kind) := by
  refine .ite ?_ (.bind (resumeDelegate_restores he c g sub _) fun a => settle_restores he c g a)
  refine .bind (closeDelegate_restores he c g sub exc hostTrace) fun closed =>
    .bind (dropDelegate_restores g) fun _ => ?_
  rcases closed with f | _
  · cases f with
    | raised r => exact runBody_restores he c g _ _
    | _ => exact .pure _
  · exact runBody_restores he c g _ _

-- ---------------------------------------------------------------------------
-- Resumptions
-- ---------------------------------------------------------------------------

theorem enter_restores {w : World σ} (hw : w.Clean) (c : Ref .context) (g : Ref .generator) :
    Alike (Exec.enter c g) (Exec.enter c g) w fun a v => match a with
      | .error _ => w.Restored false v
      | .ok () => v.Clean ∧
        ∀ u, v.Restored true u → w.Restored false (u.modifyContext c (·.leave)).pop := by
  unfold Exec.enter
  refine .step (x := get) (a := w) rfl ?_
  have hentered : w.Restored false (w.modifyContext c fun _ => (w.context c).enter.2) :=
    .modifyContext hw c (Context.handled_enter _)
  cases hk : (w.context c).enter with
  | mk admitted entered =>
    rw [hk] at hentered
    refine .step rfl ?_
    cases admitted with
    | error cause =>
      have hfault : Restores false (Exec.fault (.limit cause) : Exec σ Failure) _ := .fault _
      exact .bind (hfault _ hentered.clean) fun f v hv => .pure (hentered.trans hv)
    | ok _ =>
      refine .step rfl (.pure ⟨hentered.clean, fun u hu => hentered.trans ?_⟩)
      exact .within (v := u.modifyContext c (·.leave)) _
        (hu.trans (.modifyContext hu.clean c rfl))

theorem inward_restores (c : Ref .context) (g : Ref .generator) {x y : Exec σ Outcome}
    (hx : Restores true x y) : Restores false (inward c g x) (inward c g y) := fun w hw => by
  refine .bind (enter_restores hw c g) fun a v hv => ?_
  cases a with
  | error f => exact .pure hv
  | ok _ =>
    obtain ⟨hclean, hleft⟩ := hv
    exact .bind (hx v hclean) fun o u hu => .step rfl (.pure (hleft u hu))

theorem failed_restores (f : Fault) :
    Restores false (failed f : Exec σ Outcome) (failed f) := .bind (.fault f) fun _ => .pure _

theorem advance_restores (he : e.Restoring e') (c : Ref .context) (g : Ref .generator)
    (sent : Option Value) : Restores false (e.advance c g sent) (e'.advance c g sent) := by
  refine .bind .of_get fun before => ?_
  dsimp only
  cases (before.generator g).state with
  | running => exact failed_restores _
  | finished => exact .bind (.stopIteration _) fun _ => .pure _
  | created | suspended =>
    refine .ite (failed_restores _) ?_
    cases (before.generator g).delegate with
    | some sub => exact inward_restores c g (forward_restores he c g sub _)
    | none => exact inward_restores c g (runBody_restores he c g _ _)

theorem finishAside_restores (c : Ref .context) (g : Ref .generator) :
    Restores false (finishAside c g : Exec σ Unit) (finishAside c g) :=
  .bind .of_get fun _ => .ite (.pure _) <|
    .bind (.modifyGenerator g fun _ => rfl) fun _ => .emit c g _

theorem throwAside_restores (c : Ref .context) (g : Ref .generator) (exc : Exc)
    (hostTrace : Bool) :
    Restores false (throwAside c g exc hostTrace : Exec σ Failure) (throwAside c g exc hostTrace) :=
  .bind (finishAside_restores c g) fun _ => .bind .of_get fun _ =>
    .bind (.pushTraceback _ _) fun _ => .pure _

theorem inject_restores (he : e.Restoring e') (c : Ref .context) (g : Ref .generator) (exc : Exc)
    (hostTrace : Bool) :
    Restores false (e.inject c g exc hostTrace) (e'.inject c g exc hostTrace) := by
  refine .bind .of_get fun before => ?_
  dsimp only
  cases (before.generator g).state with
  | running => exact failed_restores _
  | created | finished => exact .bind (throwAside_restores c g exc hostTrace) fun _ => .pure _
  | suspended =>
    cases (before.generator g).delegate with
    | some sub => exact inward_restores c g (forwardThrow_restores he c g sub exc hostTrace _)
    | none => exact inward_restores c g (runBody_restores he c g _ _)

theorem resume_restores (he : e.Restoring e') (c : Ref .context) (g : Ref .generator)
    (p : Option Payload) : Restores false (e.resume c g p) (e'.resume c g p) := by
  rcases p with _ | v | ⟨exc, hostTrace⟩
  · exact advance_restores he c g none
  · exact advance_restores he c g (some v)
  · exact inject_restores he c g exc hostTrace

-- ---------------------------------------------------------------------------
-- Closing and throwing
-- ---------------------------------------------------------------------------

theorem exitBody_restores (he : e.Restoring e') (c : Ref .context) (g : Ref .generator) :
    Restores true (e.exitBody c g) (e'.exitBody c g) := by
  refine .bind .of_get fun before => .bind (.newExc _ _ _) fun exit => ?_
  cases (before.generator g).delegate with
  | some sub => exact forwardThrow_restores he c g sub exit false .close
  | none => exact runBody_restores he c g _ .close

theorem finishAnyway_restores (c : Ref .context) (g : Ref .generator) :
    Restores false (finishAnyway c g : Exec σ Unit) (finishAnyway c g) :=
  .bind .of_get fun _ => .ite (.pure _) <|
    .bind (.modifyGenerator g fun _ => rfl) fun _ => .emit c g _

theorem closeResult_restores (o : Outcome) :
    Restores false (closeResult o : Exec σ (Except Failure Unit)) (closeResult o) := by
  cases o with
  | yielded v => exact .bind (.fault _) fun _ => .pure _
  | returned v => exact .pure _
  | failed f => exact .ite (.pure _) (.pure _)

theorem close_restores (he : e.Restoring e') (c : Ref .context) (g : Ref .generator) :
    Restores false (e.close c g) (e'.close c g) := by
  refine .bind .of_get fun before => ?_
  cases (before.generator g).state with
  | running => exact .bind (.fault _) fun _ => .pure _
  | finished => exact .pure _
  | created => exact .bind (finishAside_restores c g) fun _ => .pure _
  | suspended =>
    intro w hw
    refine .bind (enter_restores hw c g) fun a v hv => ?_
    cases a with
    | error f =>
      refine ((?_ : Restores false _ _) v hv.clean).mono fun _ _ h => hv.trans h
      exact .bind (dropDelegate_restores g) fun _ => .bind (finishAside_restores c g) fun _ =>
        .pure _
    | ok _ =>
      obtain ⟨hclean, hleft⟩ := hv
      refine .bind (exitBody_restores he c g v hclean) fun o u hu => .step rfl ?_
      have hout := hleft u hu
      refine ((?_ : Restores false _ _) _ hout.clean).mono fun _ _ h => hout.trans h
      exact .bind (finishAnyway_restores c g) fun _ => closeResult_restores o

theorem call_restores (he : e.Restoring e') (c : Ref .context) (f : Value) (args : List Value) :
    Restores false (e.call c f args) (e'.call c f args) :=
  Restores.congruence.call (hooks_restoring he c) f args

theorem madeException_restores (cls made : Value) :
    Restores false (madeException cls made : Exec σ Exc) (madeException cls made) := by
  unfold madeException
  split
  · exact .pure _
  · exact .bind .of_get fun _ => .bind (.newText _) fun _ => .newExc _ _ _

theorem prepareException_restores (he : e.Restoring e') (c : Ref .context) (type : Value)
    (value : Option Value) :
    Restores false (e.prepareException c type value) (e'.prepareException c type value) := by
  unfold prepareException
  dsimp only
  split
  · split
    · exact .pure _
    · refine .bind (call_restores he c type _) fun r => ?_
      cases r with
      | ok made => exact .bind (madeException_restores type made) fun _ => .pure _
      | error f => exact .pure _
  · split
    · exact .bind (.fault _) fun _ => .pure _
    · exact .pure _
    · exact .bind (.fault _) fun _ => .pure _

theorem givenTraceback_restores (t : Option Value) :
    Restores false (givenTraceback t : Exec σ (Except Failure (Option Traceback)))
      (givenTraceback t) := by
  unfold givenTraceback
  split
  · exact .pure _
  · exact .pure _
  · exact .pure _
  · exact .bind (.fault _) fun _ => .pure _

theorem thrown_restores (he : e.Restoring e') (c : Ref .context) (g : Ref .generator)
    (type : Value) (value traceback : Option Value) :
    Restores false (e.thrown c g type value traceback) (e'.thrown c g type value traceback) := by
  refine .bind .of_get fun _ => .ite (.bind (.fault _) fun _ => .pure _) ?_
  refine .bind (givenTraceback_restores traceback) fun t => ?_
  cases t with
  | error f => exact .pure _
  | ok t =>
    refine .bind (prepareException_restores he c type value) fun r => ?_
    cases r with
    | error f => exact .pure _
    | ok exc =>
      refine .ite (.bind (.modifyLinks exc _) fun _ => ?_) ?_
      all_goals exact .bind (.modifyLinks exc _) fun _ => .pure _

theorem throw_restores (he : e.Restoring e') (c : Ref .context) (g : Ref .generator)
    (type : Value) (value traceback : Option Value) :
    Restores false (e.throw c g type value traceback) (e'.throw c g type value traceback) := by
  refine .bind (thrown_restores he c g type value traceback) fun r => ?_
  cases r with
  | error f => exact .pure _
  | ok exc =>
    exact .bind .of_get fun _ => .bind (inject_restores he c g exc _) fun o => result_restores o

end Engine

-- ---------------------------------------------------------------------------
-- Answers
-- ---------------------------------------------------------------------------

/-- The request is about the body that makes it, and about what its resumption brought. -/
def Request.asksOwn : {α : Type} → Request σ α → Bool
  | _, .take | _, .caller | _, .chain _ => true
  | _, _ => false

namespace Engine

variable {own : Bool} {e e' : Engine σ}

open Exec (Restores)

theorem edit_restores (c : Ref .context) (x : Edit) :
    Restores false (modify (x.apply c) : Exec σ Unit) (modify (x.apply c)) := by
  refine .of_modify fun w hw => ?_
  cases x with
  | name | qualifiedName => exact .modifyGenerator hw _ fun _ => rfl
  | emit | clearEvents => exact .modifyContext hw c rfl
  | _ => exact .of_eq hw rfl rfl rfl

theorem make_restores (x : Creation α) : Restores false (x.make : Exec σ α) x.make := by
  cases x with
  | identity => exact .newIdentity
  | text s => exact .newText s
  | cell v => exact .of_modifyGet fun _ hw => .of_eq hw rfl rfl rfl
  | frame layout => exact .of_modifyGet fun _ hw => .of_eq hw rfl rfl rfl
  | exc type class? args => exact .newExc type class? args
  | context k => exact .of_modifyGet fun _ hw => .addContext hw k

theorem answer_restores (he : e.Restoring e') (c : Ref .context) (q : Request σ α) :
    Restores q.asksOwn (e.answer c q) (e'.answer c q) := by
  cases q with
  | look f => exact .bind .of_get fun _ => .pure _
  | here => exact .pure c
  | modifyHost f => exact .of_modify fun _ hw => .of_eq hw rfl rfl rfl
  | edit x => exact edit_restores c x
  | create x => exact make_restores x
  | hash v => exact Restores.congruence.hash (hooks_restoring he c) v
  | equals a b => exact Restores.congruence.equals (hooks_restoring he c) a b
  | call f args => exact call_restores he c f args
  | newGenerator t args =>
    refine .ite ?_ (.bind (.fault _) fun _ => .pure _)
    refine fun w hw => .of_run rfl ?_
    exact .generating hw t args
  | resume g p => exact resume_restores he c g p
  | throw g type value traceback => exact throw_restores he c g type value traceback
  | close g => exact close_restores he c g
  | take => exact .takePayload
  | caller => exact .callerException c
  | chain exc => exact .chainCaller c exc

end Engine

-- ---------------------------------------------------------------------------
-- Runs
-- ---------------------------------------------------------------------------

namespace Host

open Exec (Restores)

variable {host : Host σ} {rule : Rule σ}

section

variable (h : ∀ {α : Type} {n : Nat} {c : Ref .context} {q : Request σ α} {w : World σ} {a : α}
  {w' : World σ}, w.Clean → ((⟨host, host.answer n⟩ : Engine σ).answer c q).run w = some (a, w') →
  rule α ⟨host, host.answer n⟩ c q w a w')
include h

theorem watched_restores (n : Nat) (c : Ref .context) (q : Request σ α) :
    Restores q.asksOwn (host.watched rule n c q) (host.answer n c q) := by
  induction n generalizing α c with
  | zero => exact fun w _ => ⟨rfl, fun a w' h => nomatch h⟩
  | succ n ih =>
    -- The two levels below agree where nothing is kept, and no world that is passed keeps anything.
    have hbelow : Engine.Restoring (σ := σ) ⟨host, host.watched rule n⟩ ⟨host, host.answer n⟩ :=
      ⟨rfl, fun c q => (ih c q).owned⟩
    intro w hw
    obtain ⟨heq, hrestored⟩ := Engine.answer_restores hbelow c q w hw
    exact ⟨watched_succ_run heq fun a w' hrun => h hw hrun, hrestored⟩

/-- A rule that all answers follow that are given where nothing is kept is not broken there. -/
theorem upholds_of_clean {w : World σ} (hw : w.Clean) : host.Upholds rule w := by
  intro α n c p
  have hbelow : Engine.Restoring (σ := σ) ⟨host, host.watched rule n⟩ ⟨host, host.answer n⟩ :=
    ⟨rfl, fun c q => (watched_restores h n c q).owned⟩
  exact (Engine.perform_restores hbelow c p w hw).1

end

theorem answer_restores (host : Host σ) (n : Nat) (c : Ref .context) (q : Request σ α) :
    Restores q.asksOwn (host.answer n c q) (host.answer n c q) := by
  induction n generalizing α c with
  | zero => exact fun w _ => ⟨rfl, fun a w' h => nomatch h⟩
  | succ n ih =>
    have hbelow : Engine.Restoring (σ := σ) ⟨host, host.answer n⟩ ⟨host, host.answer n⟩ :=
      ⟨rfl, fun c q => (ih c q).owned⟩
    exact Engine.answer_restores hbelow c q

def restored : Rule σ := fun _ _ _ q w _ w' => w.Clean ∧ w.Restored q.asksOwn w'

theorem upholds_restored (host : Host σ) {w : World σ} (hw : w.Clean) :
    host.Upholds restored w := by
  refine upholds_of_clean (fun {α n c q w a w'} hw h => ?_) hw
  exact ⟨hw, (answer_restores host (n + 1) c q w hw).2 a w' h⟩

end Host

end Resumable
