import Resumable.Proofs.Generator.Finished
import Resumable.Proofs.Run.Admission

/-!
# Refused resumptions

A resumption is refused where the generator runs, where it is finished or fresh and cannot take what
is sent, and where the limits refuse it; what is thrown by type may name no exception. A refusal
makes the exception that says so, and may have counted the attempt. It changes nothing else.
-/

namespace Resumable

variable {σ : Type}

-- ---------------------------------------------------------------------------
-- Worlds that are left alone
-- ---------------------------------------------------------------------------

namespace World

variable {w w' u v : World σ}

/-- No generator has changed, no frame, and no tracer, and nothing has befallen any generator. The
context may have counted an attempt. -/
structure Undisturbed (c : Ref .context) (w w' : World σ) : Prop where
  host : w'.host = w.host
  memory : w'.memory = w.memory
  generators : w'.generators = w.generators
  calls : w'.calls = w.calls
  history : w'.history = w.history
  context : ∃ tracker, w'.context c = { w.context c with tracker }
  others : ∀ c', c' ≠ c → w'.context c' = w.context c'

theorem OnlyLinks.undisturbed (h : w.OnlyLinks w') (c : Ref .context) : w.Undisturbed c w' := by
  obtain ⟨_, _, rfl⟩ := h
  exact ⟨rfl, rfl, rfl, rfl, rfl, ⟨_, rfl⟩, fun _ _ => rfl⟩

theorem Undisturbed.trans (h : w.Undisturbed c v) (h' : v.Undisturbed c w') :
    w.Undisturbed c w' where
  host := h'.host.trans h.host
  memory := h'.memory.trans h.memory
  generators := h'.generators.trans h.generators
  calls := h'.calls.trans h.calls
  history := h'.history.trans h.history
  context := by
    obtain ⟨_, hv⟩ := h.context
    obtain ⟨tracker, hw'⟩ := h'.context
    exact ⟨tracker, by rw [hw', hv]⟩
  others c' hc := (h'.others c' hc).trans (h.others c' hc)

theorem undisturbed_refusing (h : (w.context c).enter.1 = .error cause) :
    w.Undisturbed c (w.modifyContext c fun _ => (w.context c).enter.2) where
  host := rfl
  memory := rfl
  generators := rfl
  calls := rfl
  history := rfl
  context := by
    by_cases hv : w.contexts.Valid c
    · rw [show (w.modifyContext c _).context c = _ from Store.get_modify_self _ _ hv]
      obtain ⟨_, _, he⟩ | ⟨_, _, _, he, _⟩ | ⟨he, _⟩ := (w.context c).enter_cases
      · exact ⟨_, congrArg Prod.snd he⟩
      · exact ⟨_, congrArg Prod.snd he⟩
      · rw [he] at h
        cases h
    · refine ⟨_, (Store.get_of_not_valid _ ?_).trans (Store.get_of_not_valid _ hv).symm⟩
      exact fun hm => hv ((Store.valid_modify ..).mp hm)
  others _ hc := Store.get_modify_of_ne _ _ hc

-- ---------------------------------------------------------------------------
-- Reasons
-- ---------------------------------------------------------------------------

def faulted (f : Fault) (w : World σ) : Failure :=
  f.failure ⟨w.links.next, f.type, none, [.text ⟨w.identities, f.message⟩]⟩

/-- What is resumed goes one level in, if the limits allow that. -/
inductive Enterable (w : World σ) (g : Ref .generator) : Option Payload → Prop
  | suspended : (w.generator g).state = .suspended → Enterable w g p
  | next : (w.generator g).state = .created → Enterable w g none
  | sendNone : (w.generator g).state = .created → Enterable w g (some (.send .none))

/-- A resumption is refused, with the failure that says why. -/
inductive Refused (w : World σ) (c : Ref .context) (g : Ref .generator) :
    Option Payload → Failure → Prop
  | running : (w.generator g).state = .running → Refused w c g p (w.faulted .alreadyExecuting)
  | finished : (w.generator g).state = .finished → p.bind (·.thrown?) = none →
      Refused w c g p (.ofExc (.stop w.links.next .none))
  | unstarted : (w.generator g).state = .created → sent ≠ .none →
      Refused w c g (some (.send sent)) (w.faulted .sendToUnstarted)
  | limited : w.Enterable g p → (w.context c).enter.1 = .error cause →
      Refused w c g p (w.faulted (.limit cause))

def ThrownAside (w : World σ) (g : Ref .generator) (p : Option Payload) : Prop :=
  ((w.generator g).state = .created ∨ (w.generator g).state = .finished) ∧
    p.bind (·.thrown?) ≠ none

/-- There are no other reasons: what is not refused goes one level in, or is thrown aside. -/
theorem refused_or (w : World σ) (c : Ref .context) (g : Ref .generator) (p : Option Payload) :
    (∃ f, w.Refused c g p f) ∨ w.Enterable g p ∧ (w.context c).enter.1 = .ok () ∨
      w.ThrownAside g p := by
  have hasked : w.Enterable g p → (∃ f, w.Refused c g p f) ∨
      w.Enterable g p ∧ (w.context c).enter.1 = .ok () ∨ w.ThrownAside g p := fun hr => by
    cases he : (w.context c).enter.1 with
    | error cause => exact .inl ⟨_, .limited hr he⟩
    | ok _ => exact .inr (.inl ⟨hr, rfl⟩)
  cases hs : (w.generator g).state with
  | running => exact .inl ⟨_, .running hs⟩
  | suspended => exact hasked (.suspended hs)
  | created =>
    rcases p with _ | v | ⟨exc, hostTrace⟩
    · exact hasked (.next hs)
    · by_cases hv : v = .none
      · exact hasked (hv ▸ .sendNone hs)
      · exact .inl ⟨_, .unstarted hs hv⟩
    · exact .inr (.inr ⟨.inl hs, nofun⟩)
  | finished =>
    rcases p with _ | v | ⟨exc, hostTrace⟩
    · exact .inl ⟨_, .finished hs rfl⟩
    · exact .inl ⟨_, .finished hs rfl⟩
    · exact .inr (.inr ⟨.inr hs, nofun⟩)

end World

-- ---------------------------------------------------------------------------
-- Resumptions
-- ---------------------------------------------------------------------------

namespace Engine

variable {e : Engine σ} {w u v w' : World σ}

theorem fault_run (f : Fault) (w : World σ) :
    (Exec.fault f).run w = some (w.faulted f,
      { w with identities := w.identities + 1, links := w.links.add .none }) := rfl

theorem fault_undisturbed (f : Fault) (c : Ref .context) (w : World σ) : ∃ w',
    (Exec.fault f).run w = some (w.faulted f, w') ∧ w.Undisturbed c w' :=
  ⟨_, fault_run f w, World.OnlyLinks.undisturbed ⟨_, _, rfl⟩ c⟩

theorem enter_refused (h : (w.context c).enter.1 = .error cause) (g : Ref .generator) : ∃ w',
    (Exec.enter c g).run w = some (.error (w.faulted (.limit cause)), w') ∧ w.Undisturbed c w' := by
  obtain ⟨w', hrun, hw'⟩ :=
    fault_undisturbed (.limit cause) c (w.modifyContext c fun _ => (w.context c).enter.2)
  refine ⟨w', ?_, (World.undisturbed_refusing h).trans hw'⟩
  have hfault : (Exec.fault (.limit cause)).run (w.modifyContext c fun _ =>
      (w.context c).enter.2) = some (w.faulted (.limit cause), w') := hrun
  simp [Exec.enter, h, hfault]

theorem inward_refused (h : (w.context c).enter.1 = .error cause) (g : Ref .generator)
    (x : Exec σ Outcome) : ∃ w',
    (inward c g x).run w = some (.failed (w.faulted (.limit cause)), w') ∧ w.Undisturbed c w' := by
  obtain ⟨w', hrun, hw'⟩ := enter_refused h g
  exact ⟨w', by simp [inward, hrun], hw'⟩

theorem failed_undisturbed (f : Fault) (c : Ref .context) (w : World σ) : ∃ w',
    (failed f).run w = some (.failed (w.faulted f), w') ∧ w.Undisturbed c w' := by
  obtain ⟨w', hrun, hw'⟩ := fault_undisturbed f c w
  exact ⟨w', by simp [failed, hrun], hw'⟩

theorem advance_created {sent : Option Value} (hs : (w.generator g).state = .created)
    (hsent : sent.any (!·.isNone) = false) :
    (e.advance c g sent).run w = (inward c g (match (w.generator g).delegate with
      | some sub => e.forward c g sub (sent.getD .none)
      | none => e.runBody c g (sent.map .send) (if sent.isSome then .send else .next))).run w := by
  unfold advance
  rw [StateT.run_bind, StateT.run_get]
  simp only [hs, hsent, Option.pure_def, Option.bind_eq_bind, Option.bind_some, Bool.false_eq_true,
    and_false, if_false]
  cases (w.generator g).delegate <;> rfl

theorem resume_enterable (hr : w.Enterable g p) (c : Ref .context) :
    ∃ x, (e.resume c g p).run w = (inward c g x).run w := by
  cases hr with
  | suspended hs =>
    rcases p with _ | v | ⟨exc, hostTrace⟩
    · exact ⟨_, advance_suspended hs none⟩
    · exact ⟨_, advance_suspended hs (some v)⟩
    · exact ⟨_, inject_suspended hs exc hostTrace⟩
  | next hs => exact ⟨_, advance_created hs rfl⟩
  | sendNone hs => exact ⟨_, advance_created hs rfl⟩

theorem resume_refused (h : w.Refused c g p f) : ∃ w',
    (e.resume c g p).run w = some (.failed f, w') ∧ w.Undisturbed c w' := by
  cases h with
  | running hs =>
    obtain ⟨w', hrun, hw'⟩ := failed_undisturbed .alreadyExecuting c w
    refine ⟨w', ?_, hw'⟩
    rcases p with _ | v | ⟨exc, hostTrace⟩ <;> simp [resume, advance, inject, hs, hrun]
  | finished hs hp =>
    exact ⟨_, resume_finished hs hp c, World.OnlyLinks.undisturbed ⟨_, _, rfl⟩ c⟩
  | @unstarted sent hs hsent =>
    obtain ⟨w', hrun, hw'⟩ := failed_undisturbed .sendToUnstarted c w
    have hvalue : sent.isNone = false := by
      cases sent <;> first | exact absurd rfl hsent | rfl
    exact ⟨w', by simp [resume, advance, hs, hvalue, hrun], hw'⟩
  | limited hr he =>
    obtain ⟨x, hrun⟩ := resume_enterable (e := e) hr c
    obtain ⟨w', hw'⟩ := inward_refused he g x
    exact ⟨w', hrun ▸ hw'⟩

-- ---------------------------------------------------------------------------
-- Throwing by type
-- ---------------------------------------------------------------------------

/-- What is given to throw names no exception, or comes with what is no traceback. -/
inductive Unthrowable : Value → Option Value → Option Value → Fault → Prop
  | traceback : (∀ t?, ¬ GivesTraceback traceback t?) →
      Unthrowable type value traceback .notTraceback
  | separateValue (exc : Exc) : GivesTraceback traceback t? → value.filter (!·.isNone) ≠ none →
      Unthrowable exc.value value traceback .separateValue
  | notRaisable : GivesTraceback traceback t? → type.isExceptionClass = false → type.asExc = none →
      Unthrowable type value traceback (.notRaisable type.typeName)

theorem givenTraceback_run (h : GivesTraceback traceback t?) (w : World σ) :
    (givenTraceback traceback).run w = some (.ok t?, w) := by
  cases h <;> rfl

theorem thrown_unthrowable (hs : (w.generator g).state ≠ .running)
    (h : Unthrowable type value traceback fault) (c : Ref .context) : ∃ v,
    (e.thrown c g type value traceback).run w = some (.error (w.faulted fault), v) ∧
      w.Undisturbed c v := by
  obtain ⟨v, hrun, hv⟩ := fault_undisturbed fault c w
  refine ⟨v, ?_, hv⟩
  cases h with
  | traceback ht =>
    have hgiven : (givenTraceback traceback).run w = some (.error (w.faulted .notTraceback), v) := by
      unfold givenTraceback
      split
      · exact absurd .nothing (ht _)
      · exact absurd .none (ht _)
      · exact absurd (.given _) (ht _)
      · simp [hrun]
    simp [thrown, hs, hgiven]
  | separateValue exc ht hvalue =>
    obtain ⟨x, hx⟩ := Option.ne_none_iff_exists'.mp hvalue
    have hprepare : (e.prepareException c exc.value value).run w =
        some (.error (w.faulted .separateValue), v) := by
      simp [prepareException, hx, Exc.value, Value.isExceptionClass, Value.asExc, hrun]
    simp [thrown, hs, givenTraceback_run ht, hprepare]
  | notRaisable ht hclass hexc =>
    have hprepare : (e.prepareException c type value).run w =
        some (.error (w.faulted (.notRaisable type.typeName)), v) := by
      simp [prepareException, hclass, hexc, hrun]
    simp [thrown, hs, givenTraceback_run ht, hprepare]

def Constructs (e : Engine σ) (c : Ref .context) (type : Value) (w u : World σ) : Prop :=
  u = w ∨ type.isExceptionClass = true ∧ ∃ args r, (e.call c type args).run w = some (r, u)

theorem thrown_constructs (h : (e.thrown c g type value traceback).run w = some (r, v)) :
    ∃ u, e.Constructs c type w u ∧ u.Undisturbed c v := by
  obtain ⟨u, hu, hv⟩ := (thrown_prepares c g type value traceback w).2 _ _ h
  exact ⟨u, hu, hv.undisturbed c⟩

theorem throw_refused (h : (e.thrown c g type value traceback).run w = some (.ok exc, v))
    (hf : v.Refused c g (some (.throw exc (v.context c).options.hostTraces)) f) : ∃ w',
    (e.throw c g type value traceback).run w = some (.error f, w') ∧ v.Undisturbed c w' := by
  obtain ⟨w', hrun, hw'⟩ := resume_refused (e := e) hf
  have hinject : (e.inject c g exc (v.context c).options.hostTraces).run v =
      some (.failed f, w') := hrun
  exact ⟨w', by simp [throw, h, hinject, result], hw'⟩

end Engine

-- ---------------------------------------------------------------------------
-- Runs
-- ---------------------------------------------------------------------------

namespace Host

variable {host : Host σ} {w v : World σ}

def ThrowRefused (host : Host σ) (n : Nat) (c : Ref .context) (g : Ref .generator) (type : Value)
    (value traceback : Option Value) (w v : World σ) : Except Failure Exc → Prop
  | .error f => (host.run (n + 1) c (Action.throwInto g type value traceback).run).run w =
      some (.error f, v)
  | .ok exc => ∀ f, v.Refused c g (some (.throw exc (v.context c).options.hostTraces)) f →
      ∃ w', (host.run (n + 1) c (Action.throwInto g type value traceback).run).run w =
        some (.error f, w') ∧ v.Undisturbed c w'

theorem resume_refused (host : Host σ) (h : w.Refused c g p f) (n : Nat) :
    ∃ w', w.Undisturbed c w' ∧
      (host.answer (n + 1) c (.resume g p)).run w = some (.failed f, w') ∧
      ∀ op : Action σ Value, op.Resumes g (w.context c) p →
        (host.run (n + 1) c op.run).run w = some (.error f, w') := by
  obtain ⟨w', hrun, hw'⟩ := Engine.resume_refused (e := ⟨host, host.answer n⟩) h
  have hanswer : (host.answer (n + 1) c (.resume g p)).run w = some (.failed f, w') := hrun
  refine ⟨w', hw', hanswer, fun op hop => ?_⟩
  rw [run_eq_of_resumes hop, hanswer]
  rfl

theorem throw_refused (h : (Engine.thrown ⟨host, host.answer n⟩ c g type value traceback).run w =
    some (r, v)) : host.ThrowRefused n c g type value traceback w v r := by
  cases r with
  | error f =>
    rw [ThrowRefused, run_throwInto]
    exact Engine.throw_of_not_thrown h
  | ok exc =>
    intro f hf
    rw [run_throwInto]
    exact Engine.throw_refused h hf

end Host

/-- What is refused leaves every generator as it was, its delegate and its frame too, enters no body
and tells no tracer. There are no other refusals. What is thrown by type may call a class first,
and nothing else is done before the refusal; of a generator that runs not even the arguments are
looked at. -/
theorem refusals_atomic (host : Host σ) :
    (∀ (n : Nat) (c : Ref .context) (g : Ref .generator) (p : Option Payload) (f : Failure)
      (w : World σ), w.Refused c g p f → ∃ w', w.Undisturbed c w' ∧
        (host.answer (n + 1) c (.resume g p)).run w = some (.failed f, w') ∧
        ∀ op : Action σ Value, op.Resumes g (w.context c) p →
          (host.run (n + 1) c op.run).run w = some (.error f, w')) ∧
    (∀ (c : Ref .context) (g : Ref .generator) (p : Option Payload) (w : World σ),
      (∃ f, w.Refused c g p f) ∨ w.Enterable g p ∧ (w.context c).enter.1 = .ok () ∨
        w.ThrownAside g p) ∧
    (∀ (n : Nat) (c : Ref .context) (g : Ref .generator) (type : Value)
      (value traceback : Option Value) (fault : Fault) (w : World σ),
      (w.generator g).state ≠ .running → Engine.Unthrowable type value traceback fault →
      ∃ w', w.Undisturbed c w' ∧
        (host.run (n + 1) c (Action.throwInto g type value traceback).run).run w =
          some (.error (w.faulted fault), w')) ∧
    (∀ (n : Nat) (c : Ref .context) (g : Ref .generator) (type : Value)
      (value traceback : Option Value) (r : Except Failure Exc) (w v : World σ),
      (Engine.thrown ⟨host, host.answer n⟩ c g type value traceback).run w = some (r, v) →
      ∃ u, Engine.Constructs ⟨host, host.answer n⟩ c type w u ∧ u.Undisturbed c v ∧
        host.ThrowRefused n c g type value traceback w v r) ∧
    ∀ (n : Nat) (c : Ref .context) (g : Ref .generator) (type : Value)
      (value traceback : Option Value) (w : World σ), (w.generator g).state = .running →
      (host.run (n + 1) c (Action.throwInto g type value traceback).run).run w =
        some (.error (w.faulted .alreadyExecuting),
          { w with identities := w.identities + 1, links := w.links.add .none }) := by
  refine ⟨fun n c g p f w h => host.resume_refused h n, fun c g p w => w.refused_or c g p, ?_, ?_, ?_⟩
  · intro n c g type value traceback fault w hs h
    obtain ⟨w', hrun, hw'⟩ := Engine.thrown_unthrowable (e := ⟨host, host.answer n⟩) hs h c
    refine ⟨w', hw', ?_⟩
    rw [Host.run_throwInto]
    exact Engine.throw_of_not_thrown hrun
  · intro n c g type value traceback r w v h
    obtain ⟨u, hu, hv⟩ := Engine.thrown_constructs h
    exact ⟨u, hu, hv, Host.throw_refused h⟩
  · intro n c g type value traceback w hs
    rw [Host.run_throwInto]
    simp [Engine.throw, Engine.thrown, hs, Engine.fault_run]

theorem relay_refused : ∃ (c : Ref .context) (w v : World Unit),
    (Exec.newContext (.ofOptions ⟨⟨none, some 0⟩, false⟩)).run startedRelay.2 = some (c, w) ∧
      (∃ w', w.Undisturbed c w' ∧ (relay.run 8 c (Action.send ⟨0⟩ (.bool true)).run).run w =
        some (.error (w.faulted (.limit (.resumes 0 1))), w')) ∧
      (∃ w', v.Undisturbed c w' ∧
        (relay.run 8 c (Action.throwInto ⟨0⟩ startedRelay.1.value none none).run).run w =
          some (.error (v.faulted (.limit (.resumes 0 1))), w')) ∧
      (∃ w', w.Undisturbed c w' ∧
        (relay.run 8 c (Action.throwInto ⟨0⟩ (.bool true) none none).run).run w =
          some (.error (w.faulted (.notRaisable "bool")), w')) ∧
      ∃ w', (relay.run 8 c (Action.throwInto ⟨0⟩ (.bool true) none none).run).run
          (w.modifyGenerator ⟨0⟩ ({ · with state := .running })) =
        some (.error (w.faulted .alreadyExecuting), w') := by
  let c := startedRelay.2.contexts.next
  let w : World Unit := { startedRelay.2 with
    contexts := startedRelay.2.contexts.add (.ofOptions ⟨⟨none, some 0⟩, false⟩) }
  have hs : (w.generator ⟨0⟩).state = .suspended := relay_started.passes.suspended _ (by simp)
  have hv : w.generators.Valid ⟨0⟩ := relay_started.settled.valid_of_suspended hs
  have hc : w.context c = .ofOptions ⟨⟨none, some 0⟩, false⟩ := Store.get_add_next _ _
  have hrunning : (w.generator ⟨0⟩).state ≠ .running := by rw [hs]; nofun
  obtain ⟨hresume, -, hinvalid, hthrow, hexecuting⟩ := refusals_atomic relay
  have hgiven : Engine.Gives startedRelay.1 startedRelay.1.value none := .itself rfl
  obtain ⟨v, hthrown, honly, -⟩ :=
    Engine.thrown_given (e := ⟨relay, relay.answer 7⟩) hrunning hgiven .nothing c
  have hv' : v.generators = w.generators ∧ v.contexts = w.contexts := by
    obtain ⟨_, _, rfl⟩ := honly
    exact ⟨rfl, rfl⟩
  have hrefused : ∀ x : World Unit, x.generators = w.generators → x.contexts = w.contexts →
      ∀ p, x.Refused c ⟨0⟩ p (x.faulted (.limit (.resumes 0 1))) := fun x hg hcs p => by
    refine .limited (.suspended ?_) ?_
    · rw [World.generator, hg]
      exact hs
    · rw [World.context, hcs, ← World.context, hc]
      rfl
  refine ⟨c, w, v, rfl, ?_, ?_, ?_, ?_⟩
  · obtain ⟨w', hw', -, hop⟩ := hresume 7 c ⟨0⟩ _ _ w (hrefused w rfl rfl _)
    exact ⟨w', hw', hop _ (.send _)⟩
  · obtain ⟨-, -, -, hrefusal⟩ := hthrow 7 c ⟨0⟩ _ _ _ _ w _ hthrown
    obtain ⟨w', hrun, hw'⟩ := hrefusal _ (hrefused v hv'.1 hv'.2 _)
    exact ⟨w', hw', hrun⟩
  · exact hinvalid 7 c ⟨0⟩ (.bool true) none none _ w hrunning (.notRaisable .nothing rfl rfl)
  · refine ⟨_, hexecuting 7 c ⟨0⟩ _ none none _ ?_⟩
    exact congrArg Generator.state (World.generator_modify_self hv)

end Resumable
