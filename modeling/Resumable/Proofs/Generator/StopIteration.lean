import Resumable.Proofs.Generator.Escape
import Resumable.Run.Operations

/-!
# The end of an iteration

A generator that ends is reported by an exception that bodies raise as well. What an operation on a
generator that is not finished reports is never mistaken: it is the end of the iteration only if
the body returned in that very operation, and an exception of this kind that a body lets escape
leaves as another one.
-/

namespace Resumable

open Exec (Alike Quiet)

variable {σ : Type}

def Exc.stop (ref : Ref .exception) (v : Value) : Exc :=
  ⟨ref, .stopIteration, none, if v.isNone then [] else [v]⟩

-- ---------------------------------------------------------------------------
-- What leaves a body
-- ---------------------------------------------------------------------------

theorem Fault.type_ne_stopIteration (f : Fault) : f.type.isSubtypeOf .stopIteration = false := by
  cases f with
  | limit cause => cases cause <;> rfl
  | _ => rfl

theorem Fault.failure_uncaught (f : Fault) {e : Exc} (he : e.type = f.type) :
    (f.failure e).isCaughtBy .stopIteration = false := by
  unfold failure
  split
  · simp only [Failure.isCaughtBy, Exc.isCaughtBy, he, f.type_ne_stopIteration]
  · rfl

/-- A failure that does not report the end of an iteration, and an end of a body that the history
tells of last. -/
def Outcome.Honest (g : Ref .generator) (w : World σ) : Outcome → Prop
  | .yielded _ => True
  | .returned v => ∃ c name before,
      w.history = .traced c g (.finish name .returned) :: .left g (.ok (.returns v)) :: before
  | .failed f => f.isCaughtBy .stopIteration = false

namespace Engine

variable {e : Engine σ} {w : World σ}

def Uncaught : Except Failure α → Prop
  | .error f => f.isCaughtBy .stopIteration = false
  | .ok _ => True

theorem fault_uncaught (f : Fault) (w : World σ) :
    Alike (Exec.fault f) (Exec.fault f) w fun f' _ => f'.isCaughtBy .stopIteration = false :=
  .bind .any fun _ _ _ => .step rfl (.pure (f.failure_uncaught rfl))

theorem failed_honest (f : Fault) (g : Ref .generator) (w : World σ) :
    Alike (failed f) (failed f) w fun o w' => o.Honest g w' :=
  .bind (fault_uncaught f w) fun _ _ h => .pure h

theorem escape_uncaught (c : Ref .context) (g : Ref .generator) (thrown : Option Exc) (f : Failure)
    (w : World σ) :
    Alike (escape c g thrown f) (escape c g thrown f) w
      fun f' _ => f'.isCaughtBy .stopIteration = false := by
  cases f with
  | raised r =>
    unfold escape
    refine .ite ?_ (.bind .any fun _ _ _ => ?_)
    all_goals
      refine .bind .any fun _ _ _ => .bind .any fun _ _ _ => ?_
      cases hr : r.exc.isCaughtBy .stopIteration with
      | true => exact .bind .any fun _ _ _ => .step rfl (.step rfl (.pure rfl))
      | false => exact .pure hr
  | _ => exact .pure rfl

theorem conclude_honest (c : Ref .context) (g : Ref .generator) (name : String)
    (thrown : Option Exc) (r : Except Failure BodyResult) (w : World σ) :
    Alike (conclude c g name thrown r) (conclude c g name thrown r) w
      fun o w' => o.Honest g w' := by
  refine .step rfl ?_
  rcases r with f | s | v
  · refine .step rfl (.bind (escape_uncaught c g thrown f _) fun f' _ hf => ?_)
    exact .step rfl (.step rfl (.pure hf))
  · exact .step rfl (.step rfl (.pure trivial))
  · exact .step rfl (.step rfl (.pure ⟨c, name, _, by simp; rfl⟩))

theorem runBody_honest (c : Ref .context) (g : Ref .generator) (p : Option Payload)
    (kind : ResumeKind) (w : World σ) :
    Alike (e.runBody c g p kind) (e.runBody c g p kind) w fun o w' => o.Honest g w' := by
  refine .bind .any fun _ _ _ => .bind .any fun _ _ _ => .bind .any fun _ _ _ => ?_
  refine .bind .any fun _ _ _ => .bind .any fun _ _ _ => .bind .any fun _ _ _ => ?_
  exact .bind .any fun r v _ => conclude_honest c g _ _ r v

theorem settle_honest (c : Ref .context) (g : Ref .generator) (a : Except Failure Value)
    (w : World σ) :
    Alike (e.settle c g a) (e.settle c g a) w fun o w' => o.Honest g w' := by
  cases a with
  | ok v => exact .step rfl (.step rfl (.pure trivial))
  | error f =>
    refine .step rfl ?_
    cases f.stopValue? with
    | some v => exact runBody_honest c g _ _ _
    | none =>
      cases f with
      | raised r => exact runBody_honest c g _ _ _
      | _ => exact .pure rfl

theorem forward_honest (c : Ref .context) (g sub : Ref .generator) (v : Value) (w : World σ) :
    Alike (e.forward c g sub v) (e.forward c g sub v) w fun o w' => o.Honest g w' :=
  .bind .any fun a _ _ => settle_honest c g a _

theorem forwardThrow_honest (c : Ref .context) (g sub : Ref .generator) (exc : Exc)
    (hostTrace : Bool) (kind : ResumeKind) (w : World σ) :
    Alike (e.forwardThrow c g sub exc hostTrace kind) (e.forwardThrow c g sub exc hostTrace kind) w
      fun o w' => o.Honest g w' := by
  unfold forwardThrow
  split
  · refine .bind .any fun closed _ _ => .step rfl ?_
    rcases closed with f | _
    · cases f with
      | raised r => exact runBody_honest c g _ _ _
      | _ => exact .pure rfl
    · exact runBody_honest c g _ _ _
  · exact .bind .any fun a _ _ => settle_honest c g a _

theorem enter_uncaught (c : Ref .context) (g : Ref .generator) (w : World σ) :
    Alike (Exec.enter c g) (Exec.enter c g) w
      fun a _ => Uncaught a := by
  unfold Exec.enter
  refine .step (x := get) (a := w) rfl ?_
  obtain ⟨admitted, entered⟩ := (w.context c).enter
  refine .step rfl ?_
  cases admitted with
  | error cause =>
    exact .bind (fault_uncaught (.limit cause) _) fun f _ hf => .pure hf
  | ok _ => exact .step rfl (.pure trivial)

theorem inward_honest {x : Exec σ Outcome} (c : Ref .context) (g : Ref .generator)
    (hx : ∀ v, Alike x x v fun o w' => o.Honest g w') (w : World σ) :
    Alike (inward c g x) (inward c g x) w fun o w' => o.Honest g w' := by
  refine .bind (enter_uncaught c g w) fun a v hv => ?_
  cases a with
  | error f => exact .pure hv
  | ok _ =>
    refine .bind (hx v) fun o u ho => .step rfl (.pure ?_)
    cases o <;> exact ho

theorem advance_honest (hs : (w.generator g).state ≠ .finished) (c : Ref .context)
    (sent : Option Value) :
    Alike (e.advance c g sent) (e.advance c g sent) w fun o w' => o.Honest g w' := by
  refine .step (x := get) (a := w) rfl ?_
  dsimp only
  cases h : (w.generator g).state with
  | running => exact failed_honest _ g w
  | finished => exact absurd h hs
  | created | suspended =>
    refine .ite (failed_honest _ g w) ?_
    cases (w.generator g).delegate with
    | some sub => exact inward_honest c g (forward_honest c g sub _) w
    | none => exact inward_honest c g (runBody_honest c g _ _) w

theorem inject_honest (hs : (w.generator g).state = .suspended) (c : Ref .context) (exc : Exc)
    (hostTrace : Bool) :
    Alike (e.inject c g exc hostTrace) (e.inject c g exc hostTrace) w
      fun o w' => o.Honest g w' := by
  refine .step (x := get) (a := w) rfl ?_
  dsimp only
  rw [hs]
  cases (w.generator g).delegate with
  | some sub => exact inward_honest c g (forwardThrow_honest c g sub exc hostTrace _) w
  | none => exact inward_honest c g (runBody_honest c g _ _) w

theorem result_honest (o : Outcome) (w : World σ) :
    Alike (result o) (result o) w fun a w' => w'.history = w.history ∧ match o, a with
      | .yielded v, .ok v' => v' = v
      | .returned v, .error f => ∃ ref, f = .ofExc (.stop ref v)
      | .failed f, .error f' => f' = f
      | _, _ => False := by
  cases o with
  | yielded v => exact .pure ⟨rfl, rfl⟩
  | returned v => exact .step rfl (.pure ⟨rfl, _, rfl⟩)
  | failed f => exact .pure ⟨rfl, rfl⟩

end Engine

-- ---------------------------------------------------------------------------
-- What is reported
-- ---------------------------------------------------------------------------

def World.ReturnedTo (g : Ref .generator) (v : Value) (w w' : World σ) : Prop :=
  ∃ c name mid, w'.history =
    .traced c g (.finish name .returned) :: .left g (.ok (.returns v)) :: (mid ++ w.history)

theorem World.Settled.returnedTo {w w' : World σ} (hw : w.Settled)
    (hs : (w.generator g).state ≠ .finished) (hl : w'.history = later ++ w.history)
    (ho : (Outcome.returned v).Honest g w') : w.ReturnedTo g v w' := by
  obtain ⟨c, name, before, hh⟩ := ho
  have hstands : standing g w.history ≠ .finished := fun he => hs (by rw [hw.state_eq, he]; rfl)
  rw [hl] at hh
  rcases later with _ | ⟨x, _ | ⟨y, mid⟩⟩
  · rw [List.nil_append] at hh
    exact absurd (hh ▸ standing_finish) hstands
  · simp only [List.cons_append, List.nil_append, List.cons.injEq] at hh
    exact absurd (hh.2 ▸ standing_cons_of_some rfl rfl _) hstands
  · simp only [List.cons_append, List.cons.injEq] at hh
    obtain ⟨rfl, rfl, -⟩ := hh
    exact ⟨c, name, mid, hl⟩

def Outcome.Warranted (g : Ref .generator) (w w' : World σ) : Outcome → Prop
  | .yielded _ => True
  | .returned v => w.ReturnedTo g v w'
  | .failed f => f.isCaughtBy .stopIteration = false

/-- What is reported is the end of the iteration only if the body returned, and has its value. -/
def Failure.Warranted (g : Ref .generator) (w w' : World σ) (f : Failure) : Prop :=
  f.isCaughtBy .stopIteration = true → ∃ v ref, w.ReturnedTo g v w' ∧ f = .ofExc (.stop ref v)

namespace Engine

variable {e : Engine σ} {w w' : World σ}

/-- What comes of the operations on a generator that is suspended, or has not started and is not
thrown into. -/
def Warranted : {α : Type} → Request σ α → World σ → α → World σ → Prop
  | _, .resume g p, w, o, w' =>
    (w.generator g).state = .suspended ∨
      (w.generator g).state = .created ∧ p.bind (·.thrown?) = none → o.Warranted g w w'
  | _, .throw g type _ _, w, a, w' =>
    (w.generator g).state = .suspended → type.asExc.isSome →
      ∀ f, a = .error f → f.Warranted g w w'
  | _, _, _, _, _ => True

theorem warranted_of_honest {o : Outcome} (hw : w.Settled) (hs : (w.generator g).state ≠ .finished)
    (hk : w.Kept w') (ho : o.Honest g w') : o.Warranted g w w' := by
  obtain ⟨later, hl, -⟩ := hk.follows
  cases o with
  | yielded v => trivial
  | returned v => exact hw.returnedTo hs hl ho
  | failed f => exact ho

theorem resume_warranted (he : e.Trusts e) (hw : w.Settled) (c : Ref .context)
    (p : Option Payload)
    (hs : (w.generator g).state = .suspended ∨
      (w.generator g).state = .created ∧ p.bind (·.thrown?) = none) :
    Alike (e.resume c g p) (e.resume c g p) w fun o w' => o.Warranted g w w' := by
  have hne : (w.generator g).state ≠ .finished := by
    rcases hs with hs | ⟨hs, -⟩ <;> simp [hs]
  have hhonest : Alike (e.resume c g p) (e.resume c g p) w fun o w' => o.Honest g w' := by
    rcases p with _ | v | ⟨exc, hostTrace⟩
    · exact advance_honest hne c none
    · exact advance_honest hne c (some v)
    · exact inject_honest (hs.resolve_right (by simp [Payload.thrown?])) c exc hostTrace
  exact ((resume_alike he hw c g p).and hhonest).mono fun o w' h =>
    warranted_of_honest hw hne h.1.kept h.2

/-- A computation that befalls nothing, and fails with no end of an iteration. -/
def Harmless (x : Exec σ (Except Failure α)) : Prop :=
  ∀ w, Alike x x w fun r w' => w.Calm w' ∧ Uncaught r

namespace Harmless

theorem ok (a : α) : Harmless (pure (.ok a) : Exec σ (Except Failure α)) :=
  fun w => .pure ⟨.refl w, trivial⟩

theorem fault (f : Fault) :
    Harmless (do return .error (← Exec.fault f) : Exec σ (Except Failure α)) := fun w =>
  .bind ((Quiet.fault f w).and (fault_uncaught f w)) fun _ _ h => .pure h

theorem error {f : Failure} (hf : f.isCaughtBy .stopIteration = false) :
    Harmless (pure (.error f) : Exec σ (Except Failure α)) := fun w => .pure ⟨.refl w, hf⟩

theorem bind {x : Exec σ (Except Failure α)} {k : Except Failure α → Exec σ (Except Failure β)}
    (hx : Harmless x) (hk : ∀ r, Uncaught r → Harmless (k r)) : Harmless (x >>= k) := fun w =>
  .bind (hx w) fun r v hv => (hk r hv.2 v).mono fun _ _ h => ⟨hv.1.trans h.1, h.2⟩

theorem quiet {x : Exec σ α} {k : α → Exec σ (Except Failure β)} (hx : Quiet x)
    (hk : ∀ a, Harmless (k a)) : Harmless (x >>= k) := fun w =>
  .bind (hx w) fun a v hv => (hk a v).mono fun _ _ h => ⟨hv.trans h.1, h.2⟩

theorem ite {p : Prop} [Decidable p] {x y : Exec σ (Except Failure α)} (hx : Harmless x)
    (hy : Harmless y) : Harmless (if p then x else y) := fun w => .ite (hx w) (hy w)

end Harmless

theorem givenTraceback_harmless (t : Option Value) :
    Harmless (givenTraceback t : Exec σ (Except Failure (Option Traceback))) := by
  unfold givenTraceback
  split
  · exact .ok _
  · exact .ok _
  · exact .ok _
  · exact .fault _

theorem prepareException_harmless (c : Ref .context) (exc : Exc) (value : Option Value) :
    Harmless (e.prepareException c exc.value value) := by
  unfold prepareException
  simp only [Value.isExceptionClass, Exc.value, Bool.false_eq_true, if_false]
  split
  · exact .fault _
  · exact .ok _
  · exact .fault _

theorem thrown_harmless {type : Value} (ht : type.asExc.isSome) (c : Ref .context)
    (g : Ref .generator) (value traceback : Option Value) :
    Harmless (e.thrown c g type value traceback) := by
  obtain ⟨exc, rfl⟩ : ∃ exc : Exc, type = exc.value := by
    cases type with
    | exception r t c args => exact ⟨⟨r, t, c, args⟩, rfl⟩
    | _ => cases ht
  unfold thrown
  refine .quiet .of_get fun _ => .ite (.fault _) ?_
  refine .bind (givenTraceback_harmless traceback) fun t ht => ?_
  cases t with
  | error f => exact .error ht
  | ok t =>
    refine .bind (prepareException_harmless c exc value) fun r hr => ?_
    cases r with
    | error f => exact .error hr
    | ok exc =>
      refine .ite ?_ (.quiet (.modifyLinks exc _) fun _ => .ok _)
      exact .quiet (.modifyLinks exc _) fun _ => .quiet (.modifyLinks exc _) fun _ => .ok _

theorem throw_warranted (he : e.Trusts e) (hw : w.Settled) (hs : (w.generator g).state = .suspended)
    {type : Value} (ht : type.asExc.isSome) (c : Ref .context) (value traceback : Option Value) :
    Alike (e.throw c g type value traceback) (e.throw c g type value traceback) w
      fun a w' => ∀ f, a = .error f → f.Warranted g w w' := by
  refine .bind (thrown_harmless ht c g value traceback w) fun r v ⟨hcalm, hr⟩ => ?_
  cases r with
  | error f =>
    refine .pure ?_
    rintro _ ⟨⟩ hf
    exact absurd hf (by simp [show f.isCaughtBy .stopIteration = false from hr])
  | ok exc =>
    have hv := (hcalm.kept hw).settled
    have hsv : (v.generator g).state = .suspended := (congrArg Course.state (hcalm.course g)).trans hs
    refine .step (x := get) (a := v) rfl ?_
    refine .bind (resume_warranted he hv c (some (.throw exc _)) (.inl hsv)) fun o u ho => ?_
    refine (result_honest o u).mono fun a w' ⟨hhist, ha⟩ f haf hf => ?_
    subst haf
    cases o with
    | yielded x => exact ha.elim
    | failed f' =>
      have hf' : f'.isCaughtBy .stopIteration = false := ho
      exact absurd hf (by simp [ha, hf'])
    | returned x =>
      obtain ⟨ref, rfl⟩ := ha
      obtain ⟨c', name, mid, hu⟩ := ho
      exact ⟨x, ref, ⟨c', name, mid, by rw [hhist, hu, hcalm.history]⟩, rfl⟩

theorem warranted_of_answer (he : e.Trusts e) (hw : w.Settled) {q : Request σ α}
    (h : (e.answer c q).run w = some (a, w')) : Warranted q w a w' := by
  cases q with
  | resume g p => exact fun hs => (resume_warranted he hw c p hs).2 a w' h
  | throw g type value traceback =>
    exact fun hs ht => (throw_warranted he hw hs ht c value traceback).2 a w' h
  | _ => trivial

end Engine

-- ---------------------------------------------------------------------------
-- Runs
-- ---------------------------------------------------------------------------

def Outcome.reported (ref : Ref .exception) : Outcome → Except Failure Value
  | .yielded v => .ok v
  | .returned v => .error (.ofExc (.stop ref v))
  | .failed f => .error f

inductive Action.Resumes (g : Ref .generator) (k : Context) :
    Action σ Value → Option Payload → Prop
  | next : Resumes g k (next g) none
  | send (v : Value) : Resumes g k (send g v) (some (.send v))
  | throwException (e : Exc) :
      Resumes g k (throwException g e) (some (.throw e k.options.hostTraces))

namespace Host

variable {host : Host σ} {w w' : World σ}

theorem run_ofOutcome (host : Host σ) (n : Nat) (c : Ref .context) (o : Outcome) (w : World σ) :
    ∃ w', (host.run (n + 1) c (Action.ofOutcome o).run).run w =
        some (o.reported w.links.next, w') ∧ w'.history = w.history := by
  cases o with
  | returned v => exact ⟨{ w with links := w.links.add .none }, rfl, rfl⟩
  | _ => exact ⟨w, rfl, rfl⟩

theorem run_eq_of_resumes {op : Action σ Value} (hop : op.Resumes g (w.context c) p) (n : Nat) :
    (host.run (n + 1) c op.run).run w =
      ((host.answer (n + 1) c (.resume g p)).run w).bind fun r =>
        (host.run (n + 1) c (Action.ofOutcome r.1).run).run r.2 := by
  cases hop <;> rfl

theorem run_throwInto (host : Host σ) (n : Nat) (c : Ref .context) (g : Ref .generator)
    (type : Value) (value traceback : Option Value) :
    host.run (n + 1) c (Action.throwInto g type value traceback).run =
      Engine.throw ⟨host, host.answer n⟩ c g type value traceback := Prog.run_request ..

theorem run_resumes {op : Action σ Value} (hop : op.Resumes g (w.context c) p)
    (h : (host.run n c op.run).run w = some (a, w')) :
    ∃ o v, (host.answer n c (.resume g p)).run w = some (o, v) ∧ a = o.reported v.links.next ∧
      w'.history = v.history := by
  cases n with
  | zero => cases hop <;> cases h
  | succ n =>
    rw [run_eq_of_resumes hop] at h
    obtain ⟨⟨o, v⟩, hv, h⟩ := Option.bind_eq_some_iff.mp h
    obtain ⟨u, hu, hhist⟩ := run_ofOutcome host n c o v
    cases hu.symm.trans h
    exact ⟨o, v, hv, rfl, hhist⟩

def warranted : Rule σ := fun _ _ _ q w a w' => Engine.Warranted q w a w'

end Host

/-- In any run, what operations on generators that can be resumed report is the end of an iteration
only if the body returned meanwhile; and what a body lets escape is wrapped. -/
theorem stopIteration_only_of_return (host : Host σ) :
    (∀ s : σ, host.Upholds Host.warranted (.initial s)) ∧
    (∀ (n : Nat) (c : Ref .context) (g : Ref .generator) (op : Action σ Value)
      (p : Option Payload) (w w' : World σ) (a : Except Failure Value),
      op.Resumes g (w.context c) p → (host.run n c op.run).run w = some (a, w') →
      ∃ o v, (host.answer n c (.resume g p)).run w = some (o, v) ∧
        a = o.reported v.links.next ∧ w'.history = v.history) ∧
    ∀ (n : Nat) (c : Ref .context) (g : Ref .generator) (p : Option Payload) (kind : ResumeKind)
      (w u : World σ) (r : Raise),
      (host.run n c (host.body (w.generator g).target)).run (w.begun c g p kind) =
        some (.error (.raised r), u) →
      r.exc.isCaughtBy .stopIteration = true → u.links.Valid r.exc.ref →
      ∃ wrapper id w', (Engine.runBody ⟨host, host.answer n⟩ c g p kind).run w =
          some (.failed (.raised ⟨wrapper, r.hostTrace⟩), w') ∧
        w'.Wraps r.exc wrapper ∧
        (w'.linksOf r.exc).traceback = some (.push
          ⟨id, (u.generator g).exitSnapshot, (u.generator g).exitSnapshot.line⟩
          (u.linksOf r.exc).traceback) := by
  refine ⟨fun s => ?_, ?_, ?_⟩
  · refine Host.upholds_of_regime (r := .settled) Engine.answer_keeps (fun hw h => ?_) (.initial s)
    exact Engine.warranted_of_answer (host.trusts _) hw h
  · intro n c g op p w w' a hop h
    exact Host.run_resumes hop h
  · intro n c g p kind w u r hr hs hv
    exact Engine.runBody_stop hr hs hv

end Resumable
