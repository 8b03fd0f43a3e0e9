import Resumable.Proofs.Run.Watched

/-!
# The life of a generator

Whatever programs do with generators, nested as they like, a generator runs exactly while a call
of its own is in progress, refuses everything meanwhile, and is left by an operation as the run of
its body left it.
-/

namespace Resumable

variable {σ : Type}

-- ---------------------------------------------------------------------------
-- Calls in progress
-- ---------------------------------------------------------------------------

theorem dutyIn_eq_some (h : calls.Pairwise Call.Apart) :
    dutyIn g calls = some d ↔ ∃ x ∈ calls, x.duty? g = some d := by
  induction h with
  | nil => simp [dutyIn]
  | @cons x rest hx _ ih =>
    rw [dutyIn_cons]
    constructor
    · intro hd
      rcases Option.or_eq_some_iff.mp hd with hd | ⟨-, hd⟩
      · exact ⟨x, List.mem_cons_self .., hd⟩
      · obtain ⟨y, hy, hyd⟩ := ih.mp hd
        exact ⟨y, List.mem_cons_of_mem _ hy, hyd⟩
    · rintro ⟨y, hy, hyd⟩
      rcases List.mem_cons.mp hy with rfl | hy
      · rw [hyd]
        rfl
      · have hxn : x.duty? g = none := (hx y hy g).resolve_right (by simp [hyd])
        rw [hxn, Option.none_or]
        exact ih.mpr ⟨y, hy, hyd⟩

namespace World

variable {w w' : World σ}

def RunsBody (w : World σ) (g : Ref .generator) : Prop :=
  ∃ c a, Call.level ⟨g, c, .running a⟩ ∈ w.calls

def Forwards (w : World σ) (g : Ref .generator) : Prop :=
  ∃ c, Call.level ⟨g, c, .forwarding⟩ ∈ w.calls

theorem dutyIn_calls (h : w.calls.Pairwise Call.Apart) :
    dutyIn g w.calls = some d ↔ ∃ c a, Call.level ⟨g, c, a⟩ ∈ w.calls ∧ a.duty? = some d := by
  rw [dutyIn_eq_some h]
  constructor
  · rintro ⟨x, hm, hx⟩
    cases x with
    | hook => cases hx
    | level l =>
      obtain ⟨g', c, a⟩ := l
      by_cases hg : g' = g
      · subst hg
        exact ⟨c, a, hm, by rwa [Call.duty?_level_self] at hx⟩
      · rw [Call.duty?_level_of_ne hg] at hx
        cases hx
  · rintro ⟨c, a, hm, ha⟩
    exact ⟨_, hm, (Call.duty?_level_self g c a).trans ha⟩

theorem runsBody_iff (h : w.calls.Pairwise Call.Apart) :
    w.RunsBody g ↔ dutyIn g w.calls = some .body := by
  rw [dutyIn_calls h]
  constructor
  · rintro ⟨c, a, hm⟩
    exact ⟨c, .running a, hm, rfl⟩
  · rintro ⟨c, a, hm, ha⟩
    cases a with
    | running a => exact ⟨c, a, hm⟩
    | _ => cases ha

theorem forwards_iff (h : w.calls.Pairwise Call.Apart) :
    w.Forwards g ↔ dutyIn g w.calls = some .forwarding := by
  rw [dutyIn_calls h]
  constructor
  · rintro ⟨c, hm⟩
    exact ⟨c, .forwarding, hm, rfl⟩
  · rintro ⟨c, a, hm, ha⟩
    cases a with
    | forwarding => exact ⟨c, hm⟩
    | _ => cases ha

structure Staged (w : World σ) : Prop where
  running : ∀ g, (w.generator g).state = .running ↔ w.RunsBody g ∨ w.Forwards g
  delegating : ∀ g, (w.generator g).delegate ≠ none →
    (w.generator g).state = .suspended ∨ (w.generator g).state = .running ∧ w.Forwards g
  inBody : ∀ g, w.RunsBody g → (w.generator g).delegate = none
  created : ∀ g, (w.generator g).state = .created →
    (∀ p, .entered g p ∉ w.history) ∧ (w.generator g).offset = -1
  /-- The offset is that of the last yield. -/
  offset : ∀ g, (w.generator g).offset = (latest Happening.offset? g w.history).getD (-1)
  /-- The entry point is the one that a yield changed to last, or the first one. -/
  target : ∀ g, (w.generator g).target = (latest Happening.target? g w.history).getD default

theorem Settled.staged (hw : w.Settled) : w.Staged where
  running g := by
    rw [hw.running_iff, runsBody_iff hw.apart, forwards_iff hw.apart]
    rcases dutyIn g w.calls with _ | _ | _ <;> simp
  delegating g hd := by
    rw [hw.delegate_eq] at hd
    rw [hw.state_eq, forwards_iff hw.apart, hw.duty]
    cases hs : standing g w.history with
    | suspended d => exact .inl rfl
    | forwarding sub => exact .inr ⟨rfl, rfl⟩
    | _ =>
      rw [hs] at hd
      exact absurd rfl hd
  inBody g hb := by
    rw [runsBody_iff hw.apart, hw.duty, Standing.duty?_eq_body] at hb
    rw [hw.delegate_eq, hb]
    rfl
  created g hs := by
    have hfresh := hw.standing_of_created hs
    have hnothing := hw.lawful.of_fresh hfresh
    refine ⟨fun p hp => (by cases hnothing _ hp rfl), ?_⟩
    refine (congrArg Course.offset (hw.course g)).trans ?_
    simp [Course.ofHistory, latest_eq_none fun x hx hg => Happening.offset?_eq_none (hnothing x hx hg)]
  offset g := congrArg Course.offset (hw.course g)
  target g := congrArg Course.target (hw.course g)

-- ---------------------------------------------------------------------------
-- Operations
-- ---------------------------------------------------------------------------

/-- All that comes of an operation is that an exception is made and raised. -/
def Refuses (w : World σ) (f : Failure) (w' : World σ) : Prop :=
  ∃ message : TextRef, message.text = "generator already executing" ∧
    f = .raised ⟨⟨w.links.next, .valueError, none, [.text message]⟩, false⟩ ∧
    w' = { w with identities := w.identities + 1, links := w.links.add .none }

/-- If the body of `g` ran, `g` is suspended where it yielded, and finished where it did not. -/
def EndsAsLeft (g : Ref .generator) (w w' : World σ) : Prop :=
  ∃ later, w'.history = later ++ w.history ∧
    ((∃ p, .entered g p ∈ later) → ∃ r, .left g r ∈ later) ∧
    ∀ r, .left g r ∈ later → (w'.generator g).state = match r with
      | .ok (.yields _) => .suspended
      | _ => .finished

theorem Resumed.endsAsLeft (h : w.Resumed g w') : w.EndsAsLeft g w' := by
  obtain ⟨later, hl, -, he, hr⟩ := h.follows
  refine ⟨later, hl, fun ⟨p, hp⟩ => he p hp, fun r hm => ?_⟩
  rw [h.settled.state_eq, hr r hm]
  rcases r with _ | _ | _ <;> rfl

end World

namespace Engine

variable {e : Engine σ} {w : World σ}

def Orderly (e : Engine σ) (c : Ref .context) :
    {α : Type} → Request σ α → World σ → α → World σ → Prop
  | _, .resume g _, w, o, w' =>
    ((w.generator g).state = .running → ∃ f, o = .failed f ∧ w.Refuses f w') ∧ w.EndsAsLeft g w'
  | _, .throw g type value traceback, w, a, w' =>
    ((w.generator g).state = .running → ∃ f, a = .error f ∧ w.Refuses f w') ∧
    ∀ exc v, (e.thrown c g type value traceback).run w = some (.ok exc, v) → v.EndsAsLeft g w'
  | _, .close g, w, a, w' =>
    ((w.generator g).state = .running → ∃ f, a = .error f ∧ w.Refuses f w') ∧
    ((w.generator g).state ≠ .running → (w'.generator g).state = .finished)
  | _, _, _, _, _ => True

theorem fault_refuses (w : World σ) :
    ∃ f w', (Exec.fault .alreadyExecuting).run w = some (f, w') ∧ w.Refuses f w' :=
  ⟨_, _, rfl, ⟨w.identities, Fault.alreadyExecuting.message⟩, rfl, rfl, rfl⟩

theorem resume_running (h : (w.generator g).state = .running) (p : Option Payload) :
    ∃ f w', (e.resume c g p).run w = some (.failed f, w') ∧ w.Refuses f w' := by
  obtain ⟨f, w', hf, hw'⟩ := fault_refuses w
  refine ⟨f, w', ?_, hw'⟩
  rcases p with _ | v | ⟨exc, hostTrace⟩
  · simp [resume, advance, h, failed, hf]
  · simp [resume, advance, h, failed, hf]
  · simp [resume, inject, h, failed, hf]

theorem throw_running (h : (w.generator g).state = .running) :
    ∃ f w', (e.throw c g type value traceback).run w = some (.error f, w') ∧ w.Refuses f w' := by
  obtain ⟨f, w', hf, hw'⟩ := fault_refuses w
  refine ⟨f, w', ?_, hw'⟩
  simp [throw, thrown, h, hf]

theorem close_running (h : (w.generator g).state = .running) :
    ∃ f w', (e.close c g).run w = some (.error f, w') ∧ w.Refuses f w' := by
  obtain ⟨f, w', hf, hw'⟩ := fault_refuses w
  refine ⟨f, w', ?_, hw'⟩
  simp [close, h, hf]

theorem injected_alike (he : e.Trusts e) (hw : w.Settled) (c : Ref .context) (g : Ref .generator)
    (exc : Exc) :
    Exec.Alike
      (do let outcome ← e.inject c g exc ((← get).context c).options.hostTraces; result outcome)
      (do let outcome ← e.inject c g exc ((← get).context c).options.hostTraces; result outcome) w
      fun _ w' => w.Resumed g w' := by
  refine .step (x := get) (a := w) rfl (.bind (inject_alike he hw c g exc _) fun o v hv => ?_)
  exact (result_quiet o v).mono fun _ w' h => hv.idled h.toIdle

theorem orderly_of_answer (he : e.Trusts e) (hw : w.Settled) {q : Request σ α}
    (h : (e.answer c q).run w = some (a, w')) : e.Orderly c q w a w' := by
  cases q with
  | resume g p =>
    refine ⟨fun hr => ?_, ((resume_alike he hw c g p).2 a w' h).endsAsLeft⟩
    obtain ⟨f, v, hv, hf⟩ := resume_running (e := e) (c := c) hr p
    cases h.symm.trans hv
    exact ⟨f, rfl, hf⟩
  | throw g type value traceback =>
    refine ⟨fun hr => ?_, fun exc v hv => ?_⟩
    · obtain ⟨f, v, hv, hf⟩ := throw_running (e := e) (c := c) hr
      cases h.symm.trans hv
      exact ⟨f, rfl, hf⟩
    · have hkept := (thrown_follows he c g type value traceback w hw).2 _ _ hv
      refine ((injected_alike he hkept.settled c g exc).2 a w' ?_).endsAsLeft
      simp only [answer, throw, StateT.run_bind, hv] at h
      exact h
  | close g =>
    refine ⟨fun hr => ?_, ((close_alike he hw c g).2 a w' h).2⟩
    obtain ⟨f, v, hv, hf⟩ := close_running (e := e) (c := c) hr
    cases h.symm.trans hv
    exact ⟨f, rfl, hf⟩
  | _ => trivial

end Engine

-- ---------------------------------------------------------------------------
-- Bodies that do not look at what is thrown in
-- ---------------------------------------------------------------------------

theorem Engine.runBody_ignored {e : Engine σ} {w u : World σ}
    (hr : (e.perform c (e.host.body (w.generator g).target)).run (w.begun c g p kind) =
      some (.ok b, u)) (hp : u.activation?.any (·.hasPendingThrow) = true) :
    ∃ t w', (e.runBody c g p kind).run w =
        some (.failed (.internal "call target ignored a thrown exception"), w') ∧
      w'.history = t :: .left g (.error (.internal "call target ignored a thrown exception")) ::
        u.history := by
  have hheeded : (heeded (.ok b)).run u =
      some (.error (.internal "call target ignored a thrown exception"), u) := by
    simp [heeded, hp]
  rw [runBody_run, hr, Option.bind_some, StateT.run_bind, hheeded]
  refine ⟨.traced c g (.finish (w.generator g).qualifiedName .raised), _, rfl, ?_⟩
  simp

/-- What is checked of every answer. -/
def Host.orderly : Host.Rule σ := fun _ e c q w a w' =>
  w.Staged ∧ w'.Staged ∧ (∃ later, w'.history = later ++ w.history) ∧ e.Orderly c q w a w'

theorem lifecycle (host : Host σ) (n : Nat) :
    (∀ (α : Type) (c : Ref .context) (p : Prog σ α) (s : σ),
      (host.runWatched Host.orderly n c p).run (.initial s) = (host.run n c p).run (.initial s) ∧
      ∀ a w, (host.run n c p).run (.initial s) = some (a, w) → w.Staged) ∧
    ∀ (c : Ref .context) (g : Ref .generator) (p : Option Payload) (kind : ResumeKind)
      (w u : World σ) (b : BodyResult),
      (host.run n c (host.body (w.generator g).target)).run (w.begun c g p kind) =
        some (.ok b, u) → u.activation?.any (·.hasPendingThrow) = true →
      ∃ t w', (Engine.runBody ⟨host, host.answer n⟩ c g p kind).run w =
          some (.failed (.internal "call target ignored a thrown exception"), w') ∧
        w'.history = t :: .left g (.error (.internal "call target ignored a thrown exception")) ::
          u.history := by
  refine ⟨fun α c p s => ⟨Host.runWatched_eq (fun he hw h => ?_) n c p (.initial s), ?_⟩, ?_⟩
  · have hkept := (Engine.answer_keeps he _ _ _ hw).2 _ _ h
    obtain ⟨later, hl, -⟩ := hkept.follows
    exact ⟨hw.staged, hkept.settled.staged, ⟨later, hl⟩, Engine.orderly_of_answer he hw h⟩
  · intro a w h
    exact ((Engine.perform_keeps (host.trusts n) c p _ (.initial s)).2 a w h).settled.staged
  · intro c g p kind w u b hr hp
    exact Engine.runBody_ignored hr hp

end Resumable
