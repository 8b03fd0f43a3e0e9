import Resumable.Proofs.Generator.Exits

/-!
# Traces of the host

What is thrown into a generator carries a trace of the host if the options ask for one. Bodies that
raise it again pass the trace on with it. A delegate that fails does not: what it raised is thrown
into the body above it without a trace. Only an exception that asks to exit is not passed on to a
delegate, and keeps its trace at any distance.
-/

namespace Resumable

variable {σ : Type}

-- ---------------------------------------------------------------------------
-- Chains that end
-- ---------------------------------------------------------------------------

namespace World

variable {w x : World σ}

theorem Passes.unique (h : w.Passes g outer innermost) (h' : w.Passes g outer' innermost)
    (hd : (w.generator innermost).delegate = none) : outer = outer' := by
  induction h generalizing outer' with
  | here =>
    cases h' with
    | here => rfl
    | on _ hsub _ => cases hd.symm.trans hsub
  | on _ hsub _ ih =>
    cases h' with
    | here => cases hd.symm.trans hsub
    | on _ hsub' hrest =>
      cases hsub.symm.trans hsub'
      rw [ih hrest hd]

theorem Passes.behind (h : w.Passes g outer innermost) (hm : g' ∈ outer) :
    ∃ rest, w.Passes g' (g' :: rest) innermost ∧ rest.length < outer.length := by
  induction h with
  | here => cases hm
  | @on _ _ outer _ hs hsub hrest ih =>
    rcases List.mem_cons.mp hm with rfl | hm
    · exact ⟨outer, .on hs hsub hrest, Nat.lt_succ_self _⟩
    · obtain ⟨rest, hbehind, hlt⟩ := ih hm
      exact ⟨rest, hbehind, Nat.lt_succ_of_lt hlt⟩

theorem Passes.nodup (h : w.Passes g outer innermost)
    (hd : (w.generator innermost).delegate = none) : (outer ++ [innermost]).Nodup := by
  induction h with
  | here => simp
  | on hs hsub hrest ih =>
    refine List.nodup_cons.mpr ⟨fun hm => ?_, ih hd⟩
    rcases List.mem_append.mp hm with hm | hm
    · obtain ⟨rest, hbehind, hlt⟩ := hrest.behind hm
      cases (Passes.on hs hsub hrest).unique hbehind hd
      exact absurd hlt (Nat.lt_irrefl _)
    · cases List.mem_singleton.mp hm
      cases hd.symm.trans hsub

end World

-- ---------------------------------------------------------------------------
-- Bodies
-- ---------------------------------------------------------------------------

/-- What becomes of an exception that a body does not catch: the end of an iteration is replaced. -/
def Exc.Surfaces (exc e' : Exc) : Prop :=
  exc.isCaughtBy .stopIteration = false ∧ e' = exc ∨
    exc.isCaughtBy .stopIteration = true ∧ e'.type = .runtimeError

theorem Exc.Surfaces.uncaught (h : Exc.Surfaces exc e') :
    e'.isCaughtBy .stopIteration = false := by
  rcases h with ⟨hs, rfl⟩ | ⟨-, htype⟩
  · exact hs
  · rw [Exc.isCaughtBy, htype]
    rfl

theorem Exc.Surfaces.eq_of_uncaught (h : Exc.Surfaces exc e')
    (hs : exc.isCaughtBy .stopIteration = false) : e' = exc := by
  rcases h with ⟨-, rfl⟩ | ⟨hstop, -⟩
  · rfl
  · cases hs.symm.trans hstop

namespace Host

variable {host : Host σ} {w x y v u w' : World σ}

/-- A body that stands where `x` does raises what is thrown in, with the trace it carries. -/
def Rethrows (host : Host σ) (n : Nat) (c : Ref .context) (x : Generator) : Prop :=
  ∀ (u : World σ) (exc : Exc) (hostTrace : Bool), u.Settled →
    u.activation? = some ⟨x.template.forResumption (some (.throw exc hostTrace)), x.offset⟩ →
    ∃ v, (host.run n c (host.body x.target)).run u = some (.error (.raised ⟨exc, hostTrace⟩), v)

theorem rethrows_of_take {x : Generator} {k : Value → Action σ BodyResult}
    (h : host.body x.target = (Action.take >>= k).run) (n : Nat) (c : Ref .context) :
    host.Rethrows (n + 1) c x := by
  intro u exc hostTrace _ ha
  let taken := u.setActivity (.running ⟨{ x.template.forResumption (some (.throw exc hostTrace))
    with payload := none }, x.offset⟩)
  have htake : (host.answer (n + 1) c .take).run u =
      some (.error (.raised ⟨exc, hostTrace⟩), taken) := by
    change Exec.takePayload.run u = _
    simp [Exec.takePayload, ha, Arguments.forResumption]
    rfl
  refine ⟨taken, ?_⟩
  rw [h]
  change Option.bind ((host.answer (n + 1) c .take).run u) _ = _
  rw [htake]
  rfl

section

variable (hre : host.Rethrows m c (w.generator g))
  (hy : w.Starts c g (some (.throw exc hostTrace)) y) (kind : ResumeKind)
include hre hy

theorem Rethrows.ran : ∃ u, Engine.BodyRan ⟨host, host.answer m⟩ c g (.throw exc hostTrace) kind y
    (.error (.raised ⟨exc, hostTrace⟩)) u := by
  obtain ⟨u, hu⟩ := hre _ exc hostTrace (hy.settled kind) (hy.activation kind)
  rw [← hy.target_eq] at hu
  exact ⟨u, hu⟩

theorem Rethrows.surfaces : ∃ e' z,
    (Engine.runBody ⟨host, host.answer m⟩ c g (some (.throw exc hostTrace)) kind).run y =
      some (.failed (.raised ⟨e', hostTrace⟩), z) ∧ exc.Surfaces e' := by
  obtain ⟨u, hu⟩ := hre.ran hy kind
  obtain ⟨⟨o, z⟩, hz⟩ := Option.isSome_iff_exists.mp
    (Engine.runBody_returns (Option.isSome_iff_exists.mpr ⟨_, hu⟩))
  obtain ⟨r, u', hu', hleaves⟩ := (Engine.runBody_leaves c g _ kind y).2 o z hz
  have hsame : some (_, _) = some (_, _) := hu.symm.trans hu'
  cases hsame
  cases hleaves with
  | failed hescapes =>
    cases hescapes with
    | replaced hs hreplaces => exact ⟨_, z, hz, .inr ⟨hs, hreplaces.type⟩⟩
    | asIs hs => exact ⟨exc, z, hz, .inl ⟨hs, rfl⟩⟩

end

-- ---------------------------------------------------------------------------
-- Chains of bodies that raise again
-- ---------------------------------------------------------------------------

/-- A chain of delegates that ends in `innermost`, whose bodies raise again what is thrown in, and
which the limits admit. -/
structure Rethrowing (host : Host σ) (m : Nat) (c : Ref .context) (w : World σ)
    (g : Ref .generator) (outer : List (Ref .generator)) (innermost : Ref .generator) : Prop where
  passes : w.Passes g outer innermost
  suspended : (w.generator innermost).state = .suspended
  last : (w.generator innermost).delegate = none
  admits : (w.context c).Admits (outer.length + 1)
  rethrows : ∀ g' ∈ outer ++ [innermost], ∀ k, m ≤ k → host.Rethrows k c (w.generator g')

theorem Rethrowing.passed (h : host.Rethrowing m c w g (g' :: outer) innermost) :
    (w.generator g).state = .suspended ∧ ∃ sub, (w.generator g).delegate = some sub ∧
      ∀ x, w.Goes c g x → host.Rethrowing m c (x.passedOn g sub) sub outer innermost := by
  have hn := h.passes.nodup h.last
  obtain ⟨hpasses, hsuspended, hlast, hadmits, hrethrows⟩ := h
  cases hpasses with
  | @on _ sub _ _ hs hd hrest =>
    have hgens : ∀ x, w.Goes c g x → ∀ g'' ∈ outer ++ [innermost],
        (x.passedOn g sub).generator g'' = w.generator g'' := fun x hx g'' hm =>
      (World.generator_passedOn_of_ne (ne_of_mem_of_not_mem hm (List.nodup_cons.mp hn).1)).trans
        (hx.generator_eq g'')
    refine ⟨hs, sub, hd, fun x hx => ⟨?_, ?_, ?_, ?_, fun g'' hm k hk => ?_⟩⟩
    · exact hrest.congr fun g'' hm => hgens x hx g'' (List.mem_append_left _ hm)
    · rwa [hgens x hx _ (by simp)]
    · rwa [hgens x hx _ (by simp)]
    · rw [World.context_passedOn]
      exact hx.admits _ hadmits
    · rw [hgens x hx g'' hm]
      exact hrethrows g'' (List.mem_cons_of_mem _ hm) k hk

theorem Rethrowing.first (h : host.Rethrowing m c w g outer innermost) (hk : m ≤ k) :
    host.Rethrows k c (w.generator g) := by
  obtain ⟨hpasses, -, -, -, hrethrows⟩ := h
  cases hpasses with
  | here => exact hrethrows g (List.mem_singleton_self g) k hk
  | on => exact hrethrows g (List.mem_cons_self ..) k hk

-- ---------------------------------------------------------------------------
-- Closing a chain
-- ---------------------------------------------------------------------------

theorem Rethrows.closes (hre : host.Rethrows m c (w.generator g)) (hw : w.Settled)
    (hs : (w.generator g).state = .suspended) (hk : (w.context c).Admits (n + 1))
    (hx : Engine.Delivers ⟨host, host.answer m⟩ c g w exit v)
    (hexit : exit.isCaughtBy .generatorExit = true)
    (hv : w.Starts c g (some (.throw exit false)) v) :
    ∃ w', (host.answer (m + 1) c (.close g)).run w = some (.ok (), w') := by
  obtain ⟨u, hran⟩ := hre.ran hv .close
  have hstalls : ¬ Engine.Stalls ⟨host, host.answer m⟩ c g w := by
    rintro (⟨hd, hnone⟩ | ⟨hx', hnone⟩)
    · cases hx with
      | directly hd' => cases hd.symm.trans hd'
      | closed hd' hu _ =>
        cases hd.symm.trans hd'
        cases hnone.symm.trans hu
    · obtain ⟨rfl, rfl⟩ := hx.unique hx'
      cases hnone.symm.trans hran
  obtain ⟨⟨a, w'⟩, hclosed⟩ :=
    Option.isSome_iff_exists.mp (Engine.close_returns fun _ _ => hstalls)
  have hcloses := (Engine.close_closes (host.trusts m) hw (by rw [hs]; nofun) c).2 a w' hclosed
  have henter : (w.context c).enter.1 = .ok () := by rw [hk.enter_eq]
  obtain rfl := hcloses.ok_iff.mpr (.inr (.inr ⟨hs, henter, .escaped hx hran hexit⟩))
  exact ⟨w', hclosed⟩

theorem starts_exited (hx : w.Goes c g x) (hs : (w.generator g).state = .suspended)
    (hd : (w.generator g).delegate = some sub)
    (hu : (host.answer m c (.close sub)).run (x.passedOn g sub) = some (.ok (), u)) (exit : Exc)
    (hostTrace : Bool) : w.Starts c g (some (.throw exit hostTrace))
      (u.givenUp (.exited g sub exit hostTrace (.ok ()))) := by
  have hkept := ((host.trusts m).ask c (.close sub) _ (hx.passedOn hs hd)).2 _ _ hu
  have hgrown := ((host.tracked m).ask c (.close sub) _).2 _ _ hu |>.grown
  exact hx.starts_heard hs hd hkept hgrown rfl .exited rfl

/-- By induction on the chain: each delegate exits before the body above it is asked to. -/
theorem Rethrowing.closes (h : host.Rethrowing m c w g outer innermost) (hw : w.Settled)
    (hn : m + outer.length ≤ n) :
    ∃ w', (host.answer (n + 1) c (.close g)).run w = some (.ok (), w') := by
  have hgoes := hw.goes_readied c g
  induction outer generalizing g w n with
  | nil =>
    have hfirst := h.first hn
    obtain ⟨hpasses, hs, hd, hk, -⟩ := h
    cases hpasses
    exact hfirst.closes hw hs hk (.directly hd) rfl (hgoes.starts hs hd _)
  | cons g' outer ih =>
    obtain ⟨hs, sub, hd, hpassed⟩ := h.passed
    obtain ⟨k, rfl⟩ := Nat.exists_eq_add_one_of_ne_zero (Nat.ne_zero_of_lt hn)
    have hsub := hgoes.passedOn hs hd
    obtain ⟨u, hu⟩ := ih (hpassed _ hgoes) hsub (Nat.le_of_succ_le_succ hn)
      (hsub.goes_readied c sub)
    have hfirst := h.first (Nat.le_trans (Nat.le_add_right ..) hn)
    exact hfirst.closes hw hs h.admits (.closed hd hu rfl) rfl
      (starts_exited hgoes hs hd hu _ false)

end Host

-- ---------------------------------------------------------------------------
-- Throwing into a chain
-- ---------------------------------------------------------------------------

namespace Engine

variable {e : Engine σ} {w u : World σ}

theorem forwardThrow_exited (hexit : exit.isCaughtBy .generatorExit = true)
    (h : (e.ask c (.close sub)).run (w.passedOn g sub) = some (.ok (), u)) (hostTrace : Bool)
    (kind : ResumeKind) :
    (e.forwardThrow c g sub exit hostTrace kind).run w =
      (e.runBody c g (some (.throw exit hostTrace)) kind).run
        (u.givenUp (.exited g sub exit hostTrace (.ok ()))) := by
  let done : Except Failure Unit := .ok ()
  have hclosed : (e.closeDelegate c g sub exit hostTrace).run w =
      some (done, u.heard (.exited g sub exit hostTrace done)) := by
    rw [closeDelegate_run, h]
    rfl
  have hdropped : (dropDelegate g).run (u.heard (.exited g sub exit hostTrace done)) =
      some ((), u.givenUp (.exited g sub exit hostTrace done)) := rfl
  unfold forwardThrow
  rw [if_pos hexit, StateT.run_bind, hclosed, Option.bind_eq_bind, Option.bind_some,
    StateT.run_bind, hdropped, Option.bind_eq_bind, Option.bind_some]

end Engine

namespace Host

variable {host : Host σ} {w v : World σ}

theorem Rethrows.answer (hre : host.Rethrows m c (w.generator g)) (hw : w.Settled)
    (hs : (w.generator g).state = .suspended) (hd : (w.generator g).delegate = none)
    (hk : (w.context c).Admits (n + 1)) (exc : Exc) (hostTrace : Bool) : ∃ e' w',
    (host.answer (m + 1) c (.resume g (some (.throw exc hostTrace)))).run w =
      some (.failed (.raised ⟨e', hostTrace⟩), w') ∧ exc.Surfaces e' := by
  obtain ⟨e', z, hz, hsurfaces⟩ := hre.surfaces ((hw.goes_inward c g).starts hs hd _) .throw
  refine ⟨e', z.outward c, ?_, hsurfaces⟩
  change (Engine.resume ⟨host, host.answer m⟩ c g (some (.throw exc hostTrace))).run w = _
  rw [Engine.resume_undelegated hs hd, Engine.inward_run hk]
  exact congrArg (Option.bind · _) hz

theorem Rethrows.answer_exited (hre : host.Rethrows m c (w.generator g)) (hw : w.Settled)
    (hs : (w.generator g).state = .suspended) (hd : (w.generator g).delegate = some sub)
    (hk : (w.context c).Admits (n + 1)) (hexit : exc.isCaughtBy .generatorExit = true)
    (h : (host.answer m c (.close sub)).run (w.handedOn c g sub) = some (.ok (), u))
    (hostTrace : Bool) : ∃ e' w',
    (host.answer (m + 1) c (.resume g (some (.throw exc hostTrace)))).run w =
      some (.failed (.raised ⟨e', hostTrace⟩), w') ∧ exc.Surfaces e' := by
  have hgoes := hw.goes_inward c g
  obtain ⟨e', z, hz, hsurfaces⟩ := hre.surfaces (starts_exited hgoes hs hd h exc hostTrace) .throw
  refine ⟨e', z.outward c, ?_, hsurfaces⟩
  change (Engine.inject ⟨host, host.answer m⟩ c g exc hostTrace).run w = _
  rw [Engine.inject_suspended hs, hd, Engine.inward_run hk]
  exact congrArg (Option.bind · _) ((Engine.forwardThrow_exited hexit h hostTrace .throw).trans hz)

theorem Rethrows.answer_failed (hre : host.Rethrows m c (w.generator g)) (hw : w.Settled)
    (hs : (w.generator g).state = .suspended) (hd : (w.generator g).delegate = some sub)
    (hk : (w.context c).Admits (n + 1)) (hp : p.any (·.exits) = false)
    (h : (host.answer m c (.resume sub (some (p.getD (.send .none))))).run (w.handedOn c g sub) =
      some (.failed (.raised ⟨exc, hostTrace⟩), u))
    (hstop : exc.isCaughtBy .stopIteration = false) : ∃ w',
    (host.answer (m + 1) c (.resume g p)).run w = some (.failed (.raised ⟨exc, false⟩), w') := by
  have henters := enters_failed hd h (Failure.delivered_raised hstop hostTrace)
  obtain ⟨e', z, hz, hsurfaces⟩ := hre.surfaces (henters.starts hw hs) .throw
  obtain rfl := hsurfaces.eq_of_uncaught hstop
  refine ⟨z.outward c, ?_⟩
  rw [henters.answer hs hk hp]
  exact congrArg (Option.bind · _) hz

theorem Rethrowing.answer (h : host.Rethrowing m c w g outer innermost) (hw : w.Settled)
    (hn : m + outer.length ≤ n) (exc : Exc) (hostTrace : Bool) : ∃ e' w',
    (host.answer (n + 1) c (.resume g (some (.throw exc hostTrace)))).run w =
      some (.failed (.raised
        ⟨e', hostTrace && (outer.isEmpty || exc.isCaughtBy .generatorExit)⟩), w') ∧
      exc.Surfaces e' := by
  induction outer generalizing g w n with
  | nil =>
    have hfirst := h.first hn
    obtain ⟨hpasses, hs, hd, hk, -⟩ := h
    cases hpasses
    simpa using hfirst.answer hw hs hd hk exc hostTrace
  | cons g' outer ih =>
    obtain ⟨hs, sub, hd, hpassed⟩ := h.passed
    obtain ⟨k, rfl⟩ := Nat.exists_eq_add_one_of_ne_zero (Nat.ne_zero_of_lt hn)
    have hgoes := hw.goes_inward c g
    have hsub := hgoes.passedOn hs hd
    have hle : m + outer.length ≤ k := Nat.le_of_succ_le_succ hn
    have hfirst := h.first (Nat.le_trans (Nat.le_add_right ..) hn)
    cases hexit : exc.isCaughtBy .generatorExit with
    | true =>
      obtain ⟨u, hu⟩ := (hpassed _ hgoes).closes hsub hle
      simpa using hfirst.answer_exited hw hs hd h.admits hexit hu hostTrace
    | false =>
      obtain ⟨e', u, hu, hsurfaces⟩ := ih (hpassed _ hgoes) hsub hle
      obtain ⟨w', hw'⟩ := hfirst.answer_failed (p := some (.throw exc hostTrace)) hw hs hd h.admits
        hexit hu hsurfaces.uncaught
      exact ⟨e', w', by simpa using hw', hsurfaces⟩

end Host

-- ---------------------------------------------------------------------------
-- Runs
-- ---------------------------------------------------------------------------

/-- In any run, what is thrown into a chain of delegates whose bodies raise it again comes out with
a trace of the host if and only if the options ask for one and either there is no delegate, or the
exception asks to exit. The end of an iteration comes out replaced. -/
theorem host_trace_of_thrown (host : Host σ) :
    (∀ s : σ, host.Upholds Host.settled (.initial s)) ∧
    (∀ (x : Generator) (k : Value → Action σ BodyResult),
      host.body x.target = (Action.take >>= k).run → ∀ n c, host.Rethrows (n + 1) c x) ∧
    ∀ (m n : Nat) (c : Ref .context) (g innermost : Ref .generator) (outer : List (Ref .generator))
      (op : Action σ Value) (exc : Exc) (w v : World σ), w.Settled →
      host.Begins n c g op (some (.throw exc (v.context c).options.hostTraces)) w v →
      host.Rethrowing m c v g outer innermost → m + outer.length ≤ n → ∃ e' w',
      (host.run (n + 1) c op.run).run w = some (.error (.raised
        ⟨e', (v.context c).options.hostTraces &&
          (outer.isEmpty || exc.isCaughtBy .generatorExit)⟩), w') ∧ exc.Surfaces e' := by
  refine ⟨host.upholds_settled, fun _ _ => Host.rethrows_of_take, ?_⟩
  intro m n c g innermost outer op exc w v hw hbegins h hn
  obtain ⟨e', w', hw', hsurfaces⟩ := h.answer (hbegins.settled hw) hn exc _
  exact ⟨e', w', hbegins.run_failed hw', hsurfaces⟩

def tracedRelay : World Unit :=
  startedRelay.2.modifyContext ⟨0⟩ fun k =>
    { k with options := { k.options with hostTraces := true } }

theorem tracedRelay_started : RelayStarted tracedRelay where
  settled := (relay_started.settled.modifyContext ..).settled
  valid := World.valid_modifyContext.mpr relay_started.valid
  passes := relay_started.passes.congr fun _ _ => rfl
  suspended := relay_started.suspended
  last := relay_started.last
  admits := ⟨by decide +kernel, by decide +kernel⟩

theorem RelayStarted.rethrowing (h : RelayStarted w) (hp : w.Passes g outer ⟨2⟩)
    (hk : outer.length ≤ 2) : relay.Rethrowing 1 ⟨0⟩ w g outer ⟨2⟩ where
  passes := hp
  suspended := h.suspended
  last := h.last
  admits := ⟨fun limit hl => Nat.le_trans (by omega) (h.admits.depth limit hl),
    fun limit hl => Nat.le_trans (by omega) (h.admits.count limit hl)⟩
  rethrows g _ k hk := by
    obtain ⟨k, rfl⟩ := Nat.exists_eq_add_of_le' hk
    exact Host.rethrows_of_take rfl k ⟨0⟩

/-- The last generator of a relay lets an error go with the trace that the options ask for. The
first one drops the trace of the same error, though not of an exception that asks to exit. -/
theorem relay_drops_host_trace : ∃ v v' v'',
    (relay.run 8 ⟨0⟩ (Action.throwException ⟨2⟩ startedRelay.1).run).run tracedRelay =
      some (.error (.raised ⟨startedRelay.1, true⟩), v) ∧
    (relay.run 8 ⟨0⟩ (Action.throwException ⟨0⟩ startedRelay.1).run).run tracedRelay =
      some (.error (.raised ⟨startedRelay.1, false⟩), v') ∧
    (relay.run 8 ⟨0⟩ (Action.throwException ⟨0⟩ tracedRelay.exitExc).run).run tracedRelay =
      some (.error (.raised ⟨tracedRelay.exitExc, true⟩), v'') := by
  have hrelay := tracedRelay_started
  have hoption : (tracedRelay.context ⟨0⟩).options.hostTraces = true := by decide +kernel
  have hexit : startedRelay.1.isCaughtBy .generatorExit = false := by decide +kernel
  have hstop : startedRelay.1.isCaughtBy .stopIteration = false := by decide +kernel
  generalize startedRelay.1 = exc, tracedRelay = w at *
  obtain ⟨-, -, hthrown⟩ := host_trace_of_thrown relay
  have hwhole := hrelay.rethrowing hrelay.passes (by decide)
  obtain ⟨_, v, hv, hlast⟩ := hthrown 1 7 ⟨0⟩ ⟨2⟩ ⟨2⟩ [] _ exc w w hrelay.settled
    (.resumes (.throwException exc)) (hrelay.rethrowing .here (by decide)) (by decide)
  obtain ⟨_, v', hv', hfirst⟩ := hthrown 1 7 ⟨0⟩ ⟨0⟩ ⟨2⟩ _ _ exc w w hrelay.settled
    (.resumes (.throwException exc)) hwhole (by decide)
  obtain ⟨_, v'', hv'', hexits⟩ := hthrown 1 7 ⟨0⟩ ⟨0⟩ ⟨2⟩ _ _ w.exitExc w w hrelay.settled
    (.resumes (.throwException w.exitExc)) hwhole (by decide)
  obtain rfl := hlast.eq_of_uncaught hstop
  obtain rfl := hfirst.eq_of_uncaught hstop
  obtain rfl := hexits.eq_of_uncaught rfl
  rw [hoption] at hv hv' hv''
  rw [hexit] at hv'
  exact ⟨v, v', v'', hv, hv', hv''⟩

end Resumable
