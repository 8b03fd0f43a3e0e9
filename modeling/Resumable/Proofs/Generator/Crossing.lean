import Resumable.Proofs.Generator.Chains
import Resumable.Proofs.Generator.StopIteration

/-!
# Exceptions cross chains of delegates

What the body of the innermost delegate raises is thrown into the bodies on the way out, one after
another. Where these raise it again, the caller gets that very exception, to whose traceback every
level has added the place where its body stands.
-/

namespace Resumable

variable {σ : Type}

-- ---------------------------------------------------------------------------
-- Places
-- ---------------------------------------------------------------------------

/-- Where the body of a generator stands. -/
def Generator.site (x : Generator) : (Arguments × Code) × Int × Target :=
  (x.fixed, x.offset, x.target)

theorem Generator.target_eq {x y : Generator} (h : y.site = x.site) : y.target = x.target :=
  congrArg (·.2.2) h

theorem Generator.exitSnapshot_eq {x y : Generator} (h : y.site = x.site) :
    y.exitSnapshot = x.exitSnapshot := by
  simp only [site, fixed, Prod.mk.injEq] at h
  simp only [exitSnapshot, frame, h]

def TracebackEntry.place (x : TracebackEntry) : Snapshot × Nat := (x.snapshot, x.line)

def Generator.exitPlace (x : Generator) : Snapshot × Nat :=
  (x.exitSnapshot, x.code.lineAt x.offset)

theorem Generator.exitPlace_eq {x y : Generator} (h : y.site = x.site) :
    (y.exitSnapshot, y.exitSnapshot.line) = x.exitPlace := by
  rw [exitSnapshot_eq h]
  rfl

namespace World

variable {w v u x z w' : World σ}

theorem Kept.site_eq (h : w.Kept w') (hgrown : w.Grown w') (hw : w.Settled)
    (hg : dutyIn g w.calls ≠ none) (hv : w.generators.Valid g) :
    (w'.generator g).site = (w.generator g).site := by
  have hcourse := h.course_eq hw hg
  simp only [Generator.course, Course.mk.injEq] at hcourse
  simp only [Generator.site, hgrown.fixed g hv, hcourse]

-- ---------------------------------------------------------------------------
-- Out of a body
-- ---------------------------------------------------------------------------

/-- What a body raised in `x` as `e` has left its generator in `z` as `e'`, which is the same unless
it was the end of an iteration. -/
structure Leaves (place : Snapshot × Nat) (e e' : Exc) (x z : World σ) : Prop where
  same : e.isCaughtBy .stopIteration = false ∧ e' = e ∨
    e.isCaughtBy .stopIteration = true ∧ z.Wraps e e'
  valid : z.links.Valid e'.ref
  traceback : ∃ entry : TracebackEntry, entry.place = place ∧
    (z.linksOf e').traceback = some (.push entry (x.linksOf e).traceback)

theorem Leaves.uncaught (h : x.Leaves place e e' z) : e'.isCaughtBy .stopIteration = false := by
  rcases h.same with ⟨hs, rfl⟩ | ⟨-, hwraps⟩
  · exact hs
  · rw [Exc.isCaughtBy, hwraps.type]
    rfl

theorem Wraps.valid (h : w.Wraps s wrapper) : w.links.Valid wrapper.ref := by
  refine Classical.byContradiction fun hv => ?_
  have hlinks := h.links
  rw [linksOf, Store.get_of_not_valid _ hv] at hlinks
  cases congrArg Links.context hlinks

end World

namespace Engine

variable {e : Engine σ} {w u x : World σ} {r : Raise}

theorem runBody_failed_history (hr : (e.perform c (e.host.body (w.generator g).target)).run
      (w.begun c g p kind) = some (.error f, x))
    (h : (e.runBody c g p kind).run w = some (o, z)) :
    z.history = .traced c g (.finish (w.generator g).qualifiedName .raised) ::
      .left g (.error f) :: x.history := by
  rw [runBody_failed hr] at h
  obtain ⟨⟨f', v⟩, hv, h⟩ := Option.bind_eq_some_iff.mp h
  cases h
  rw [World.history_leftFailing, ((escape_quiet c g _ f _).2 _ _ hv).history]
  rfl

theorem runBody_raises (hr : (e.perform c (e.host.body (w.generator g).target)).run
      (w.begun c g p kind) = some (.error (.raised r), x)) (hv : x.links.Valid r.exc.ref) :
    ∃ e' z, (e.runBody c g p kind).run w = some (.failed (.raised ⟨e', r.hostTrace⟩), z) ∧
      x.Leaves ((x.generator g).exitSnapshot, (x.generator g).exitSnapshot.line) r.exc e' z := by
  cases hs : r.exc.isCaughtBy .stopIteration with
  | true =>
    obtain ⟨wrapper, id, z, hrun, hwraps, htraceback⟩ := runBody_stop hr hs hv
    refine ⟨wrapper, z, hrun, .inr ⟨hs, hwraps⟩, hwraps.valid, ⟨id, _, _⟩, rfl, ?_⟩
    rw [hwraps.links]
    exact htraceback
  | false =>
    obtain ⟨v, hescape, hchained, -⟩ :=
      escape_raised hs c g (p.bind (·.thrown?)) (x.failing g (.raised r))
    have hvv : v.links.Valid r.exc.ref := (hchained.valid _).mpr hv
    rw [runBody_failed hr, hescape, World.exitSnapshot_failing]
    refine ⟨r.exc, _, rfl, .inl ⟨hs, rfl⟩, ?_, ?_⟩
    · simpa [World.placed, World.modifyLinks] using hvv
    · have hplaced := World.linksOf_placed hvv (x.generator g).exitSnapshot
      refine ⟨⟨v.identities, (x.generator g).exitSnapshot, _⟩, rfl, ?_⟩
      rw [World.linksOf, World.links_leftFailing]
      refine (congrArg Links.traceback hplaced).trans ?_
      rw [Links.pushTraceback, hchained.traceback]
      rfl

theorem runBody_reraises (hr : (e.perform c (e.host.body (w.generator g).target)).run
      (w.begun c g (some (.throw r.exc hostTrace)) kind) = some (.error (.raised r), x))
    (hs : r.exc.isCaughtBy .stopIteration = false) (hv : x.links.Valid r.exc.ref) :
    ∃ z, (e.runBody c g (some (.throw r.exc hostTrace)) kind).run w =
        some (.failed (.raised r), z) ∧ z.links.Valid r.exc.ref ∧
      ∃ entry : TracebackEntry, entry.place = ((x.generator g).exitSnapshot,
          (x.generator g).exitSnapshot.line) ∧
        z.linksOf r.exc = (x.linksOf r.exc).pushTraceback entry := by
  obtain ⟨v, hescape, -, heq⟩ :=
    escape_raised hs c g (some r.exc) (x.failing g (.raised r))
  obtain rfl : v = x.failing g (.raised r) := heq (by simp [Exc.same])
  rw [runBody_failed hr]
  refine ⟨_, by rw [Option.bind_some, Payload.thrown?, hescape]; rfl, ?_, ?_⟩
  · simpa [World.placed, World.modifyLinks] using hv
  · refine ⟨⟨x.identities, (x.generator g).exitSnapshot, _⟩, rfl, ?_⟩
    rw [World.linksOf, World.links_leftFailing, World.exitSnapshot_failing]
    exact World.linksOf_placed (w := x.failing g _) hv _

end Engine

-- ---------------------------------------------------------------------------
-- Into a body
-- ---------------------------------------------------------------------------

namespace World

variable {w y u v : World σ}

@[simp] theorem links_begun : (w.begun c g p kind).links = w.links := by
  simp [begun, told, record, modifyContext, modifyGenerator]

@[simp] theorem links_heard : (u.heard h).links = u.links := by
  simp [heard, record, modifyGenerator]

theorem links_handedDown (c : Ref .context) (innermost : Ref .generator)
    (outer : List (Ref .generator)) : (w.handedDown c innermost outer).links = w.links := by
  induction outer generalizing w with
  | nil => rfl
  | cons g outer ih => exact (ih (w := w.handedOn c g _)).trans (links_setActivity _)

/-- The world is one level in for `g`. -/
structure Goes (c : Ref .context) (g : Ref .generator) (w x : World σ) : Prop where
  settled : x.Settled
  calls : x.calls = .level ⟨g, c, .between⟩ :: w.calls
  generators : x.generators = w.generators
  admits : ∀ n, (w.context c).Admits (n + 1) → (x.context c).Admits n

theorem Settled.goes_inward (hw : w.Settled) (c : Ref .context) (g : Ref .generator) :
    w.Goes c g (w.inward c g) := ⟨hw.inward c g, rfl, rfl, fun _ h => admits_readied h g⟩

theorem Settled.goes_readied (hw : w.Settled) (c : Ref .context) (g : Ref .generator) :
    w.Goes c g (w.readied c g) := ⟨hw.readied c g, rfl, rfl, fun _ h => admits_readied h g⟩

theorem Goes.generator_eq (h : w.Goes c g x) (g' : Ref .generator) :
    x.generator g' = w.generator g' := by rw [generator, h.generators, generator]

theorem Goes.standing (h : w.Goes c g x) (hs : (w.generator g).state = .suspended) :
    Resumable.standing g x.history = .suspended (w.generator g).delegate := by
  rw [← h.generator_eq] at hs ⊢
  exact h.settled.standing_of_suspended hs

theorem Goes.passedOn (h : w.Goes c g x) (hs : (w.generator g).state = .suspended)
    (hd : (w.generator g).delegate = some sub) : (x.passedOn g sub).Settled :=
  h.settled.passedOn h.calls (by rw [h.standing hs, hd])

/-- A run of the body of `g` that begins in `y`, with `q`, begins where the body stood in `w`. -/
structure Starts (c : Ref .context) (g : Ref .generator) (q : Option Payload) (w y : World σ) :
    Prop where
  settled : ∀ kind, (y.begun c g q kind).Settled
  calls : y.calls = .level ⟨g, c, .between⟩ :: w.calls
  valid : y.generators.Valid g
  site : (y.generator g).site = (w.generator g).site

theorem Starts.target_eq (h : w.Starts c g q y) :
    (y.generator g).target = (w.generator g).target := Generator.target_eq h.site

theorem Starts.activation (h : w.Starts c g q y) (kind : ResumeKind) :
    (y.begun c g q kind).activation? =
      some ⟨(w.generator g).template.forResumption q, (w.generator g).offset⟩ := by
  have hsite := h.site
  simp only [Generator.site, Generator.fixed, Prod.mk.injEq] at hsite
  rw [activation?_begun h.calls, hsite.1.1, hsite.2.1]

theorem Goes.starts (h : w.Goes c g x) (hs : (w.generator g).state = .suspended)
    (hd : (w.generator g).delegate = none) (p : Option Payload) : w.Starts c g p x where
  settled := by
    refine h.settled.toCoherent.begun h.calls ?_ (fun g p ho => absurd ho (h.settled.paid g p))
    rw [h.standing hs, hd]
    exact .resumed
  calls := h.calls
  valid := h.settled.valid_of_suspended (h.generator_eq g ▸ hs)
  site := congrArg Generator.site (h.generator_eq g)

theorem Settled.starts_own (hw : w.Settled) (hs : (w.generator g).state = .suspended)
    (hd : (w.generator g).delegate = none) (c : Ref .context) (p : Option Payload) :
    w.Starts c g p (w.inward c g) := (hw.goes_inward c g).starts hs hd p

theorem site_passedOn (w : World σ) (g sub g' : Ref .generator) :
    ((w.passedOn g sub).generator g').site = (w.generator g').site := by
  refine .trans ?_
    (part_modifyGenerator (f := ({ · with state := .running })) (fun _ => rfl) w g g')
  simp [passedOn, generator]

theorem site_givenUp (h : Happening) (u : World σ) (g : Ref .generator) :
    ((u.givenUp h).generator g).site = (u.generator g).site := by
  have hheard : ((u.givenUp h).generator g).site = ((u.heard h).generator g).site :=
    part_modifyGenerator (f := ({ · with delegate := none })) (fun _ => rfl) _ _ _
  refine hheard.trans (.trans ?_ (part_modifyGenerator (f := ({ · with state := .suspended }))
    (fun _ => rfl) u h.generator g))
  simp [heard, generator]

theorem Goes.starts_heard (hx : w.Goes c g x) (hs : (w.generator g).state = .suspended)
    (hd : (w.generator g).delegate = some sub) (hu : (x.passedOn g sub).Kept u)
    (hgrown : (x.passedOn g sub).Grown u) {h : Happening} (hg : h.generator = g)
    (hallows : (Standing.forwarding sub).Allows h)
    (howed : h.standing? = some (.ofDelivered (some q))) :
    w.Starts c g (some q) (u.givenUp h) := by
  have hxv : x.generators.Valid g := hx.settled.valid_of_suspended (hx.generator_eq g ▸ hs)
  have hvalid : (x.passedOn g sub).generators.Valid g := valid_passedOn.mpr hxv
  have hduty : dutyIn g (x.passedOn g sub).calls ≠ none := by
    rw [calls_passedOn hx.calls]
    exact dutyIn_ne_none (by simp [Activity.duty?])
  obtain ⟨hcoherent, hallowed, hpays⟩ := hu.owing hx.calls hg hallows howed
  have hcalls : (u.givenUp h).calls = _ := (hu.calls_heard hx.calls h).trans hx.calls
  refine ⟨hcoherent.begun hcalls hallowed hpays, hcalls, ?_, ?_⟩
  · have hheard : (u.heard h).generators.Valid g := by
      simpa [heard] using hgrown.generators g hvalid
    exact valid_modifyGenerator.mpr hheard
  · calc ((u.givenUp h).generator g).site
        = (u.generator g).site := site_givenUp h u g
      _ = ((x.passedOn g sub).generator g).site :=
        hu.site_eq hgrown (hx.passedOn hs hd) hduty hvalid
      _ = (x.generator g).site := site_passedOn x g sub g
      _ = (w.generator g).site := congrArg Generator.site (hx.generator_eq g)

theorem Settled.starts_delivered (hw : w.Settled) (hs : (w.generator g).state = .suspended)
    (hd : (w.generator g).delegate = some sub) (hu : (w.handedOn c g sub).Kept u)
    (hgrown : (w.handedOn c g sub).Grown u) (hq : f.delivered? = some q) :
    w.Starts c g (some q) (u.givenUp (.answered g sub (.error f))) :=
  (hw.goes_inward c g).starts_heard hs hd hu hgrown rfl .answered (by rw [← hq]; rfl)

end World

theorem Failure.delivered_raised (h : exc.isCaughtBy .stopIteration = false) (hostTrace : Bool) :
    (Failure.raised ⟨exc, hostTrace⟩).delivered? = some (.throw exc false) := by
  simp [Failure.delivered?, Failure.stopValue?, h]

namespace Engine

variable {e : Engine σ} {w u : World σ}

theorem settle_delivered (hq : f.delivered? = some q) (c : Ref .context) (g : Ref .generator) :
    e.settle c g (.error f) =
      dropDelegate g >>= fun _ => e.runBody c g (some q) (.ofPayload (some q)) := by
  unfold Failure.delivered? at hq
  cases hv : f.stopValue? with
  | some v =>
    rw [hv] at hq
    cases hq
    simp only [settle, hv, ResumeKind.ofPayload]
  | none =>
    rw [hv] at hq
    cases f with
    | raised r =>
      cases hq
      simp only [settle, hv, ResumeKind.ofPayload]
    | _ => cases hq

theorem resumeDelegate_failed (h : (e.resumeDelegate c g sub p).run w = some (.error f, v)) :
    ∃ u, (e.ask c (.resume sub (some p)) >>= result).run (w.passedOn g sub) =
        some (.error f, u) ∧ v = u.heard (.answered g sub (.error f)) := by
  rw [resumeDelegate_run] at h
  obtain ⟨⟨o, x⟩, hx, h⟩ := Option.bind_eq_some_iff.mp h
  obtain ⟨⟨a, u⟩, hu, h⟩ := Option.bind_eq_some_iff.mp h
  cases h
  exact ⟨u, by rw [StateT.run_bind, hx]; exact hu, rfl⟩

end Engine

namespace Host

/-- What the body of a suspended generator is entered with, and in what world, when the generator is
resumed: at once, or after its delegate has failed. -/
inductive Enters (host : Host σ) (m : Nat) (c : Ref .context) (g : Ref .generator)
    (p : Option Payload) (w : World σ) : World σ → Option Payload → Prop
  | own : (w.generator g).delegate = none → Enters host m c g p w (w.inward c g) p
  | delivered : (w.generator g).delegate = some sub →
      (Engine.resumeDelegate ⟨host, host.answer m⟩ c g sub (p.getD (.send .none))).run
        (w.inward c g) = some (.error f, v) → f.delivered? = some q →
      Enters host m c g p w (v.modifyGenerator g ({ · with delegate := none })) (some q)

variable {host : Host σ} {w y u x z w' : World σ} {p q : Option Payload}

theorem enters_failed {q : Payload} (hd : (w.generator g).delegate = some sub)
    (h : (host.answer m c (.resume sub (some (p.getD (.send .none))))).run (w.handedOn c g sub) =
      some (.failed f, u)) (hq : f.delivered? = some q) :
    host.Enters m c g p w (u.givenUp (.answered g sub (.error f))) (some q) := by
  refine .delivered (v := u.heard (.answered g sub (.error f))) hd ?_ hq
  rw [Engine.resumeDelegate_run]
  refine (congrArg (Option.bind · _) h).trans ?_
  rfl

theorem Enters.answer (h : host.Enters m c g p w y q) (hs : (w.generator g).state = .suspended)
    (hk : (w.context c).Admits (n + 1)) (hp : p.any (·.exits) = false) :
    (host.answer (m + 1) c (.resume g p)).run w =
      ((Engine.runBody ⟨host, host.answer m⟩ c g q (.ofPayload q)).run y).bind fun r =>
        some (r.1, r.2.outward c) := by
  change (Engine.resume ⟨host, host.answer m⟩ c g p).run w = _
  cases h with
  | own hd => rw [Engine.resume_undelegated hs hd, Engine.inward_run hk]
  | delivered hd hrun hq =>
    rw [Engine.resume_delegated hs hd hp, Engine.inward_run hk, StateT.run_bind, hrun]
    simp only [Option.bind_eq_bind, Option.bind_some]
    rw [Engine.settle_delivered hq]
    rfl

theorem Enters.starts (h : host.Enters m c g p w y q) (hw : w.Settled)
    (hs : (w.generator g).state = .suspended) : w.Starts c g q y := by
  cases h with
  | own hd => exact hw.starts_own hs hd c p
  | @delivered sub f v q hd hrun hq =>
    obtain ⟨u, hu, rfl⟩ := Engine.resumeDelegate_failed hrun
    have hkept := (host.trusts m).ask c (.resume sub (some (p.getD (.send .none))))
    have htrail := (host.tracked m).ask c (.resume sub (some (p.getD (.send .none))))
    have hku := (hkept.bind fun o => .of_quiet (Engine.result_quiet o)) _ (hw.handedOn hs hd c)
    have htu := (htrail.bind fun o => Engine.result_trails o) (w.handedOn c g sub)
    exact hw.starts_delivered hs hd (hku.2 _ _ hu) (htu.2 _ _ hu).grown hq

theorem body_site {p : Prog σ α} (hy : w.Starts c g q y)
    (h : (host.run m c p).run (y.begun c g q (.ofPayload q)) = some (a, x)) :
    (x.generator g).site = (w.generator g).site := by
  obtain ⟨act, hcalls⟩ := World.calls_begun hy.calls q (.ofPayload q)
  have hkept := (Engine.perform_keeps (host.trusts m) c p _ (hy.settled _)).2 _ _ h
  have hgrown := ((run_trails host m c p _).2 _ _ h).grown
  have hduty : dutyIn g (y.begun c g q (.ofPayload q)).calls ≠ none := by
    rw [hcalls]
    exact World.dutyIn_ne_none (by simp [Activity.duty?])
  have hvalid : (y.begun c g q (.ofPayload q)).generators.Valid g := by
    simpa [World.begun] using hy.valid
  calc (x.generator g).site
      = ((y.begun c g q (.ofPayload q)).generator g).site :=
        hkept.site_eq hgrown (hy.settled _) hduty hvalid
    _ = (y.generator g).site := by
        rw [World.generator_begun_self hy.valid]
        rfl
    _ = (w.generator g).site := hy.site

theorem history_outward : (u.outward c).history = u.history := rfl

theorem Enters.raises (h : host.Enters m c g p w y q) (hw : w.Settled)
    (hs : (w.generator g).state = .suspended) (hk : (w.context c).Admits (n + 1))
    (hp : p.any (·.exits) = false)
    (hr : (host.run m c (host.body (w.generator g).target)).run (y.begun c g q (.ofPayload q)) =
      some (.error (.raised r), x)) (hv : x.links.Valid r.exc.ref) :
    ∃ e' z, (host.answer (m + 1) c (.resume g p)).run w =
        some (.failed (.raised ⟨e', r.hostTrace⟩), z) ∧
      x.Leaves (w.generator g).exitPlace r.exc e' z ∧
      standing g z.history = .finished := by
  have hy := h.starts hw hs
  have hplace := Generator.exitPlace_eq (body_site hy hr)
  rw [← hy.target_eq] at hr
  obtain ⟨e', z, hrun, hleaves⟩ := Engine.runBody_raises (e := ⟨host, host.answer m⟩) hr hv
  rw [hplace] at hleaves
  refine ⟨e', z.outward c, by rw [h.answer hs hk hp, hrun]; rfl, ?_, ?_⟩
  · exact ⟨hleaves.same.imp id (.imp id fun h => ⟨h.type, h.class?, h.message, h.links⟩),
      hleaves.valid, hleaves.traceback⟩
  · have hhist := Engine.runBody_failed_history (e := ⟨host, host.answer m⟩) hr hrun
    rw [history_outward, hhist]
    exact standing_finish

/-- A body that stands where `x` does raises what is thrown in, and leaves it as it is. -/
def Reraises (host : Host σ) (n : Nat) (c : Ref .context) (x : Generator) : Prop :=
  ∀ (u : World σ) (exc : Exc) (hostTrace : Bool), u.Settled → u.links.Valid exc.ref →
    u.activation? = some ⟨x.template.forResumption (some (.throw exc hostTrace)), x.offset⟩ →
    ∃ r v, r.exc = exc ∧ (host.run n c (host.body x.target)).run u = some (.error (.raised r), v) ∧
      v.links.Valid exc.ref ∧ v.linksOf exc = u.linksOf exc

theorem reraises_of_take {x : Generator} {k : Value → Action σ BodyResult}
    (h : host.body x.target = (Action.take >>= k).run) (n : Nat) (c : Ref .context) :
    host.Reraises (n + 1) c x := by
  intro u exc hostTrace _ hv ha
  let taken := u.setActivity (.running ⟨{ x.template.forResumption (some (.throw exc hostTrace))
    with payload := none }, x.offset⟩)
  have hlinks : taken.links = u.links := World.links_setActivity _
  refine ⟨⟨exc, hostTrace⟩, taken, rfl, ?_, hlinks ▸ hv, by rw [World.linksOf, hlinks]; rfl⟩
  rw [h]
  have htake : (host.answer (n + 1) c .take).run u =
      some (.error (.raised ⟨exc, hostTrace⟩), taken) := by
    change Exec.takePayload.run u = _
    simp [Exec.takePayload, ha, Arguments.forResumption]
    rfl
  change Option.bind ((host.answer (n + 1) c .take).run u) _ = _
  rw [htake]
  rfl

/-- What is thrown in at the end of a chain is raised there by a body that raises it again. -/
theorem innermost_reraises (hw : w.Settled) (hc : w.contexts.Valid c)
    (hp : w.Passes g outer innermost) (hn : (outer ++ [innermost]).Nodup)
    (hs : (w.generator innermost).state = .suspended)
    (hd : (w.generator innermost).delegate = none) (hv : w.links.Valid exc.ref)
    (hre : host.Reraises m c (w.generator innermost)) (hostTrace : Bool) :
    ∃ y x r, r.exc = exc ∧
      host.Enters m c innermost (some (.throw exc hostTrace)) (w.handedDown c innermost outer) y
        (some (.throw exc hostTrace)) ∧
      (host.run m c (host.body (w.generator innermost).target)).run
        (y.begun c innermost (some (.throw exc hostTrace)) .throw) =
          some (.error (.raised r), x) ∧ x.links.Valid r.exc.ref := by
  obtain ⟨hnodup, -, hdisjoint⟩ := List.nodup_append.mp hn
  have hdown := hp.descends hw hc hnodup
  have hinner : (w.handedDown c innermost outer).generator innermost = w.generator innermost :=
    hdown.others innermost fun hm => hdisjoint _ hm _ (List.mem_singleton_self _) rfl
  rw [← hinner] at hs hd
  have hstarts := hdown.settled.starts_own hs hd c (some (.throw exc hostTrace))
  have hlinks : (((w.handedDown c innermost outer).inward c innermost).begun c innermost
      (some (.throw exc hostTrace)) .throw).links = w.links :=
    World.links_begun.trans (World.links_handedDown c innermost outer)
  obtain ⟨r, x, rfl, hrun, hx, -⟩ := hre _ exc hostTrace (hstarts.settled _) (hlinks.symm ▸ hv)
    (by rw [hstarts.activation, hinner])
  exact ⟨_, x, r, rfl, .own hd, hrun, hx⟩

-- ---------------------------------------------------------------------------
-- Out of a chain
-- ---------------------------------------------------------------------------

theorem answer_reraises (hw : w.Settled) (hs : (w.generator g).state = .suspended)
    (hd : (w.generator g).delegate = some sub) (hk : (w.context c).Admits (n + 1))
    (hp : p.any (·.exits) = false)
    (h : (host.answer m c (.resume sub (some (p.getD (.send .none))))).run (w.handedOn c g sub) =
      some (.failed (.raised ⟨exc, hostTrace⟩), u))
    (hstop : exc.isCaughtBy .stopIteration = false) (hv : u.links.Valid exc.ref)
    (hre : host.Reraises m c (w.generator g)) :
    ∃ hostTrace' w', (host.answer (m + 1) c (.resume g p)).run w =
        some (.failed (.raised ⟨exc, hostTrace'⟩), w') ∧ w'.links.Valid exc.ref ∧
      (∃ entry : TracebackEntry, entry.place = (w.generator g).exitPlace ∧
        w'.linksOf exc = (u.linksOf exc).pushTraceback entry) ∧
      standing g w'.history = .finished ∧ ∃ later, w'.history = later ++ u.history := by
  let f : Failure := .raised ⟨exc, hostTrace⟩
  have henters := enters_failed hd h (Failure.delivered_raised hstop hostTrace)
  have hy := henters.starts hw hs
  let q : Option Payload := some (.throw exc false)
  let y := u.givenUp (.answered g sub (.error f))
  have hlinks : (y.begun c g q (.ofPayload q)).links = u.links := World.links_begun.trans
    (World.links_heard (h := .answered g sub (.error f)))
  obtain ⟨r, x, rfl, hr, hvx, hx⟩ := hre _ exc false (hy.settled _) (hlinks ▸ hv) (hy.activation _)
  have hplace := Generator.exitPlace_eq (body_site hy hr)
  rw [← hy.target_eq] at hr
  obtain ⟨z, hz, hvz, ⟨entry, hentry, hlz⟩⟩ :=
    Engine.runBody_reraises (e := ⟨host, host.answer m⟩) hr hstop hvx
  have hhist := Engine.runBody_failed_history (e := ⟨host, host.answer m⟩) hr hz
  refine ⟨r.hostTrace, z.outward c, ?_, hvz, ⟨entry, hentry.trans hplace, ?_⟩, ?_, ?_⟩
  · rw [henters.answer hs hk hp, hz]
    rfl
  · have hsame : x.linksOf r.exc = u.linksOf r.exc := by
      rw [hx, World.linksOf, hlinks]
      rfl
    rw [← hsame]
    exact hlz
  · rw [history_outward, hhist]
    exact standing_finish
  · have hkept := (Engine.perform_keeps (host.trusts m) c _ _ (hy.settled _)).2 _ _ hr
    obtain ⟨later, hlater, -⟩ := hkept.follows
    have hgiven : y.history = .answered g sub (.error f) :: u.history := World.history_heard
    rw [history_outward, hhist, hlater, World.history_begun, hgiven]
    exact ⟨_ :: _ :: later ++ [_, _, _], (List.append_assoc (_ :: _ :: later) [_, _, _] _).symm⟩

end Host

namespace World

variable {w z w' : World σ}

/-- An exception has crossed a list of generators, the innermost first. Each has added its place to
the traceback, and is finished. -/
structure Crosses (exc : Exc) (outer : List (Ref .generator)) (w z w' : World σ) : Prop where
  valid : w'.links.Valid exc.ref
  entries : ∃ new : List TracebackEntry,
    new.map (·.place) = outer.map (fun g => (w.generator g).exitPlace) ∧
    Traceback.entriesOf (w'.linksOf exc).traceback =
      new ++ Traceback.entriesOf (z.linksOf exc).traceback
  context : (w'.linksOf exc).context = (z.linksOf exc).context
  cause : (w'.linksOf exc).cause = (z.linksOf exc).cause
  finished : ∀ g ∈ outer, standing g w'.history = .finished
  follows : ∃ later, w'.history = later ++ z.history

end World

namespace Host

variable {host : Host σ} {w z : World σ} {p : Option Payload}

theorem answer_crosses (hp : w.Passes g outer innermost) (hw : w.Settled) (hn : outer.Nodup)
    (hc : w.contexts.Valid c) (hk : (w.context c).Admits (outer.length + 1))
    (hq : p.any (·.exits) = false) (hstop : exc.isCaughtBy .stopIteration = false)
    (hre : ∀ g ∈ outer, ∀ k, m < k → host.Reraises k c (w.generator g))
    (h : (host.answer (m + 1) c (.resume innermost (handedPayload p outer))).run
      (w.handedDown c innermost outer) = some (.failed (.raised ⟨exc, hostTrace⟩), z))
    (hv : z.links.Valid exc.ref) :
    ∃ hostTrace' w', (host.answer (m + outer.length + 1) c (.resume g p)).run w =
        some (.failed (.raised ⟨exc, hostTrace'⟩), w') ∧ w.Crosses exc outer z w' := by
  induction outer generalizing g w p with
  | nil =>
    cases hp
    exact ⟨hostTrace, z, h, hv, ⟨[], rfl, rfl⟩, rfl, rfl, by simp, [], rfl⟩
  | cons g outer ih =>
    obtain rfl := hp.first_eq
    obtain ⟨sub, hon⟩ := hp.handsOn hn c
    have hpayload : handedPayload p (g :: outer) =
        handedPayload (some (p.getD (.send .none))) outer := (handedPayload_some _ outer).symm
    rw [hon.down, hpayload] at h
    have hgens := hon.generators
    obtain ⟨hostTrace', u, hu, hcross⟩ := ih hon.passes (hw.handedOn hon.suspended hon.delegate c)
      (List.nodup_cons.mp hn).2 (World.valid_handedOn.mpr hc) (World.admits_handedOn hc hk)
      (by rwa [Option.any_some, Payload.exits_getD])
      (fun g' hm => hgens g' hm ▸ hre g' (List.mem_cons_of_mem _ hm)) h
    obtain ⟨hostTrace'', w', hw', hv', ⟨entry, hentry, hlinks⟩, hfinished, later, hlater⟩ :=
      answer_reraises hw hon.suspended hon.delegate hk hq hu hstop hcross.valid
        (hre g (List.mem_cons_self ..) _ (by omega))
    obtain ⟨new, hplaces, hentries⟩ := hcross.entries
    obtain ⟨later', hlater'⟩ := hcross.follows
    refine ⟨hostTrace'', w', hw', hv', ⟨entry :: new, ?_, ?_⟩, ?_, ?_, ?_, later ++ later', ?_⟩
    · rw [List.map_cons, List.map_cons, hentry, hplaces]
      exact congrArg _ (List.map_congr_left fun g' hm => by rw [hgens g' hm])
    · rw [hlinks]
      exact (Traceback.entries_push ..).trans (congrArg _ hentries)
    · rw [hlinks]
      exact hcross.context
    · rw [hlinks]
      exact hcross.cause
    · have hlawful := ((host.answer_keeps _ c _ _ hw).2 _ _ hw').settled.lawful
      rw [hlater] at hlawful hfinished ⊢
      exact List.forall_mem_cons.mpr ⟨hfinished, fun g' hm =>
        (hlawful.of_finished (hcross.finished g' hm)).1⟩
    · rw [hlater, hlater', List.append_assoc]

-- ---------------------------------------------------------------------------
-- Operations
-- ---------------------------------------------------------------------------

inductive Begins (host : Host σ) (n : Nat) (c : Ref .context) (g : Ref .generator) :
    Action σ Value → Option Payload → World σ → World σ → Prop
  | resumes : op.Resumes g (u.context c) q → Begins host n c g op q u u
  | throwInto : (Engine.thrown ⟨host, host.answer n⟩ c g type value traceback).run u =
        some (.ok exc, v) →
      Begins host n c g (Action.throwInto g type value traceback)
        (some (.throw exc (v.context c).options.hostTraces)) u v

theorem Begins.settled (h : host.Begins n c g op p w v) (hw : w.Settled) : v.Settled := by
  cases h with
  | resumes => exact hw
  | throwInto h => exact ((Engine.thrown_follows (host.trusts n) c g _ _ _ w hw).2 _ _ h).settled

theorem Begins.run_failed (h : host.Begins n c g op p w v)
    (hr : (host.answer (n + 1) c (.resume g p)).run v = some (.failed f, w')) :
    (host.run (n + 1) c op.run).run w = some (.error f, w') := by
  cases h with
  | resumes hop =>
    rw [run_eq_of_resumes hop, hr]
    rfl
  | throwInto hthrown =>
    have hinject : (Engine.inject ⟨host, host.answer n⟩ c g _ _).run v = some (.failed f, w') := hr
    rw [run_throwInto]
    simp [Engine.throw, hthrown, hinject, Engine.result]

end Host

/-- An exception `e` that the body at the end of a chain raised in `x` has come out of the chain as
`e'`, which it was in `z` when it left that body. -/
structure World.Emerges (e e' : Exc) (chain : List (Ref .generator)) (v x z w' : World σ) :
    Prop where
  same : e.isCaughtBy .stopIteration = false ∧ e' = e ∨
    e.isCaughtBy .stopIteration = true ∧ z.Wraps e e'
  entries : ∃ new : List TracebackEntry,
    new.map (·.place) = chain.map (fun g => (v.generator g).exitPlace) ∧
    Traceback.entriesOf (w'.linksOf e').traceback =
      new ++ Traceback.entriesOf (x.linksOf e).traceback
  context : (w'.linksOf e').context = (z.linksOf e').context
  cause : (w'.linksOf e').cause = (z.linksOf e').cause
  finished : ∀ g ∈ chain, (w'.generator g).state = .finished ∧ (w'.generator g).delegate = none

/-- In the worlds of any run, what the body at the end of a chain raises comes out of the chain as
the same exception if the bodies on the way raise it again. Each level adds one place to its
traceback and is finished. -/
theorem exceptions_cross_once_per_level (host : Host σ) :
    (∀ s : σ, host.Upholds Host.settled (.initial s)) ∧
    (∀ (x : Generator) (k : Value → Action σ BodyResult),
      host.body x.target = (Action.take >>= k).run → ∀ n c, host.Reraises (n + 1) c x) ∧
    ∀ (m : Nat) (c : Ref .context) (g innermost : Ref .generator) (outer : List (Ref .generator))
      (op : Action σ Value) (p q : Option Payload) (w v y x : World σ) (r : Raise),
      w.Settled → host.Begins (m + outer.length) c g op p w v → v.contexts.Valid c →
      v.Passes g outer innermost → (v.generator innermost).state = .suspended →
      (outer ++ [innermost]).Nodup → (v.context c).Admits (outer.length + 1) →
      p.any (·.exits) = false →
      (∀ g' ∈ outer, ∀ k, m < k → host.Reraises k c (v.generator g')) →
      host.Enters m c innermost (handedPayload p outer) (v.handedDown c innermost outer) y q →
      (host.run m c (host.body (v.generator innermost).target)).run
        (y.begun c innermost q (.ofPayload q)) = some (.error (.raised r), x) →
      x.links.Valid r.exc.ref →
      ∃ e' hostTrace z w',
        (host.answer (m + 1) c (.resume innermost (handedPayload p outer))).run
          (v.handedDown c innermost outer) = some (.failed (.raised ⟨e', r.hostTrace⟩), z) ∧
        (host.run (m + outer.length + 1) c op.run).run w =
          some (.error (.raised ⟨e', hostTrace⟩), w') ∧
        v.Emerges r.exc e' (outer ++ [innermost]) x z w' := by
  refine ⟨host.upholds_settled, fun _ _ => Host.reraises_of_take, ?_⟩
  intro m c g innermost outer op p q w v y x r hw hbegins hc hp hs hn hk hq hre henters hr hv
  obtain ⟨hnodup, -, hdisjoint⟩ := List.nodup_append.mp hn
  have hvs := hbegins.settled hw
  have hdown := hp.descends hvs hc hnodup
  have hinner : (v.handedDown c innermost outer).generator innermost = v.generator innermost :=
    hdown.others innermost fun hm => hdisjoint _ hm _ (List.mem_singleton_self _) rfl
  have hpayload : (handedPayload p outer).any (·.exits) = false := by
    cases outer with
    | nil => exact hq
    | cons g outer => rwa [handedPayload, Option.any_some, Payload.exits_getD]
  rw [← hinner] at hs hr
  obtain ⟨e', z, hz, hleaves, hfinished⟩ :=
    henters.raises hdown.settled hs (hdown.admits 1 hk) hpayload hr hv
  obtain ⟨hostTrace, w', hw', hcross⟩ :=
    Host.answer_crosses hp hvs hnodup hc hk hq hleaves.uncaught hre hz hleaves.valid
  refine ⟨e', hostTrace, z, w', hz, hbegins.run_failed hw', hleaves.same, ?_, hcross.context,
    hcross.cause, fun g' hm => ?_⟩
  · obtain ⟨new, hplaces, hentries⟩ := hcross.entries
    obtain ⟨entry, hentry, htraceback⟩ := hleaves.traceback
    refine ⟨new ++ [entry], ?_, ?_⟩
    · simp [hplaces, hentry, hinner]
    · rw [hentries, htraceback]
      refine (congrArg (new ++ ·) (Traceback.entries_push ..)).trans ?_
      simp
  · have hsettled := ((host.answer_keeps _ c _ _ hvs).2 _ _ hw').settled
    have hstands : standing g' w'.history = .finished := by
      rcases List.mem_append.mp hm with hm | hm
      · exact hcross.finished g' hm
      · obtain rfl := List.mem_singleton.mp hm
        obtain ⟨later, hlater⟩ := hcross.follows
        have hlawful := hsettled.lawful
        rw [hlater] at hlawful ⊢
        exact (hlawful.of_finished hfinished).1
    rw [hsettled.state_eq, hsettled.delegate_eq, hstands]
    exact ⟨rfl, rfl⟩

theorem relay_raises : ∃ hostTrace x z w',
    (relay.run 8 ⟨0⟩ (Action.throwException ⟨0⟩ startedRelay.1).run).run startedRelay.2 =
        some (.error (.raised ⟨startedRelay.1, hostTrace⟩), w') ∧
      startedRelay.2.Emerges startedRelay.1 startedRelay.1 [⟨0⟩, ⟨1⟩, ⟨2⟩] x z w' := by
  have hrelay := relay_started
  have hvalid : startedRelay.2.links.Valid startedRelay.1.ref := by decide +kernel
  have hexit : startedRelay.1.isCaughtBy .generatorExit = false := by decide +kernel
  have hstop : startedRelay.1.isCaughtBy .stopIteration = false := by decide +kernel
  generalize startedRelay.1 = exc, startedRelay.2 = v at *
  obtain ⟨-, htakes, hcross⟩ := exceptions_cross_once_per_level relay
  have hre (g : Ref .generator) (m : Nat) (hm : 0 < m) :
      relay.Reraises m ⟨0⟩ (v.generator g) := by
    obtain ⟨k, rfl⟩ := Nat.exists_eq_add_of_lt hm
    exact htakes _ _ rfl _ ⟨0⟩
  obtain ⟨y, x, r, rfl, henters, hrun, hx⟩ := Host.innermost_reraises hrelay.settled hrelay.valid
    hrelay.passes (by decide) hrelay.suspended hrelay.last hvalid (hre ⟨2⟩ 5 (by decide))
    (v.context ⟨0⟩).options.hostTraces
  obtain ⟨e', hostTrace, z, w', -, hw', hemerges⟩ := hcross 5 ⟨0⟩ ⟨0⟩ ⟨2⟩ [⟨0⟩, ⟨1⟩] _ _ _ v v y x r
    hrelay.settled (.resumes (.throwException r.exc)) hrelay.valid hrelay.passes hrelay.suspended
    (by decide) hrelay.admits hexit (fun g _ k hk => hre g k (Nat.zero_lt_of_lt hk))
    henters hrun hx
  obtain ⟨-, rfl⟩ | ⟨h, -⟩ := hemerges.same
  · exact ⟨hostTrace, x, z, w', hw', hemerges⟩
  · rw [hstop] at h
    cases h

end Resumable
