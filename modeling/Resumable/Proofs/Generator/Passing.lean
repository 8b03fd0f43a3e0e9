import Resumable.Proofs.Generator.Chains
import Resumable.Proofs.Generator.StopIteration

/-!
# Values pass through chains of delegates

What is sent to a generator that delegates reaches the body of the innermost delegate, and what that
yields comes back, as if there were nothing between. No body on the way is entered, and the
generators on the way are suspended again just where they were.
-/

namespace Resumable

variable {σ : Type}

namespace World

variable {w v u x w' : World σ}

-- ---------------------------------------------------------------------------
-- On the way back
-- ---------------------------------------------------------------------------

def handedBack (c : Ref .context) (g sub : Ref .generator) (y : Value) (u : World σ) : World σ :=
  let v := u.heard (.answered g sub (.ok y))
  (v.told c g (.yield (v.generator g).qualifiedName (v.generator g).offset)).outward c

def handedUp (c : Ref .context) (innermost : Ref .generator) (y : Value) :
    List (Ref .generator) → World σ → World σ
  | [], x => x
  | g :: outer, x => (x.handedUp c innermost y outer).handedBack c g (outer.headD innermost) y

theorem generators_handedBack :
    (u.handedBack c g sub y).generators = (u.heard (.answered g sub (.ok y))).generators := by
  simp [handedBack, outward, modifyContext, pop]

theorem generator_handedBack : (u.handedBack c g sub y).generator g' =
    (u.heard (.answered g sub (.ok y))).generator g' := by
  rw [generator, generators_handedBack, generator]

theorem valid_handedBack : (u.handedBack c g sub y).generators.Valid g' ↔ u.generators.Valid g' := by
  rw [generators_handedBack]
  simp [heard]

theorem history_handedBack : ∃ e, (u.handedBack c g sub y).history =
    .traced c g e :: .answered g sub (.ok y) :: u.history :=
  ⟨_, congrArg (_ :: ·) history_heard⟩

/-- What has become of a world once a value has been passed back through a list of generators. -/
structure Ascends (outer : List (Ref .generator)) (x w' : World σ) : Prop where
  valid : ∀ g, x.generators.Valid g → w'.generators.Valid g
  passed : ∀ g ∈ outer, x.generators.Valid g →
    w'.generator g = { x.generator g with state := .suspended }
  others : ∀ g ∉ outer, w'.generator g = x.generator g
  follows : ∃ events, w'.history = events ++ x.history ∧ ∀ g p, .entered g p ∉ events

theorem Ascends.handedBack (h : x.Ascends outer u) (hg : g ∉ outer) (c : Ref .context)
    (sub : Ref .generator) (y : Value) : x.Ascends (g :: outer) (u.handedBack c g sub y) := by
  obtain ⟨events, hevents, hall⟩ := h.follows
  obtain ⟨e, he⟩ : ∃ e, (u.handedBack c g sub y).history = .traced c g e :: _ :: u.history :=
    history_handedBack
  refine ⟨fun g' hv => valid_handedBack.mpr (h.valid g' hv),
    List.forall_mem_cons.mpr ⟨fun hv => ?_, fun g' hm hv => ?_⟩, fun g' hm => ?_,
    .traced c g e :: .answered g sub (.ok y) :: events, by rw [he, hevents]; rfl, by simpa using hall⟩
  · rw [generator_handedBack]
    refine (generator_heard_self (h := .answered g sub (.ok y)) (h.valid g hv)).trans ?_
    rw [Happening.generator, h.others g hg]
  · have hne : g' ≠ g := fun he => hg (he ▸ hm)
    rw [generator_handedBack, generator_heard_of_ne hne, h.passed g' hm hv]
  · rw [List.mem_cons, not_or] at hm
    rw [generator_handedBack, generator_heard_of_ne hm.1, h.others g' hm.2]

theorem ascends_handedUp (hn : outer.Nodup) (c : Ref .context) (innermost : Ref .generator)
    (y : Value) (x : World σ) : x.Ascends outer (x.handedUp c innermost y outer) := by
  induction outer with
  | nil => exact ⟨fun _ h => h, by simp, fun _ _ => rfl, [], rfl, by simp⟩
  | cons g outer ih =>
    obtain ⟨hg, hnodup⟩ := List.nodup_cons.mp hn
    exact (ih hnodup).handedBack hg c _ y

end World

-- ---------------------------------------------------------------------------
-- The engine
-- ---------------------------------------------------------------------------

namespace Engine

variable {e : Engine σ} {w u : World σ}

theorem resume_handsBack (hs : (w.generator g).state = .suspended)
    (hd : (w.generator g).delegate = some sub) {p : Option Payload}
    (hp : p.any (·.exits) = false)
    (hk : (w.context c).Admits (n + 1))
    (h : (e.ask c (.resume sub (some (p.getD (.send .none))))).run (w.handedOn c g sub) =
      some (.yielded y, u)) :
    (e.resume c g p).run w = some (.yielded y, u.handedBack c g sub y) := by
  rw [resume_delegated hs hd hp, inward_run hk, StateT.run_bind, resumeDelegate_run]
  change (Option.bind (Option.bind (Option.bind (StateT.run _ (w.handedOn c g sub)) _) _) _) = _
  rw [h]
  rfl

end Engine

namespace Host

variable {host : Host σ} {w u x : World σ}

theorem answer_innermost (hp : w.Passes g outer innermost) (hn : outer.Nodup)
    (hc : w.contexts.Valid c) (hk : (w.context c).Admits (outer.length + 1)) {p : Option Payload}
    (hq : p.any (·.exits) = false)
    (h : ((host.answer (m + outer.length + 1) c (.resume g p)).run w).isSome) :
    ((host.answer (m + 1) c (.resume innermost (handedPayload p outer))).run
      (w.handedDown c innermost outer)).isSome := by
  induction outer generalizing g w p with
  | nil =>
    cases hp
    exact h
  | cons g outer ih =>
    obtain rfl := hp.first_eq
    obtain ⟨sub, hon⟩ := hp.handsOn hn c
    have hask := Engine.ask_of_resume (e := ⟨host, host.answer (m + outer.length + 1)⟩)
      hon.suspended hon.delegate hq hk h
    have hin := ih hon.passes (List.nodup_cons.mp hn).2 (World.valid_handedOn.mpr hc)
      (World.admits_handedOn hc hk) (by rwa [Option.any_some, Payload.exits_getD]) hask
    rw [hon.down]
    rwa [handedPayload_some] at hin

theorem answer_handedUp (hp : w.Passes g outer innermost) (hn : outer.Nodup)
    (hc : w.contexts.Valid c) (hk : (w.context c).Admits (outer.length + 1)) {p : Option Payload}
    (hq : p.any (·.exits) = false)
    (h : (host.answer (m + 1) c (.resume innermost (handedPayload p outer))).run
      (w.handedDown c innermost outer) = some (.yielded y, x)) :
    (host.answer (m + outer.length + 1) c (.resume g p)).run w =
      some (.yielded y, x.handedUp c innermost y outer) := by
  induction outer generalizing g w p with
  | nil =>
    cases hp
    exact h
  | cons g outer ih =>
    obtain rfl := hp.first_eq
    obtain ⟨sub, hon⟩ := hp.handsOn hn c
    have hpayload : handedPayload p (g :: outer) =
        handedPayload (some (p.getD (.send .none))) outer := (handedPayload_some _ outer).symm
    rw [hon.down, hpayload] at h
    have hask := ih hon.passes (List.nodup_cons.mp hn).2 (World.valid_handedOn.mpr hc)
      (World.admits_handedOn hc hk) (by rwa [Option.any_some, Payload.exits_getD]) h
    rw [World.handedUp, hon.first]
    exact Engine.resume_handsBack (e := ⟨host, host.answer (m + outer.length + 1)⟩)
      hon.suspended hon.delegate hq hk hask

end Host

-- ---------------------------------------------------------------------------
-- The body
-- ---------------------------------------------------------------------------

namespace World

variable {w v u x : World σ}

def leftYielding (c : Ref .context) (g : Ref .generator) (name : String) (y : Suspension)
    (x : World σ) : World σ :=
  (((x.record (.left g (.ok (.yields y)))).setActivity .between).modifyGenerator g
    (·.suspend y)).told c g (.yield name y.resumeAt)

theorem generator_leftYielding_of_ne (h : g' ≠ g) (c : Ref .context) (name : String)
    (y : Suspension) : (x.leftYielding c g name y).generator g' = x.generator g' := by
  refine .trans ?_ (generator_modify_of_ne (f := (·.suspend y)) h)
  simp [leftYielding, generator]

theorem valid_leftYielding :
    (x.leftYielding c g name y).generators.Valid g' ↔ x.generators.Valid g' := by
  simp [leftYielding]

theorem history_leftYielding : (x.leftYielding c g name y).history =
    .traced c g (.yield name y.resumeAt) :: .left g (.ok (.yields y)) :: x.history := by
  simp [leftYielding]

def bodyStart (c : Ref .context) (innermost : Ref .generator) (outer : List (Ref .generator))
    (p : Option Payload) (w : World σ) : World σ :=
  ((w.handedDown c innermost outer).inward c innermost).begun c innermost (handedPayload p outer)
    (.ofPayload (handedPayload p outer))

end World

namespace Engine

variable {e : Engine σ} {w u x : World σ}

theorem runBody_yields (h : (e.perform c (e.host.body (w.generator g).target)).run
      (w.begun c g p kind) = some (.ok (.yields y), x))
    (hx : x.activation?.any (·.hasPendingThrow) = false) :
    (e.runBody c g p kind).run w =
      some (.yielded y.value, x.leftYielding c g (w.generator g).qualifiedName y) := by
  have hheeded : (heeded (.ok (.yields y))).run x = some (.ok (.yields y), x) := by
    simp [heeded, hx]
  rw [runBody_run, h, Option.bind_some, StateT.run_bind, hheeded]
  rfl

end Engine

-- ---------------------------------------------------------------------------
-- Operations
-- ---------------------------------------------------------------------------

/-- The operations that send a value to a generator, none for its next one, and what they resume it
with. -/
inductive Action.Sends (g : Ref .generator) : Value → Action σ Value → Option Payload → Prop
  | next : Sends g .none (next g) none
  | send (v : Value) : Sends g v (send g v) (some (.send v))

theorem Action.Sends.resumes {op : Action σ Value} (h : op.Sends g v p) (k : Context) :
    op.Resumes g k p := by
  cases h with
  | next => exact .next
  | send v => exact .send v

namespace World

variable {w v u x w' : World σ}

/-- The body at the end of a chain begins, and no other body of the chain has begun before. All of
the chain run, and what the body takes is the value that was sent. -/
structure Reaches (c : Ref .context) (outer : List (Ref .generator)) (innermost : Ref .generator)
    (sent : Value) (w u : World σ) : Prop where
  running : ∀ g ∈ outer ++ [innermost], (u.generator g).state = .running
  depth : (u.context c).depth = (w.context c).depth + outer.length + 1
  follows : ∃ name kind p handed, u.history =
      .traced c innermost (.resume name kind (u.context c).depth) :: .entered innermost p ::
        (handed ++ w.history) ∧ ∀ x ∈ handed, ∃ g sub, x = .forwarded g sub
  takes : ∃ u', Exec.takePayload.run u = some (.ok sent, u')

/-- What was passed on to a body has come back. The body was entered once and those of the
generators on the way were not; these are as they were. -/
structure ReturnsFrom (outer : List (Ref .generator)) (innermost : Ref .generator) (w w' : World σ) :
    Prop where
  follows : ∃ later, w'.history = later ++ w.history ∧
    (∀ g ∈ outer, later.countP (·.enters g) = 0) ∧ later.countP (·.enters innermost) = 1
  courses : ∀ g ∈ outer, (w'.generator g).course = (w.generator g).course

section

variable {g innermost : Ref .generator} {outer : List (Ref .generator)} (hw : w.Settled)
  (hc : w.contexts.Valid c) (hp : w.Passes g outer innermost)
  (hs : (w.generator innermost).state = .suspended) (hd : (w.generator innermost).delegate = none)
  (hn : (outer ++ [innermost]).Nodup)
include hw hc hp hs hd hn

theorem Passes.bodyStart_settled (p : Option Payload) :
    (w.bodyStart c innermost outer p).Settled := by
  obtain ⟨hnodup, -, hdisjoint⟩ := List.nodup_append.mp hn
  have hdown := hp.descends hw hc hnodup
  have hinner : (w.handedDown c innermost outer).generator innermost = w.generator innermost :=
    hdown.others innermost fun hm => hdisjoint _ hm _ (List.mem_singleton_self _) rfl
  have hin := hdown.settled.inward c innermost
  refine hin.toCoherent.begun rfl ?_ (fun g p h => absurd h (hin.paid g p)) _
  have hstands : standing innermost (w.handedDown c innermost outer).history = .suspended none := by
    rw [hdown.settled.standing_of_suspended (hinner ▸ hs), hinner, hd]
  change (standing innermost (w.handedDown c innermost outer).history).Allows _
  rw [hstands]
  exact .resumed

theorem Passes.generators_bodyStart (p : Option Payload) :
    ∀ g ∈ outer ++ [innermost],
      (w.bodyStart c innermost outer p).generator g = { w.generator g with state := .running } := by
  obtain ⟨hnodup, -, hdisjoint⟩ := List.nodup_append.mp hn
  have hdown := hp.descends hw hc hnodup
  have hinner : (w.handedDown c innermost outer).generator innermost = w.generator innermost :=
    hdown.others innermost fun hm => hdisjoint _ hm _ (List.mem_singleton_self _) rfl
  intro g' hm
  rcases List.mem_append.mp hm with hm | hm
  · have hne : g' ≠ innermost := hdisjoint _ hm _ (List.mem_singleton_self _)
    exact (generator_begun_of_ne hne).trans (hdown.passed g' hm)
  · obtain rfl := List.mem_singleton.mp hm
    have hv := hdown.settled.valid_of_suspended (hinner ▸ hs)
    refine (generator_begun_self (w := (w.handedDown c g' outer).inward c g') hv).trans ?_
    exact congrArg (fun x : Generator => { x with state := .running }) hinner

omit hs hd in
theorem Passes.history_bodyStart (p : Option Payload) : ∃ name kind handed,
    (w.bodyStart c innermost outer p).history =
      .traced c innermost (.resume name kind ((w.bodyStart c innermost outer p).context c).depth) ::
        .entered innermost (handedPayload p outer) :: (handed ++ w.history) ∧
    ((w.bodyStart c innermost outer p).context c).depth = (w.context c).depth + outer.length + 1 ∧
    ∀ x ∈ handed, ∃ g sub, x = .forwarded g sub := by
  have hdown := hp.descends hw hc (List.nodup_append.mp hn).1
  let v := (w.handedDown c innermost outer).inward c innermost
  have hdepth : (v.context c).depth = (w.context c).depth + outer.length + 1 := by
    rw [depth_inward hdown.valid, hdown.depth, fare, if_pos rfl]
  have hstart : ((w.bodyStart c innermost outer p).context c).depth = (v.context c).depth :=
    context_begun (w := v) (valid_modifyContext.mpr hdown.valid)
  obtain ⟨handed, hhanded, hall⟩ := hdown.follows
  refine ⟨(v.generator innermost).qualifiedName, .ofPayload (handedPayload p outer), handed, ?_,
    hstart.trans hdepth, hall⟩
  rw [hstart, ← hhanded]
  exact history_begun c innermost _ _ v

theorem Passes.reaches {op : Action σ Value} (hop : op.Sends g sent p) :
    w.Reaches c outer innermost sent (w.bodyStart c innermost outer p) := by
  obtain ⟨name, kind, handed, hhist, hdepth, hall⟩ := hp.history_bodyStart hw hc hn p
  have hgens := hp.generators_bodyStart hw hc hs hd hn p
  refine ⟨fun g' hm => by rw [hgens g' hm], hdepth, ⟨name, kind, _, handed, hhist, hall⟩, ?_⟩
  have hactivation : (w.bodyStart c innermost outer p).activation? = _ := activation?_begun rfl
  cases hop with
  | next => cases outer <;> exact ⟨_, by simp [Exec.takePayload, hactivation]; rfl⟩
  | send => cases outer <;> exact ⟨_, by simp [Exec.takePayload, hactivation]; rfl⟩

theorem Passes.dutyIn_bodyStart (p : Option Payload) :
    ∀ g ∈ outer ++ [innermost], dutyIn g (w.bodyStart c innermost outer p).calls ≠ none := by
  intro g hm
  rw [← (hp.bodyStart_settled hw hc hs hd hn p).running_iff,
    hp.generators_bodyStart hw hc hs hd hn p g hm]

variable {y : Suspension} (hk : (w.bodyStart c innermost outer p).Kept x)
include hk

theorem Passes.entered_once (name : String) : ∃ later,
    (((x.leftYielding c innermost name y).outward c).handedUp c innermost y.value outer).history =
      later ++ w.history ∧
    (∀ g ∈ outer, later.countP (·.enters g) = 0) ∧ later.countP (·.enters innermost) = 1 := by
  obtain ⟨hnodup, -, hdisjoint⟩ := List.nodup_append.mp hn
  obtain ⟨body, hbody, hothers⟩ := hk.follows
  obtain ⟨resumed, kind, handed, hhanded, -, hall⟩ := hp.history_bodyStart hw hc hn p
  obtain ⟨events, hevents, hunentered⟩ := (ascends_handedUp hnodup c innermost y.value
    ((x.leftYielding c innermost name y).outward c)).follows
  generalize ((w.bodyStart c innermost outer p).context c).depth = d at hhanded
  have hback : ∀ g, events.countP (·.enters g) = 0 := fun g =>
    Happening.countP_enters_eq_zero (hunentered g)
  have hnone : ∀ g ∈ outer ++ [innermost], body.countP (·.enters g) = 0 := fun g hm =>
    Happening.countP_enters_eq_zero fun q hq =>
      hp.dutyIn_bodyStart hw hc hs hd hn p g hm (hothers _ hq)
  have hpassed : ∀ g, handed.countP (·.enters g) = 0 := fun g =>
    Happening.countP_enters_eq_zero fun q hq => by
      obtain ⟨_, _, he⟩ := hall _ hq
      cases he
  have hleft : ((x.leftYielding c innermost name y).outward c).history = _ := history_leftYielding
  refine ⟨events ++ .traced c innermost (.yield name y.resumeAt) ::
    .left innermost (.ok (.yields y)) :: (body ++ .traced c innermost (.resume resumed kind d) ::
      .entered innermost (handedPayload p outer) :: handed), ?_, fun g hm => ?_, ?_⟩
  · rw [hevents, hleft, hbody, hhanded]
    simp
  · have hne : innermost ≠ g := (hdisjoint g hm innermost (List.mem_singleton_self _)).symm
    simp only [List.countP_append, List.countP_cons, hback, hnone g (List.mem_append_left _ hm),
      hpassed]
    simp [Happening.enters, hne]
  · simp only [List.countP_append, List.countP_cons, hback,
      hnone innermost (List.mem_append_right _ (List.mem_singleton_self _)), hpassed]
    simp [Happening.enters]

theorem Passes.courses_back (name : String) : ∀ g ∈ outer,
    ((((x.leftYielding c innermost name y).outward c).handedUp c innermost y.value
      outer).generator g).course = (w.generator g).course := by
  obtain ⟨hnodup, -, hdisjoint⟩ := List.nodup_append.mp hn
  have hstart := hp.bodyStart_settled hw hc hs hd hn p
  have hup := ascends_handedUp hnodup c innermost y.value
    ((x.leftYielding c innermost name y).outward c)
  intro g hm
  have hmem : g ∈ outer ++ [innermost] := List.mem_append_left _ hm
  have hrunning := hp.generators_bodyStart hw hc hs hd hn p g hmem
  have hleft : ((x.leftYielding c innermost name y).outward c).generator g = x.generator g :=
    generator_leftYielding_of_ne (hdisjoint g hm innermost (List.mem_singleton_self _)) c name y
  have hvalid : (x.leftYielding c innermost name y).generators.Valid g := by
    refine valid_leftYielding.mpr (hk.made hstart ((hstart.made g).mpr fun he => ?_))
    have hstate := hstart.state_eq g
    rw [he, hrunning] at hstate
    cases hstate
  have hcourse := hk.course_eq hstart (hp.dutyIn_bodyStart hw hc hs hd hn p g hmem)
  rw [hrunning] at hcourse
  rw [hup.passed g hm hvalid, hleft]
  simp only [Generator.course, Course.mk.injEq] at hcourse ⊢
  exact ⟨(hp.suspended g hm).symm, hcourse.2⟩

theorem Passes.returnsFrom (name : String) : w.ReturnsFrom outer innermost
    (((x.leftYielding c innermost name y).outward c).handedUp c innermost y.value outer) where
  follows := hp.entered_once hw hc hs hd hn hk name
  courses := hp.courses_back hw hc hs hd hn hk name

end

end World

-- ---------------------------------------------------------------------------
-- Runs
-- ---------------------------------------------------------------------------

namespace Host

variable {host : Host σ} {w x : World σ} {outer : List (Ref .generator)} {p : Option Payload}

section

variable {v : World σ} (hs : (v.generator g).state = .suspended)
  (hd : (v.generator g).delegate = none) (hk : (v.context c).Admits 1)
include hs hd hk

theorem body_of_answer (h : ((host.answer (m + 1) c (.resume g p)).run v).isSome) :
    ((host.run m c (host.body (v.generator g).target)).run
      ((v.inward c g).begun c g p (.ofPayload p))).isSome := by
  change ((Engine.resume ⟨host, host.answer m⟩ c g p).run v).isSome at h
  rw [Engine.resume_undelegated hs hd, Engine.inward_run hk, Engine.runBody_run] at h
  change (Option.bind (Option.bind ((host.run m c (host.body (v.generator g).target)).run _) _)
    _).isSome at h
  cases hrun : (host.run m c (host.body (v.generator g).target)).run
      ((v.inward c g).begun c g p (.ofPayload p)) with
  | none =>
    rw [hrun] at h
    cases h
  | some r => rfl

theorem answer_yields (hq : p.bind (·.thrown?) = none)
    (h : (host.run m c (host.body (v.generator g).target)).run
      ((v.inward c g).begun c g p (.ofPayload p)) = some (.ok (.yields y), x)) :
    (host.answer (m + 1) c (.resume g p)).run v = some (.yielded y.value,
      (x.leftYielding c g (v.generator g).qualifiedName y).outward c) := by
  have htrail := (run_trails host m c _ _).2 _ _ h
  have hpending : x.activation?.any (·.hasPendingThrow) = false := by
    refine htrail.not_pending ?_
    rw [World.activation?_begun rfl]
    simp [Activation.hasPendingThrow, Arguments.forResumption, hq]
  change (Engine.resume ⟨host, host.answer m⟩ c g p).run v = _
  rw [Engine.resume_undelegated hs hd, Engine.inward_run hk,
    Engine.runBody_yields (e := ⟨host, host.answer m⟩) (w := v.inward c g) h hpending]
  rfl

end

end Host

/-- In the worlds of any run, what is sent to a chain of delegates reaches the innermost body first,
with all of the chain running, and what that body yields is what the operation returns; no other
body of the chain has been entered, and the generators on the way are as they were. -/
theorem delegation_transparent_to_values (host : Host σ) :
    (∀ s : σ, host.Upholds Host.settled (.initial s)) ∧
    ∀ (c : Ref .context) (g innermost : Ref .generator) (outer : List (Ref .generator)) (sent : Value)
      (op : Action σ Value) (p : Option Payload) (w : World σ),
      w.Settled → w.contexts.Valid c → w.Passes g outer innermost →
      (w.generator innermost).state = .suspended → (w.generator innermost).delegate = none →
      (outer ++ [innermost]).Nodup → (w.context c).Admits (outer.length + 1) → op.Sends g sent p →
      ∃ u, w.Reaches c outer innermost sent u ∧ ∀ m,
        (((host.run (m + outer.length + 1) c op.run).run w).isSome →
          ((host.run m c (host.body (w.generator innermost).target)).run u).isSome) ∧
        ∀ y x, (host.run m c (host.body (w.generator innermost).target)).run u =
            some (.ok (.yields y), x) →
          ∃ w', (host.run (m + outer.length + 1) c op.run).run w = some (.ok y.value, w') ∧
            w.ReturnsFrom outer innermost w' := by
  refine ⟨host.upholds_settled, ?_⟩
  intro c g innermost outer sent op p w hw hc hp hs hd hn hk hop
  obtain ⟨hnodup, -, hdisjoint⟩ := List.nodup_append.mp hn
  have hdown := hp.descends hw hc hnodup
  have hinner : (w.handedDown c innermost outer).generator innermost = w.generator innermost :=
    hdown.others innermost fun hm => hdisjoint _ hm _ (List.mem_singleton_self _) rfl
  have hadmits : ((w.handedDown c innermost outer).context c).Admits 1 := hdown.admits 1 hk
  have hq : p.any (·.exits) = false := by cases hop <;> rfl
  rw [← hinner] at hs hd ⊢
  refine ⟨w.bodyStart c innermost outer p, hp.reaches hw hc (hinner ▸ hs) (hinner ▸ hd) hn hop,
    fun m => ⟨fun h => ?_, fun y x h => ?_⟩⟩
  · refine Host.body_of_answer hs hd hadmits (Host.answer_innermost hp hnodup hc hk hq ?_)
    rw [Host.run_eq_of_resumes (hop.resumes _)] at h
    exact Option.isSome_of_isSome_bind h
  · have hthrown : (handedPayload p outer).bind (·.thrown?) = none := by
      cases hop <;> cases outer <;> rfl
    have hanswer := Host.answer_handedUp hp hnodup hc hk hq
      (Host.answer_yields hs hd hadmits hthrown h)
    have hkept : (w.bodyStart c innermost outer p).Kept x := (Engine.perform_keeps
      (host.trusts m) c _ _ (hp.bodyStart_settled hw hc (hinner ▸ hs) (hinner ▸ hd) hn p)).2 _ _ h
    refine ⟨_, by rw [Host.run_eq_of_resumes (hop.resumes _), hanswer]; rfl, ?_⟩
    exact hp.returnsFrom hw hc (hinner ▸ hs) (hinner ▸ hd) hn hkept _

theorem relay_yields {u u' : World Unit} (h : Exec.takePayload.run u = some (.ok v, u'))
    (n : Nat) (c : Ref .context) (t : Target) :
    (relay.run (n + 1) c (relay.body t)).run u =
      some (.ok (.yields ⟨v, 0, if t.program < 2 then some ⟨t.program + 1⟩ else none, none⟩),
        u') := by
  have htake : (relay.answer (n + 1) c .take).run u = some (.ok v, u') := h
  change Option.bind ((relay.answer (n + 1) c .take).run u) _ = _
  rw [htake]
  rfl

theorem relay_passes_on : ∃ w',
    (relay.run 8 ⟨0⟩ (Action.send ⟨0⟩ (.bool true)).run).run startedRelay.2 =
        some (.ok (.bool true), w') ∧
      startedRelay.2.ReturnsFrom [⟨0⟩, ⟨1⟩] ⟨2⟩ w' := by
  have hrelay := relay_started
  obtain ⟨u, hreaches, hrun⟩ := (delegation_transparent_to_values relay).2 ⟨0⟩ ⟨0⟩ ⟨2⟩ _
    (.bool true) _ _ startedRelay.2 hrelay.settled hrelay.valid hrelay.passes hrelay.suspended
    hrelay.last (by decide) hrelay.admits (.send _)
  obtain ⟨u', htakes⟩ := hreaches.takes
  exact (hrun 5).2 _ u' (relay_yields htakes 4 ⟨0⟩ _)

end Resumable
