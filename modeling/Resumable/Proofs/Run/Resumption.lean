import Resumable.Proofs.Run.Keeps

/-!
# Resumptions keep worlds coherent

Each piece of a resumption is one step of a generator: entering its body, leaving it, forwarding
to its delegate and hearing from it. `Resumed g w w'` says that what a resumption of `g` leads to
is `Kept`, and that `g` stands afterwards as the run of its body left it, if its body ran.
-/

namespace Resumable

open Exec (Alike Keeps Quiet)

variable {σ : Type}

/-- What the end of a run of the body makes of the generator. -/
def Generator.leftBy (r : Except Failure BodyResult) (x : Generator) : Generator :=
  match r with
  | .ok (.yields s) => x.suspend s
  | _ => x.finish

def Standing.leftBy : Except Failure BodyResult → Standing
  | .ok (.yields s) => suspended s.delegate
  | _ => finished

theorem Happening.standing?_left (g : Ref .generator) (r : Except Failure BodyResult) :
    (left g r).standing? = some (.leftBy r) := by
  rcases r with _ | _ | _ <;> rfl

theorem Standing.Allows.of_entered {s : Standing} (h : s.Allows (.entered g p)) :
    s.delegate = none ∧ s.duty? = none := by
  cases h <;> exact ⟨rfl, rfl⟩

namespace World

variable {w w' u v x : World σ}

/-- What a resumption of a generator leads to. -/
structure Resumed (g : Ref .generator) (w w' : World σ) : Prop where
  settled : w'.Settled
  stack : SameStack w.calls w'.calls
  follows : ∃ later, w'.history = later ++ w.history ∧
    (∀ x ∈ later, dutyIn x.generator w.calls = none) ∧
    (∀ p, .entered g p ∈ later → ∃ r, .left g r ∈ later) ∧
    ∀ r, .left g r ∈ later → standing g w'.history = .leftBy r

theorem Resumed.kept (h : w.Resumed g w') : w.Kept w' := by
  obtain ⟨later, hl, hd, -, -⟩ := h.follows
  exact ⟨h.settled, h.stack, later, hl, hd⟩

theorem Resumed.refl (hw : w.Settled) : w.Resumed g w :=
  ⟨hw, .refl _, [], rfl, by simp, by simp, by simp⟩

theorem Resumed.after (early : List Happening) (h : v.Resumed g w') (hc : v.calls = w.calls)
    (hv : v.history = early ++ w.history) (hd : ∀ x ∈ early, dutyIn x.generator w.calls = none)
    (he : ∀ p, .entered g p ∉ early) (hr : ∀ r, .left g r ∉ early) : w.Resumed g w' := by
  obtain ⟨later, hl, hld, hle, hlr⟩ := h.follows
  refine ⟨h.settled, hc ▸ h.stack, later ++ early, by rw [hl, hv, List.append_assoc], ?_, ?_, ?_⟩
  · intro x hx
    rcases List.mem_append.mp hx with hx | hx
    · exact hc ▸ hld x hx
    · exact hd x hx
  · intro p hp
    obtain ⟨r, hm⟩ := hle p ((List.mem_append.mp hp).resolve_right (he p))
    exact ⟨r, List.mem_append_left _ hm⟩
  · intro r hm
    exact hlr r ((List.mem_append.mp hm).resolve_right (hr r))

-- ---------------------------------------------------------------------------
-- Steps
-- ---------------------------------------------------------------------------

theorem dutyIn_between_of_eq_none {g' : Ref .generator}
    (h : dutyIn g' (.level ⟨g, c, a⟩ :: rest) = none) :
    dutyIn g' (.level ⟨g, c, .between⟩ :: rest) = none := by
  rw [dutyIn_eq_none] at h ⊢
  intro y hy
  rcases List.mem_cons.mp hy with rfl | hy
  · simp [Call.duty?, Activity.duty?]
  · exact h y (List.mem_cons_of_mem _ hy)

theorem dutyIn_ne_none (ha : a.duty? ≠ none) : dutyIn g (.level ⟨g, c, a⟩ :: rest) ≠ none := by
  intro h
  have := dutyIn_eq_none.mp h _ (List.mem_cons_self ..)
  exact ha (by rwa [Call.duty?_level_self] at this)

def told (c : Ref .context) (g : Ref .generator) (e : TraceEvent) (w : World σ) : World σ :=
  (w.modifyContext c (·.emit e)).record (.traced c g e)

@[simp] theorem history_told (c : Ref .context) (g : Ref .generator) (e : TraceEvent) :
    (w.told c g e).history = .traced c g e :: w.history := rfl

@[simp] theorem generators_told (c : Ref .context) (g : Ref .generator) (e : TraceEvent) :
    (w.told c g e).generators = w.generators := rfl

@[simp] theorem calls_told (c : Ref .context) (g : Ref .generator) (e : TraceEvent) :
    (w.told c g e).calls = w.calls := rfl

theorem Steady.told (c : Ref .context) (g : Ref .generator) (e : TraceEvent) (w : World σ) :
    w.Steady (w.told c g e) :=
  have h : w.Steady (w.modifyContext c (·.emit e)) := .modifyContext c fun _ => rfl
  ⟨h.valid, h.meter⟩

theorem Settled.told (hw : w.Settled) (allows : (standing g w.history).Allows (.traced c g e))
    (same : standing g (.traced c g e :: w.history) = standing g w.history) :
    (w.told c g e).Settled := by
  have hpays : ∀ g' p, standing g' w.history = .owed p →
      Happening.traced c g e = .entered g' (some p) := fun g' p h => absurd h (hw.paid g' p)
  refine ⟨hw.happen (h := .traced c g e) rfl allows hpays (by simp [World.told, record]) ?_
    (fun g' _ => rfl) ?_ (fun g' _ => rfl) hw.apart, ?_⟩
  · refine (hw.course g).trans ?_
    refine Eq.trans ?_ (Course.ofHistory_cons_self (.traced c g e) w.history).symm
    have hs := (standing_cons_self (.traced c g e) w.history).symm.trans same
    simp only [Happening.generator] at hs
    simp only [Happening.generator, hs, Happening.offset?, Happening.target?, Option.getD_none]
    rfl
  · exact (hw.duty g).trans (congrArg Standing.duty? same.symm)
  · exact Coherent.paid hpays fun p h => hw.paid g p (same.symm.trans h)

theorem Resumed.told (hw : w.Settled) (hd : dutyIn g w.calls = none)
    (allows : (standing g w.history).Allows (.traced c g e))
    (same : standing g (.traced c g e :: w.history) = standing g w.history) :
    w.Resumed g (w.told c g e) :=
  ⟨hw.told allows same, .refl _, [.traced c g e], rfl, by simpa [Happening.generator] using hd,
    by simp, by simp⟩

theorem Coherent.idle_of_entered (hw : w.Coherent)
    (allows : (standing g w.history).Allows (.entered g p)) : dutyIn g w.calls = none :=
  (hw.duty g).trans allows.of_entered.2

/-- The world in which a run of the body of `g` begins. -/
def begun (c : Ref .context) (g : Ref .generator) (p : Option Payload) (kind : ResumeKind)
    (w : World σ) : World σ :=
  let a : Activation := ⟨(w.generator g).template.forResumption p, (w.generator g).offset⟩
  let v := ((w.modifyGenerator g ({ · with state := .running })).setActivity (.running a)).record
    (.entered g p)
  v.told c g (.resume (w.generator g).qualifiedName kind (v.context c).depth)

theorem Coherent.entering (hw : w.Coherent) (hc : w.calls = .level ⟨g, c, .between⟩ :: rest)
    (allows : (standing g w.history).Allows (.entered g p))
    (pays : ∀ g' q, standing g' w.history = .owed q →
      Happening.entered g p = .entered g' (some q)) (a : Activation) :
    (((w.modifyGenerator g ({ · with state := .running })).setActivity (.running a)).record
      (.entered g p)).Settled := by
  obtain ⟨hdelegate, hduty⟩ := allows.of_entered
  have hcourse := hw.course g
  simp only [Generator.course, Course.ofHistory, Course.mk.injEq, hdelegate] at hcourse
  have hnext : standing g (.entered g p :: w.history) = .inBody :=
    standing_cons_self (.entered g p) w.history
  have hcoh : (((w.modifyGenerator g ({ · with state := .running })).setActivity
      (.running a)).record (.entered g p)).Coherent := by
    refine hw.happenOnTop (h := .entered g p) (by simp) hc
      (calls_setActivity (w := w.modifyGenerator g _) hc _) (by simp [Happening.generator]; rfl)
      allows pays (by simp) ?_ (.inr hduty) (by rw [Happening.generator, hnext]; rfl)
    simp [Happening.generator, hnext, Generator.course, Happening.offset?, Happening.target?,
      hcourse.2.1, Standing.state, Standing.delegate]
  refine ⟨hcoh, ?_⟩
  simp only [history_record, history_setActivity, history_modifyGenerator]
  exact Coherent.paid pays (by simp [Happening.generator, hnext])

theorem Coherent.standing_of_running (hw : w.Coherent)
    (hc : w.calls = .level ⟨g, c, .running a⟩ :: rest) : standing g w.history = .inBody := by
  have hd := hw.duty g
  rw [hc, dutyIn_cons, Call.duty?_level_self] at hd
  exact Standing.duty?_eq_body.mp hd.symm

theorem calls_begun (hc : w.calls = .level ⟨g, c, .between⟩ :: rest) (p : Option Payload)
    (kind : ResumeKind) : ∃ a, (w.begun c g p kind).calls = .level ⟨g, c, .running a⟩ :: rest :=
  ⟨_, calls_setActivity (w := w.modifyGenerator g _) hc _⟩

theorem history_begun (c : Ref .context) (g : Ref .generator) (p : Option Payload)
    (kind : ResumeKind) (w : World σ) :
    (w.begun c g p kind).history =
      .traced c g (.resume (w.generator g).qualifiedName kind (w.context c).depth) ::
        .entered g p :: w.history := by
  simp [begun, context, modifyGenerator, record]

theorem Steady.begun (c : Ref .context) (g : Ref .generator) (p : Option Payload)
    (kind : ResumeKind) (w : World σ) : w.Steady (w.begun c g p kind) := by
  let a : Activation := ⟨(w.generator g).template.forResumption p, (w.generator g).offset⟩
  have hset : w.Steady (((w.modifyGenerator g ({ · with state := .running })).setActivity
      (.running a)).record (.entered g p)) := .of_contexts (contexts_setActivity _)
  exact hset.trans (.told c g _ _)

theorem Coherent.begun (hw : w.Coherent) (hc : w.calls = .level ⟨g, c, .between⟩ :: rest)
    (allows : (standing g w.history).Allows (.entered g p))
    (pays : ∀ g' q, standing g' w.history = .owed q →
      Happening.entered g p = .entered g' (some q)) (kind : ResumeKind) :
    (w.begun c g p kind).Settled := by
  let a : Activation := ⟨(w.generator g).template.forResumption p, (w.generator g).offset⟩
  have hentered := hw.entering hc allows pays a
  have hin := hentered.standing_of_running
    (calls_setActivity (w := w.modifyGenerator g ({ · with state := .running })) hc _)
  refine hentered.told ?_ (standing_cons_self (.traced c g _) _)
  rw [hin]
  exact .tracedResume

theorem Settled.leaving (hw : w.Settled) (hc : w.calls = .level ⟨g, c, .running a⟩ :: rest)
    (r : Except Failure BodyResult) :
    (((w.record (.left g r)).setActivity .between).modifyGenerator g (·.leftBy r)).Settled := by
  have hin := hw.standing_of_running hc
  have hpays : ∀ g' p, standing g' w.history = .owed p →
      Happening.left g r = .entered g' (some p) := fun g' p h => absurd h (hw.paid g' p)
  have hnext : standing g (.left g r :: w.history) = .leftBy r := by
    refine (standing_cons_self (.left g r) w.history).trans ?_
    rw [Happening.standing?_left, Option.getD_some]
  have hcoh : (((w.record (.left g r)).setActivity .between).modifyGenerator g
      (·.leftBy r)).Coherent := by
    refine hw.happenOnTop (h := .left g r) (by simp) hc
      (calls_setActivity (w := w.record _) hc _) (by simp [Happening.generator]; rfl)
      (by rw [Happening.generator, hin]; exact .left) hpays (by simp) ?_
      (.inl (by simp [Activity.duty?])) ?_
    · rw [Happening.generator, hnext]
      rcases r with _ | s | _
      all_goals simp [Generator.leftBy, Standing.leftBy, Generator.suspend, Generator.finish,
        Generator.course, Happening.offset?, Happening.target?, Standing.state, Standing.delegate]
    · rw [Happening.generator, hnext]
      rcases r with _ | _ | _ <;> rfl
  refine ⟨hcoh, ?_⟩
  simp only [history_record, history_setActivity, history_modifyGenerator]
  refine Coherent.paid hpays fun p => ?_
  rw [Happening.generator, hnext]
  rcases r with _ | _ | _ <;> simp [Standing.leftBy]

theorem Idle.between {f : Generator → Generator} (h : (w.modifyGenerator g f).Idle v)
    (hc : w.calls = .level ⟨g, c, .running a⟩ :: rest) :
    ((w.setActivity .between).modifyGenerator g f).Idle
      ((v.setActivity .between).modifyGenerator g id) := by
  obtain ⟨b, hb⟩ := (hc ▸ h.stack : SameStack (.level ⟨g, c, .running a⟩ :: rest) _).of_running
  refine .trans ⟨?_, fun g' => ?_, fun g' => ?_, ?_⟩ (.modifyGenerator fun _ => rfl)
  · simpa using h.history
  · have hg := h.course g'
    simp only [generator, generators_modifyGenerator, generators_setActivity] at hg ⊢
    exact hg
  · have hg := h.made g'
    simp only [generators_modifyGenerator, generators_setActivity] at hg ⊢
    exact hg
  · rw [calls_modifyGenerator, calls_setActivity hb, calls_setActivity hc]
    exact .refl _

/-- A run of the body, from its entry to the event that tells of its end. -/
theorem Resumed.of_body (hw : w.Coherent) (hc : w.calls = .level ⟨g, c, .between⟩ :: rest)
    (allows : (standing g w.history).Allows (.entered g p))
    (hu : u.history = .entered g p :: w.history) (huc : u.calls = .level ⟨g, c, .running a⟩ :: rest)
    (hv : (u.told c g e).Kept v) (hx : x.Settled) (hxh : x.history = .left g r :: v.history)
    (hxc : x.calls = w.calls) (hr : (Standing.leftBy r).Allows (.traced c g e'))
    (hs : (Happening.traced c g e').standing?.getD (.leftBy r) = .leftBy r) :
    w.Resumed g (x.told c g e') := by
  obtain ⟨later, hl, hd⟩ := hv.follows
  have hg : dutyIn g w.calls = none := hw.idle_of_entered allows
  have hne : ∀ x ∈ later, x.generator ≠ g := fun x hx he =>
    dutyIn_ne_none (by simp [Activity.duty?]) (huc ▸ he ▸ hd x hx)
  have hleft : standing g x.history = .leftBy r := by
    rw [hxh]
    exact (standing_cons_self (.left g r) _).trans (by rw [Happening.standing?_left]; rfl)
  have htold : standing g (.traced c g e' :: x.history) = .leftBy r := by
    refine (standing_cons_self (.traced c g e') _).trans ?_
    rw [Happening.generator, hleft, hs]
  refine ⟨hx.told (hleft ▸ hr) (htold.trans hleft.symm), hxc ▸ .refl _,
    .traced c g e' :: .left g r :: later ++ [.traced c g e, .entered g p], by simp [hxh, hl, hu],
    ?_, ?_, ?_⟩
  · intro y hy
    simp only [List.cons_append, List.mem_cons, List.mem_append, List.not_mem_nil, or_false] at hy
    rcases hy with rfl | rfl | hy | rfl | rfl
    · exact hg
    · exact hg
    · rw [hc]
      exact dutyIn_between_of_eq_none (huc ▸ hd y hy)
    · exact hg
    · exact hg
  · exact fun _ _ => ⟨r, by simp⟩
  · intro r' hr
    simp only [List.cons_append, List.mem_cons, List.mem_append, List.not_mem_nil, or_false] at hr
    rcases hr with hr | hr | hr | hr | hr
    · cases hr
    · cases hr
      exact htold
    · exact absurd rfl (hne _ hr)
    · cases hr
    · cases hr

/-- A run of the body of `g`, of which the history tells from its entry to its end. -/
def RunBody (c : Ref .context) (g : Ref .generator) (p : Option Payload) (w w' : World σ) : Prop :=
  ∃ name kind e r later, w'.history = .traced c g e :: .left g r ::
      (later ++ .traced c g (.resume name kind (w.context c).depth) :: .entered g p :: w.history) ∧
    (∀ name kind d, e ≠ .resume name kind d) ∧ ∀ x ∈ later, x.generator ≠ g

end World

namespace Engine

variable {e e' : Engine σ} {w : World σ}

-- ---------------------------------------------------------------------------
-- The run of a body
-- ---------------------------------------------------------------------------

theorem escape_quiet (c : Ref .context) (g : Ref .generator) (thrown : Option Exc) (f : Failure) :
    Quiet (escape c g thrown f : Exec σ Failure) := by
  cases f with
  | raised r =>
    unfold escape
    refine .ite ?_ (.bind (.chainCaller _ _) fun _ => ?_)
    -- The ways part only at the link; what follows is the same.
    all_goals
      refine .bind .of_get fun w => .bind (.pushTraceback _ _) fun _ => .ite ?_ (.pure _)
      refine .bind (.newText _) fun _ => .bind (.newExc _ _ _) fun wrapper => ?_
      exact .bind (.modifyLinks wrapper _) fun _ => .pure _
  | _ => exact .pure _

theorem heeded_run (r : Except Failure BodyResult) (w : World σ) :
    ∃ r', (heeded r).run w = some (r', w) := by
  cases r with
  | error f => exact ⟨_, rfl⟩
  | ok r =>
    cases h : w.activation?.any (·.hasPendingThrow) with
    | true => exact ⟨.error (.internal "call target ignored a thrown exception"), by
        simp [heeded, h]⟩
    | false => exact ⟨.ok r, by simp [heeded, h]⟩

theorem runBody_alike (he : e.Trusts e') (hw : w.Coherent)
    (hc : w.calls = .level ⟨g, c, .between⟩ :: rest)
    (allows : (standing g w.history).Allows (.entered g p))
    (pays : ∀ g' q, standing g' w.history = .owed q →
      Happening.entered g p = .entered g' (some q)) (kind : ResumeKind) :
    Alike (e.runBody c g p kind) (e'.runBody c g p kind) w fun _ w' => w.Resumed g w' := by
  simp only [runBody, he.host]
  refine .step rfl (.step rfl (.step rfl (.step rfl ?_)))
  let a : Activation := ⟨(w.generator g).template.forResumption p, (w.generator g).offset⟩
  let entered := ((w.modifyGenerator g ({ · with state := .running })).setActivity
    (.running a)).record (.entered g p)
  have hentered : entered.Settled := hw.entering hc allows pays a
  have hcalls : entered.calls = .level ⟨g, c, .running a⟩ :: rest :=
    World.calls_setActivity (w := w.modifyGenerator g _) hc _
  have hhist : entered.history = .entered g p :: w.history := by simp [entered]
  change Alike _ _ entered _
  have hin := hentered.standing_of_running hcalls
  refine .step rfl (.bind (perform_keeps he c _ _ (hentered.told ?_ ?_)) fun r v hv => ?_)
  · rw [hin]
    exact .tracedResume
  · exact standing_cons_self (.traced c g _) _
  obtain ⟨r, hr⟩ := heeded_run r v
  obtain ⟨b, hb⟩ := (hcalls ▸ hv.stack).of_running
  have hleft := hv.settled.leaving hb r
  refine .step hr (.step rfl ?_)
  have hleftCalls : (((v.record (.left g r)).setActivity .between).modifyGenerator g
      (·.leftBy r)).calls = w.calls :=
    (World.calls_setActivity (w := v.record _) hb _).trans hc.symm
  have hleftHistory : (((v.record (.left g r)).setActivity .between).modifyGenerator g
      (·.leftBy r)).history = .left g r :: v.history := by simp
  rcases r with f | s | x
  · -- The place of the body goes into the traceback while it still counts as running.
    refine .step rfl (.bind (escape_quiet c g _ f _) fun f' z hz => .step rfl (.step rfl (.pure ?_)))
    have hz' := World.Idle.between (w := v.record (.left g (.error f))) hz.toIdle hb
    have hcz := ((hleftCalls.trans hc) ▸ hz'.stack).eq_of_between
    exact .of_body hw hc allows hhist hcalls hv (hz'.kept hleft).settled
      (hz'.history.trans hleftHistory) (hcz.trans hc.symm) .tracedFinish rfl
  · refine .step rfl (.step rfl (.pure ?_))
    exact .of_body hw hc allows hhist hcalls hv hleft hleftHistory hleftCalls .tracedYield rfl
  · refine .step rfl (.step rfl (.pure ?_))
    exact .of_body hw hc allows hhist hcalls hv hleft hleftHistory hleftCalls .tracedFinish rfl

theorem runBody_run (c : Ref .context) (g : Ref .generator) (p : Option Payload)
    (kind : ResumeKind) (w : World σ) :
    (e.runBody c g p kind).run w =
      ((e.perform c (e.host.body (w.generator g).target)).run (w.begun c g p kind)).bind fun r =>
        (heeded r.1 >>= conclude c g (w.generator g).qualifiedName (p.bind (·.thrown?))).run r.2 :=
  rfl

theorem conclude_history (c : Ref .context) (g : Ref .generator) (name : String)
    (thrown : Option Exc) (r : Except Failure BodyResult) (w : World σ) :
    Alike (conclude c g name thrown r) (conclude c g name thrown r) w fun _ w' => w.Steady w' ∧
      ∃ e, w'.history = .traced c g e :: .left g r :: w.history ∧ e.Ends r := by
  have hend : ∀ (v : World σ) (f : Generator → Generator) e, w.Steady v →
      w.Steady (((v.setActivity .between).modifyGenerator g f).told c g e) := fun v f e hv => by
    have hset : v.Steady ((v.setActivity .between).modifyGenerator g f) :=
      .of_contexts (World.contexts_setActivity _)
    exact (hv.trans hset).trans (.told c g e _)
  refine .step rfl ?_
  rcases r with f | s | v
  · refine .step rfl (.bind (escape_quiet c g thrown f _) fun f' v hv => ?_)
    have hleft : w.Steady ((w.record (.left g (.error f))).modifyGenerator g (·.finish)) :=
      .of_contexts rfl
    refine .step rfl (.step rfl (.pure ⟨hend v id _ (hleft.trans hv.toSteady), ?_⟩))
    exact ⟨.finish name .raised, by simpa using hv.history, .raised⟩
  · refine .step rfl (.step rfl (.pure ⟨hend _ _ _ (.of_contexts rfl), ?_⟩))
    exact ⟨.yield name s.resumeAt, by simp, .yielded⟩
  · refine .step rfl (.step rfl (.pure ⟨hend _ _ _ (.of_contexts rfl), ?_⟩))
    exact ⟨.finish name .returned, by simp, .returned⟩

theorem runBody_follows {r : Regime σ} (he : e.Under r e) (hb : r.Admits (w.begun c g p kind)) :
    Alike (e.runBody c g p kind) (e.runBody c g p kind) w fun _ w' =>
      ∃ v b t, r.Leads (w.begun c g p kind) v ∧ v.Steady w' ∧
        w'.history = .traced c g t :: .left g b :: v.history ∧ t.Ends b := by
  refine .self fun o w' h => ?_
  rw [runBody_run] at h
  obtain ⟨⟨result, v⟩, hv, h⟩ := Option.bind_eq_some_iff.mp h
  have hleads := (perform_follows he c _ _ hb).2 _ _ hv
  obtain ⟨b, hr⟩ := heeded_run result v
  rw [StateT.run_bind, hr] at h
  obtain ⟨hsteady, t, hconclude, ht⟩ := (conclude_history c g _ _ b v).2 o w' h
  exact ⟨v, b, t, hleads, hsteady, hconclude, ht⟩

theorem others_of_begun {later : List Happening} (hc : w.calls = .level ⟨g, c, .between⟩ :: rest)
    (h : ∀ x ∈ later, dutyIn x.generator (w.begun c g p kind).calls = none) :
    ∀ x ∈ later, x.generator ≠ g := fun x hx hg => by
  obtain ⟨a, hcalls⟩ := World.calls_begun hc p kind
  exact World.dutyIn_ne_none (by simp [Activity.duty?]) (hcalls ▸ hg ▸ h x hx)

theorem runBody_history (he : e.Trusts e) (hw : w.Coherent)
    (hc : w.calls = .level ⟨g, c, .between⟩ :: rest)
    (allows : (standing g w.history).Allows (.entered g p))
    (pays : ∀ g' q, standing g' w.history = .owed q →
      Happening.entered g p = .entered g' (some q)) (kind : ResumeKind) :
    Alike (e.runBody c g p kind) (e.runBody c g p kind) w fun _ w' => w.RunBody c g p w' := by
  refine (runBody_follows he (hw.begun hc allows pays kind)).mono ?_
  rintro _ w' ⟨v, b, t, hkept, -, hconclude, ht⟩
  obtain ⟨later, hlater, hd⟩ := hkept.follows
  refine ⟨(w.generator g).qualifiedName, kind, t, b, later, ?_, ht.ne_resume, others_of_begun hc hd⟩
  rw [hconclude, hlater, World.history_begun]

end Engine

end Resumable
