import Resumable.Proofs.Run.Admission
import Resumable.Proofs.Run.Forwarding
import Resumable.Run.Answer

/-!
# Requests keep worlds coherent

What a request does to a generator that runs is nothing; what it does to another one is a
resumption, or the finishing of a generator whose body does not run.
-/

namespace Resumable

open Exec (Alike Keeps Quiet)

variable {σ : Type}

namespace World

variable {w w' u v : World σ}

-- ---------------------------------------------------------------------------
-- One level in
-- ---------------------------------------------------------------------------

def inward (c : Ref .context) (g : Ref .generator) (w : World σ) : World σ :=
  (w.modifyContext c fun _ => (w.context c).entered).push (.level ⟨g, c, .between⟩)

theorem duty?_between (g' : Ref .generator) : (Call.level ⟨g, c, .between⟩).duty? g' = none := by
  by_cases h : g = g'
  · exact h ▸ Call.duty?_level_self g c .between
  · exact Call.duty?_level_of_ne h

theorem Resumed.pop {x : Call} (h : (w.push x).Resumed g w') (hx : ∀ g, x.duty? g = none)
    (hc : w'.calls = x :: w.calls) : w.Resumed g w'.pop := by
  obtain ⟨later, hl, hd, he, hr⟩ := h.follows
  refine ⟨h.settled.pop hx hc, ?_, later, hl, fun y hy => ?_, he, hr⟩
  · simp only [World.pop, hc, List.tail_cons]
    exact .refl _
  · rw [← dutyIn_push hx]
    exact hd y hy

theorem Resumed.idle (h : w.Idle v) (hr : v.Resumed g w') : w.Resumed g w' := by
  obtain ⟨later, hl, hd, he, hr'⟩ := hr.follows
  refine ⟨hr.settled, h.stack.trans hr.stack, later, by rw [hl, h.history], fun x hx => ?_, he, hr'⟩
  rw [← h.stack.dutyIn_eq]
  exact hd x hx

theorem Idle.resumed (h : w.Idle w') (hw : w.Settled) : w.Resumed g w' :=
  .idle h (.refl (h.kept hw).settled)

theorem Resumed.idled (hr : w.Resumed g v) (h : v.Idle w') : w.Resumed g w' := by
  obtain ⟨later, hl, hd, he, hr'⟩ := hr.follows
  refine ⟨(h.kept hr.settled).settled, hr.stack.trans h.stack, later, h.history.trans hl, hd, he, ?_⟩
  rw [h.history]
  exact hr'

theorem Resumed.leave {f : Context → Context} (hr : (w.push (.level ⟨g, c, .between⟩)).Resumed g v) :
    w.Resumed g (v.modifyContext c f).pop :=
  (hr.pop duty?_between hr.stack.eq_of_between).idled (.of_eq rfl rfl rfl)

-- ---------------------------------------------------------------------------
-- Generators whose body does not run
-- ---------------------------------------------------------------------------

theorem Settled.finishing {f : Generator → Generator} (hw : w.Settled) (reason : FinishReason)
    (hstands : standing g w.history = .fresh ∨ ∃ d, standing g w.history = .suspended d)
    (course : (f (w.generator g)).course =
      ⟨.finished, none, (w.generator g).offset, (w.generator g).target⟩) :
    w.Resumed g ((w.modifyGenerator g f).told c g (.finish n reason)) := by
  have hd : dutyIn g w.calls = none := by
    rw [hw.duty]
    rcases hstands with h | ⟨d, h⟩ <;> rw [h] <;> rfl
  have hnext : standing g (.traced c g (.finish n reason) :: w.history) = .finished :=
    standing_finish
  have hpays : ∀ g' p, standing g' w.history = .owed p →
      Happening.traced c g (.finish n reason) = .entered g' (some p) :=
    fun g' p h => absurd h (hw.paid g' p)
  have hv : w.generators.Valid g := by
    refine (hw.made g).mpr fun he => ?_
    rcases hstands with h | ⟨d, h⟩ <;> rw [he] at h <;> cases h
  have hcourse := hw.course g
  simp only [Generator.course, Course.ofHistory, Course.mk.injEq] at hcourse
  refine ⟨⟨hw.happen (h := .traced c g (.finish n reason)) rfl ?_ hpays ?_ ?_ ?_ ?_ (fun _ _ => rfl)
    hw.apart, Coherent.paid hpays (by simp [Happening.generator, hnext])⟩, .refl _,
    [.traced c g (.finish n reason)], rfl, by simpa [Happening.generator] using hd, by simp, by simp⟩
  · rcases hstands with h | ⟨d, h⟩
    · rw [Happening.generator, h]
      exact .closedFresh
    · rw [Happening.generator, h]
      exact .closedSuspended
  · intro g'
    simp
  · refine (congrArg Generator.course (generator_modify_self hv)).trans (course.trans ?_)
    refine .trans ?_ (Course.ofHistory_cons_self (.traced c g (.finish n reason)) w.history).symm
    simp only [hcourse.2.2]
    rfl
  · intro g' hg
    exact congrArg Generator.course (generator_modify_of_ne (Ne.symm hg))
  · rw [Happening.generator, hnext]
    exact hd

end World

-- ---------------------------------------------------------------------------
-- Resumptions
-- ---------------------------------------------------------------------------

namespace Engine

variable {e e' : Engine σ} {w : World σ}

theorem enter_alike (c : Ref .context) (g : Ref .generator) (w : World σ) :
    Alike (Exec.enter c g) (Exec.enter c g) w fun a v => match a with
      | .error _ => w.Idle v
      | .ok () => ∃ u, w.Idle u ∧ u.calls = w.calls ∧ v = u.push (.level ⟨g, c, .between⟩) := by
  unfold Exec.enter
  refine .step (x := get) (a := w) rfl ?_
  obtain ⟨admitted, entered⟩ := (w.context c).enter
  have hidle : w.Idle (w.modifyContext c fun _ => entered) := .of_eq rfl rfl rfl
  refine .step rfl ?_
  cases admitted with
  | error cause =>
    exact .bind (Quiet.fault (.limit cause) _) fun f v hv => .pure (hidle.trans hv.toIdle)
  | ok _ => exact .step rfl (.pure ⟨_, hidle, rfl, rfl⟩)

/-- Does something one level in, if the limits allow it. -/
def inward (c : Ref .context) (g : Ref .generator) (x : Exec σ Outcome) : Exec σ Outcome := do
  match ← Exec.enter c g with
  | .error f => return .failed f
  | .ok () =>
    let outcome ← x
    Exec.leave c
    return outcome

theorem inward_alike {x y : Exec σ Outcome} (hw : w.Settled)
    (hx : ∀ v, v.Settled → v.calls = .level ⟨g, c, .between⟩ :: w.calls →
      v.history = w.history → Alike x y v fun _ w' => v.Resumed g w') :
    Alike (inward c g x) (inward c g y) w fun _ w' => w.Resumed g w' := by
  refine .bind (enter_alike c g w) fun a v hv => ?_
  cases a with
  | error f => exact .pure (hv.resumed hw)
  | ok _ =>
    obtain ⟨u, hu, hcalls, rfl⟩ := hv
    have hpush := (hu.kept hw).settled.push (World.duty?_between (g := g) (c := c))
    refine .bind (hx _ hpush (congrArg _ hcalls) hu.history) fun o w' hr => .step rfl (.pure ?_)
    exact .idle hu hr.leave

theorem finishAside_alike (hw : w.Settled) (hs : (w.generator g).state ≠ .suspended)
    (hr : (w.generator g).state ≠ .running) (c : Ref .context) :
    Alike (finishAside c g) (finishAside c g) w fun _ w' =>
      w.Resumed g w' ∧ (standing g w'.history).state = .finished := by
  refine .step (x := get) (a := w) rfl ?_
  dsimp only
  cases h : (w.generator g).state with
  | suspended => exact absurd h hs
  | running => exact absurd h hr
  | finished => exact .pure ⟨.refl hw, (hw.state_eq g).symm.trans h⟩
  | created =>
    have hfresh := hw.standing_of_created h
    refine .step rfl (.of_run rfl ⟨hw.finishing _ (.inl hfresh) ?_, ?_⟩)
    · simp [Generator.course, hw.delegate_eq, hfresh, Standing.delegate]
    · exact congrArg Standing.state standing_finish

theorem raisedAside_quiet (g : Ref .generator) (exc : Exc) (hostTrace : Bool) :
    Quiet (do
      Exec.pushTraceback exc ((← get).generator g).entrySnapshot
      return .raised ⟨exc, hostTrace⟩ : Exec σ Failure) :=
  .bind .of_get fun _ => .bind (.pushTraceback _ _) fun _ => .pure _

theorem throwAside_alike (hw : w.Settled) (hs : (w.generator g).state ≠ .suspended)
    (hr : (w.generator g).state ≠ .running) (c : Ref .context) (exc : Exc) (hostTrace : Bool) :
    Alike (throwAside c g exc hostTrace) (throwAside c g exc hostTrace) w fun _ w' =>
      w.Resumed g w' := by
  refine .bind (finishAside_alike hw hs hr c) fun _ v hv => ?_
  exact (raisedAside_quiet g exc hostTrace v).mono fun _ w' h => hv.1.idled h.toIdle

theorem quiet_alike {x : Exec σ α} (hx : Quiet x) (hw : w.Settled) :
    Alike x x w fun _ w' => w.Resumed g w' := (hx w).mono fun _ _ h => h.resumed hw

theorem failed_quiet (f : Fault) : Quiet (failed f : Exec σ Outcome) :=
  .bind (.fault f) fun _ => .pure _

/-- A generator that is advanced is refused, or its body is run one level in, or the resumption is
passed on there. -/
theorem advance_inward {Q : Outcome → World σ → Prop} (hw : w.Settled)
    (hquiet : ∀ {x : Exec σ Outcome}, Quiet x → Alike x x w Q)
    (hbody : ∀ p kind, (standing g w.history).Allows (.entered g p) →
      Alike (inward c g (e.runBody c g p kind)) (inward c g (e'.runBody c g p kind)) w Q)
    (hforward : ∀ sub v, standing g w.history = .suspended (some sub) →
      Alike (inward c g (e.forward c g sub v)) (inward c g (e'.forward c g sub v)) w Q)
    (sent : Option Value) : Alike (e.advance c g sent) (e'.advance c g sent) w Q := by
  refine .step (x := get) (a := w) rfl ?_
  dsimp only
  cases hs : (w.generator g).state with
  | running => exact hquiet (failed_quiet _)
  | finished => exact hquiet (.bind (.stopIteration _) fun _ => .pure _)
  | created =>
    have hfresh := hw.standing_of_created hs
    have hdelegate : (w.generator g).delegate = none := by
      rw [hw.delegate_eq, hfresh]
      rfl
    refine .ite (hquiet (failed_quiet _)) ?_
    rw [hdelegate]
    refine hbody _ _ ?_
    rw [hfresh]
    exact .entered
  | suspended =>
    have hstands := hw.standing_of_suspended hs
    refine .ite (hquiet (failed_quiet _)) ?_
    cases hdelegate : (w.generator g).delegate with
    | none =>
      refine hbody _ _ ?_
      rw [hstands, hdelegate]
      exact .resumed
    | some sub => exact hforward _ _ (by rw [hstands, hdelegate])

/-- An exception is thrown in one level in, unless there is no body to throw it into. -/
theorem inject_inward {Q : Outcome → World σ → Prop} (hw : w.Settled)
    (hquiet : ∀ {x : Exec σ Outcome}, Quiet x → Alike x x w Q)
    (haside : (w.generator g).state ≠ .suspended → (w.generator g).state ≠ .running →
      Alike (throwAside c g exc hostTrace) (throwAside c g exc hostTrace) w fun f => Q (.failed f))
    (hbody : ∀ p kind, (standing g w.history).Allows (.entered g p) →
      Alike (inward c g (e.runBody c g p kind)) (inward c g (e'.runBody c g p kind)) w Q)
    (hforward : ∀ sub kind, standing g w.history = .suspended (some sub) →
      Alike (inward c g (e.forwardThrow c g sub exc hostTrace kind))
        (inward c g (e'.forwardThrow c g sub exc hostTrace kind)) w Q) :
    Alike (e.inject c g exc hostTrace) (e'.inject c g exc hostTrace) w Q := by
  refine .step (x := get) (a := w) rfl ?_
  dsimp only
  cases hs : (w.generator g).state with
  | running => exact hquiet (failed_quiet _)
  | created | finished => exact .bind (haside (by simp [hs]) (by simp [hs])) fun _ _ hv => .pure hv
  | suspended =>
    have hstands := hw.standing_of_suspended hs
    cases hdelegate : (w.generator g).delegate with
    | none =>
      refine hbody _ _ ?_
      rw [hstands, hdelegate]
      exact .resumed
    | some sub => exact hforward _ _ (by rw [hstands, hdelegate])

theorem runBody_inward_alike (he : e.Trusts e') (hw : w.Settled) (kind : ResumeKind)
    (allows : (standing g w.history).Allows (.entered g p)) :
    Alike (inward c g (e.runBody c g p kind)) (inward c g (e'.runBody c g p kind)) w
      fun _ w' => w.Resumed g w' :=
  inward_alike hw fun _ hv hcalls hhist =>
    runBody_alike he hv.toCoherent hcalls (hhist ▸ allows) (fun g p h => absurd h (hv.paid g p)) kind

theorem advance_alike (he : e.Trusts e') (hw : w.Settled) (c : Ref .context) (g : Ref .generator)
    (sent : Option Value) :
    Alike (e.advance c g sent) (e'.advance c g sent) w fun _ w' => w.Resumed g w' :=
  advance_inward hw (fun hx => quiet_alike hx hw)
    (fun _ kind allows => runBody_inward_alike he hw kind allows)
    (fun _ v hs => inward_alike hw fun _ hv hcalls hhist =>
      forward_alike he hv hcalls (hhist ▸ hs) v) sent

theorem inject_alike (he : e.Trusts e') (hw : w.Settled) (c : Ref .context) (g : Ref .generator)
    (exc : Exc) (hostTrace : Bool) :
    Alike (e.inject c g exc hostTrace) (e'.inject c g exc hostTrace) w fun _ w' =>
      w.Resumed g w' :=
  inject_inward hw (fun hx => quiet_alike hx hw)
    (fun hs hr => throwAside_alike hw hs hr c exc hostTrace)
    (fun _ kind allows => runBody_inward_alike he hw kind allows)
    fun _ kind hs => inward_alike hw fun _ hv hcalls hhist =>
      forwardThrow_alike he hv hcalls (hhist ▸ hs) exc hostTrace kind

theorem resume_alike (he : e.Trusts e') (hw : w.Settled) (c : Ref .context) (g : Ref .generator)
    (p : Option Payload) :
    Alike (e.resume c g p) (e'.resume c g p) w fun _ w' => w.Resumed g w' := by
  rcases p with _ | v | ⟨exc, hostTrace⟩
  · exact advance_alike he hw c g none
  · exact advance_alike he hw c g (some v)
  · exact inject_alike he hw c g exc hostTrace

-- ---------------------------------------------------------------------------
-- Closing
-- ---------------------------------------------------------------------------

theorem exitBody_alike (he : e.Trusts e') (hw : w.Settled)
    (hc : w.calls = .level ⟨g, c, .between⟩ :: rest)
    (hs : standing g w.history = .suspended d) :
    Alike (e.exitBody c g) (e'.exitBody c g) w fun _ w' => w.Resumed g w' := by
  have hdelegate : (w.generator g).delegate = d := by
    rw [hw.delegate_eq, hs]
    rfl
  refine .step (x := get) (a := w) rfl ?_
  dsimp only
  refine .bind (Quiet.newExc .generatorExit none [] w) fun exit v hv => ?_
  have hsettled := (hv.kept hw).settled
  have hcalls := (hc ▸ hv.stack).eq_of_between
  rw [← hv.history] at hs
  rw [hdelegate]
  cases d with
  | none =>
    refine (runBody_alike he hsettled.toCoherent hcalls ?_
      (fun g p h => absurd h (hsettled.paid g p)) _).mono fun _ w' h => .idle hv.toIdle h
    rw [hs]
    exact .resumed
  | some sub =>
    exact (forwardThrow_alike he hsettled hcalls hs exit false .close).mono fun _ _ h =>
      .idle hv.toIdle h

theorem finishAnyway_alike (hw : w.Settled) (hr : (w.generator g).state ≠ .running)
    (c : Ref .context) :
    Alike (finishAnyway c g) (finishAnyway c g) w fun _ w' =>
      w.Kept w' ∧ (w'.generator g).state = .finished := by
  refine .step (x := get) (a := w) rfl ?_
  dsimp only
  have hfinish : standing g w.history = .fresh ∨ (∃ d, standing g w.history = .suspended d) →
      w.Kept ((w.modifyGenerator g (·.finish)).told c g
        (.finish (w.generator g).qualifiedName .closed)) ∧
      (((w.modifyGenerator g (·.finish)).told c g
        (.finish (w.generator g).qualifiedName .closed)).generator g).state = .finished := by
    intro hstands
    have h := hw.finishing (c := c) (n := (w.generator g).qualifiedName) (f := (·.finish))
      .closed hstands rfl
    exact ⟨h.kept, (h.settled.state_eq g).trans (congrArg Standing.state standing_finish)⟩
  cases h : (w.generator g).state with
  | running => exact absurd h hr
  | finished => exact .pure ⟨.refl hw, h⟩
  | created => exact .step rfl (.of_run rfl (hfinish (.inl (hw.standing_of_created h))))
  | suspended => exact .step rfl (.of_run rfl (hfinish (.inr ⟨_, hw.standing_of_suspended h⟩)))

theorem giveUp_alike (hw : w.Settled) (hs : (w.generator g).state = .suspended)
    (c : Ref .context) :
    Alike (dropDelegate g) (dropDelegate g) w fun _ v =>
      Alike (finishAside c g) (finishAside c g) v fun _ w' =>
        w.Kept w' ∧ (w'.generator g).state = .finished := by
  have hv : w.generators.Valid g := (hw.made g).mpr fun he => by
    rw [hw.state_eq, he] at hs
    cases hs
  have hgen := World.generator_modify_self (f := ({ · with delegate := none })) hv
  refine .of_run rfl (.step (x := get) (a := w.modifyGenerator g ({ · with delegate := none })) rfl ?_)
  dsimp only
  rw [hgen, hs]
  refine .step rfl (.of_run rfl ?_)
  have h : w.Resumed g (((w.modifyGenerator g ({ · with delegate := none })).modifyGenerator g
      ({ · with state := .finished })).told c g (.finish (w.generator g).qualifiedName .closed)) := by
    rw [World.modifyGenerator_modifyGenerator]
    exact hw.finishing _ (.inr ⟨_, hw.standing_of_suspended hs⟩) rfl
  exact ⟨h.kept, (h.settled.state_eq g).trans (congrArg Standing.state standing_finish)⟩

theorem closeResult_quiet (o : Outcome) : Quiet (closeResult o : Exec σ (Except Failure Unit)) := by
  cases o with
  | yielded v => exact .bind (.fault _) fun _ => .pure _
  | returned v => exact .pure _
  | failed f => exact .ite (.pure _) (.pure _)

theorem close_alike (he : e.Trusts e') (hw : w.Settled) (c : Ref .context) (g : Ref .generator) :
    Alike (e.close c g) (e'.close c g) w fun _ w' =>
      w.Kept w' ∧ ((w.generator g).state ≠ .running → (w'.generator g).state = .finished) := by
  refine .step (x := get) (a := w) rfl ?_
  cases hs : (w.generator g).state with
  | running =>
    refine (quiet_alike (g := g) (.bind (.fault .alreadyExecuting) fun _ => .pure _) hw).mono ?_
    exact fun _ w' h => ⟨h.kept, fun hr => absurd rfl hr⟩
  | finished => exact .pure ⟨.refl hw, fun _ => hs⟩
  | created =>
    refine .bind (finishAside_alike hw (by simp [hs]) (by simp [hs]) c) fun _ v hv => .pure ?_
    exact ⟨hv.1.kept, fun _ => (hv.1.settled.state_eq g).trans hv.2⟩
  | suspended =>
    have hstands := hw.standing_of_suspended hs
    have hidle : dutyIn g w.calls = none := by
      rw [hw.duty, hstands]
      rfl
    refine .bind (enter_alike c g w) fun a v hv => ?_
    cases a with
    | error f =>
      have hv' := hv.kept hw
      have hs' : (v.generator g).state = .suspended := (congrArg Course.state (hv.course g)).trans hs
      refine .bind (giveUp_alike hv'.settled hs' c) fun _ u hu => .bind hu fun _ x hx => .pure ?_
      exact ⟨hv'.trans hx.1, fun _ => hx.2⟩
    | ok _ =>
      obtain ⟨u, hu, hcalls, rfl⟩ := hv
      have hpush := (hu.kept hw).settled.push (World.duty?_between (g := g) (c := c))
      refine .bind (exitBody_alike he hpush rfl (hu.history ▸ hstands)) fun o v hv => ?_
      have hleft := World.Resumed.idle hu (hv.leave (f := (·.leave)))
      refine .step rfl (.bind (finishAnyway_alike hleft.settled ?_ c) fun _ x hx => ?_)
      · rw [Ne, hleft.settled.running_iff, hleft.stack.dutyIn_eq, hidle]
        simp
      · refine (closeResult_quiet o x).mono fun _ w' h => ⟨?_, fun _ => ?_⟩
        · exact (hleft.kept.trans hx.1).trans (h.kept hx.1.settled)
        · exact (congrArg Course.state (h.course g)).trans hx.2

end Engine

-- ---------------------------------------------------------------------------
-- Other requests
-- ---------------------------------------------------------------------------

theorem World.Settled.making {w : World σ} (hw : w.Settled) (t : Target) (frame : Ref .frame)
    (args : List Value) :
    w.Kept (({ w with generators := w.generators.add (.create t frame args) } : World σ).record
      (.created w.generators.next t)) := by
  have habsent : standing w.generators.next w.history = .absent :=
    Classical.not_not.mp fun h => w.generators.not_valid_next ((hw.made _).mpr h)
  have hidle : dutyIn w.generators.next w.calls = none := by
    rw [hw.duty, habsent]
    rfl
  have hnext : standing w.generators.next (.created w.generators.next t :: w.history) = .fresh :=
    standing_cons_of_some rfl rfl _
  have hpays : ∀ g p, standing g w.history = .owed p →
      Happening.created w.generators.next t = .entered g (some p) :=
    fun g p h => absurd h (hw.paid g p)
  have hoffset : (Course.ofHistory w.generators.next w.history).offset = -1 := by
    rw [← hw.course, World.generator, Store.get_of_not_valid _ w.generators.not_valid_next]
    rfl
  refine ⟨⟨hw.happen (h := .created w.generators.next t) rfl ?_ hpays ?_ ?_ ?_ ?_ (fun _ _ => rfl)
    hw.apart, World.Coherent.paid hpays (by simp [Happening.generator, hnext])⟩, .refl _,
    [.created w.generators.next t], rfl, by simpa [Happening.generator] using hidle⟩
  · rw [Happening.generator, habsent]
    exact .created
  · intro g
    simp [eq_comm]
  · refine .trans ?_ (Course.ofHistory_cons_self (.created w.generators.next t) w.history).symm
    refine (congrArg Generator.course (Store.get_add_next _ _)).trans ?_
    exact congrArg (fun o => Course.mk .created none o t) hoffset.symm
  · intro g hg
    exact congrArg Generator.course (Store.get_add_of_ne _ _ (Ne.symm hg))
  · rw [Happening.generator, hnext]
    exact hidle

theorem Engine.answer_keeps {e e' : Engine σ} (he : e.Trusts e') (c : Ref .context)
    (q : Request σ α) : Keeps (e.answer c q) (e'.answer c q) := by
  refine answer_follows he c q (fun t frame args w hw => ?_) (fun _ g p w hw => ?_)
    fun _ g w hw => ?_
  · exact .of_run rfl (hw.making t frame args)
  · exact (resume_alike he hw c g p).mono fun _ _ h => h.kept
  · exact (close_alike he hw c g).mono fun _ _ h => h.1

end Resumable
