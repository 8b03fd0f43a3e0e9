import Resumable.Proofs.Run.Resumption

/-!
# Forwarding keeps worlds coherent

While a generator delegates, a resumption is passed on to the delegate. Once the delegate has
stopped, the history says that what stopped it is owed to the body, and the body is entered with
that.
-/

namespace Resumable

open Exec (Alike Keeps Quiet)

variable {σ : Type}

namespace World

variable {w w' u v : World σ}

-- ---------------------------------------------------------------------------
-- Passing on and hearing back
-- ---------------------------------------------------------------------------

def passedOn (g sub : Ref .generator) (w : World σ) : World σ :=
  ((w.modifyGenerator g ({ · with state := .running })).setActivity .forwarding).record
    (.forwarded g sub)

theorem history_passedOn : (w.passedOn g sub).history = .forwarded g sub :: w.history := by
  simp [passedOn]

theorem calls_passedOn (hc : w.calls = .level ⟨g, c, .between⟩ :: rest) :
    (w.passedOn g sub).calls = .level ⟨g, c, .forwarding⟩ :: rest :=
  calls_setActivity (w := w.modifyGenerator g _) hc _

theorem Settled.passedOn (hw : w.Settled) (hc : w.calls = .level ⟨g, c, .between⟩ :: rest)
    (hs : standing g w.history = .suspended (some sub)) : (w.passedOn g sub).Settled := by
  have hcourse := hw.course g
  simp only [Generator.course, Course.ofHistory, Course.mk.injEq, hs] at hcourse
  have hpays : ∀ g' p, standing g' w.history = .owed p →
      Happening.forwarded g sub = .entered g' (some p) := fun g' p h => absurd h (hw.paid g' p)
  have hnext : standing g (.forwarded g sub :: w.history) = .forwarding sub :=
    standing_cons_of_some rfl rfl _
  refine ⟨hw.happenOnTop (h := .forwarded g sub) history_passedOn hc (calls_passedOn hc)
    (by simp [World.passedOn, Happening.generator]; rfl) ?_ hpays (by simp) ?_ (.inr ?_) ?_, ?_⟩
  · rw [Happening.generator, hs]
    exact .forwarded
  · simp [Happening.generator, hnext, Generator.course, Happening.offset?, Happening.target?,
      Standing.state, Standing.delegate, hcourse.2.1]
  · rw [Happening.generator, hs]
    rfl
  · rw [Happening.generator, hnext]
    rfl
  · rw [history_passedOn]
    exact Coherent.paid hpays (by simp [Happening.generator, hnext])

theorem Settled.hearing {f : Generator → Generator} (hu : u.Settled)
    (hc : u.calls = .level ⟨h.generator, c, .forwarding⟩ :: rest)
    (hs : standing h.generator u.history = .forwarding sub)
    (allows : (Standing.forwarding sub).Allows h) (hist : v.history = h :: u.history)
    (calls : v.calls = .level ⟨h.generator, c, .between⟩ :: rest)
    (gens : v.generators = u.generators.modify h.generator f)
    (course : (f (u.generator h.generator)).course =
      ⟨.suspended, (standing h.generator v.history).delegate, (u.generator h.generator).offset,
        (u.generator h.generator).target⟩) : v.Coherent := by
  have hpays : ∀ g p, standing g u.history = .owed p → h = .entered g (some p) :=
    fun g p ho => absurd ho (hu.paid g p)
  have hnext : (standing h.generator v.history).state = .suspended ∧
      (standing h.generator v.history).duty? = none := by
    rw [hist, standing_cons_self]
    cases allows with
    | @answered _ g a =>
      cases a with
      | ok v => exact ⟨rfl, rfl⟩
      | error f => exact Standing.ofDelivered_suspended _
    | exited => exact Standing.ofDelivered_suspended _
  rw [hist] at hnext course
  refine hu.happenOnTop hist hc calls gens (hs ▸ allows) hpays ?_ ?_ (.inl (by simp [Activity.duty?]))
    hnext.2.symm
  · intro t ht
    rw [ht] at allows
    cases allows
  · rw [course, hnext.1]
    cases allows <;> rfl

def heard (h : Happening) (u : World σ) : World σ :=
  ((u.modifyGenerator h.generator ({ · with state := .suspended })).setActivity .between).record h

theorem history_heard : (u.heard h).history = h :: u.history := by simp [heard]

section

variable (hw : w.Settled) (hc : w.calls = .level ⟨g, c, .between⟩ :: rest)
  (hs : standing g w.history = .suspended (some sub)) (hu : (w.passedOn g sub).Kept u)
include hc hu

theorem Kept.calls_of_passedOn : u.calls = .level ⟨g, c, .forwarding⟩ :: rest :=
  (calls_passedOn hc ▸ hu.stack).eq_of_forwarding

theorem Kept.calls_heard (h : Happening) : (u.heard h).calls = w.calls := by
  have hcu := hu.calls_of_passedOn hc
  exact (calls_setActivity (w := u.modifyGenerator _ _) hcu _).trans hc.symm

theorem Kept.standing_of_passedOn : standing g u.history = .forwarding sub := by
  have hd : dutyIn g (w.passedOn g sub).calls ≠ none := by
    rw [calls_passedOn hc]
    exact dutyIn_ne_none (by simp [Activity.duty?])
  rw [hu.standing_eq hd, history_passedOn]
  exact standing_cons_of_some rfl rfl _

theorem Kept.yielded (x : Value) : (u.heard (.answered g sub (.ok x))).Settled := by
  have hhist : (u.heard (.answered g sub (.ok x))).history = .answered g sub (.ok x) :: u.history :=
    history_heard
  have hin := hu.standing_of_passedOn hc
  have hnext : standing g (.answered g sub (.ok x) :: u.history) = .suspended (some sub) :=
    standing_cons_of_some rfl rfl _
  have hdelegate : (u.generator g).delegate = some sub := by
    have hcourse := hu.settled.course g
    simp only [Generator.course, Course.ofHistory, Course.mk.injEq, hin] at hcourse
    exact hcourse.2.1
  refine ⟨hu.settled.hearing (h := .answered g sub (.ok x)) (hu.calls_of_passedOn hc) hin .answered
    hhist ((hu.calls_heard hc _).trans hc) (by simp [heard]; rfl) ?_, ?_⟩
  · rw [hhist]
    simp [Happening.generator, hnext, Generator.course, Standing.delegate, hdelegate]
  · rw [hhist]
    refine Coherent.paid (fun g p ho => absurd ho (hu.settled.paid g p)) ?_
    simp [Happening.generator, hnext]

def givenUp (h : Happening) (u : World σ) : World σ :=
  (u.heard h).modifyGenerator h.generator ({ · with delegate := none })

theorem Kept.stopped (hg : h.generator = g) (allows : (Standing.forwarding sub).Allows h)
    (hd : h.standing? = some (.ofDelivered d)) : (u.givenUp h).Coherent := by
  subst hg
  have hgens : (u.givenUp h).generators = u.generators.modify h.generator
      ({ · with state := .suspended, delegate := none }) := by
    simp only [givenUp, heard, generators_modifyGenerator, generators_record,
      generators_setActivity, Store.modify_modify]
    rfl
  have hhist : (u.givenUp h).history = h :: u.history := history_heard
  refine hu.settled.hearing (hu.calls_of_passedOn hc) (hu.standing_of_passedOn hc) allows
    hhist ((hu.calls_heard hc h).trans hc) hgens ?_
  rw [hhist, standing_cons_self, hd]
  cases d <;> rfl

theorem Kept.owing (hg : h.generator = g) (allows : (Standing.forwarding sub).Allows h)
    (hd : h.standing? = some (.ofDelivered (some p))) :
    (u.givenUp h).Coherent ∧ (standing g (u.givenUp h).history).Allows (.entered g (some p)) ∧
      ∀ g' q, standing g' (u.givenUp h).history = .owed q →
        Happening.entered g (some p) = .entered g' (some q) := by
  have hhist : (u.givenUp h).history = h :: u.history := history_heard
  have howed : standing g (h :: u.history) = .owed p := standing_cons_of_some hg hd _
  refine ⟨hu.stopped hc hg allows hd, ?_, fun g' q ho => ?_⟩
  · rw [hhist, howed]
    exact .paid
  · rw [hhist] at ho
    by_cases hgg : g = g'
    · subst hgg
      rw [howed] at ho
      cases ho
      rfl
    · rw [standing_cons_of_ne (hg ▸ hgg)] at ho
      exact absurd ho (hu.settled.paid g' q)

include hw hs

/-- What follows on hearing from the delegate follows on the resumption that was passed on. -/
theorem Resumed.of_heard (hg : h.generator = g) (he : ∀ p, h ≠ .entered g p)
    (hl : ∀ r, h ≠ .left g r) (hv : v.history = h :: u.history) (hcv : v.calls = w.calls)
    (hr : v.Resumed g w') : w.Resumed g w' := by
  obtain ⟨later, hlater, hd⟩ := hu.follows
  have hidle : dutyIn g w.calls = none := by
    rw [hw.duty, hs]
    rfl
  rw [calls_passedOn hc] at hd
  have hne : ∀ x ∈ later, x.generator ≠ g := fun x hx he =>
    dutyIn_ne_none (by simp [Activity.duty?]) (he ▸ hd x hx)
  refine hr.after (h :: (later ++ [.forwarded g sub])) hcv ?_ ?_ ?_ ?_
  · rw [hv, hlater, history_passedOn]
    simp
  · intro x hx
    simp only [List.mem_cons, List.mem_append, List.not_mem_nil, or_false] at hx
    rcases hx with rfl | hx | rfl
    · exact hg ▸ hidle
    · exact hc ▸ dutyIn_between_of_eq_none (hd x hx)
    · exact hidle
  · intro p hx
    simp only [List.mem_cons, List.mem_append, List.not_mem_nil, or_false] at hx
    rcases hx with hx | hx | hx
    · exact he p hx.symm
    · exact hne _ hx rfl
    · cases hx
  · intro r hx
    simp only [List.mem_cons, List.mem_append, List.not_mem_nil, or_false] at hx
    rcases hx with hx | hx | hx
    · exact hl r hx.symm
    · exact hne _ hx rfl
    · cases hx

end

end World

-- ---------------------------------------------------------------------------
-- The engine
-- ---------------------------------------------------------------------------

namespace Engine

variable {e e' : Engine σ} {w u : World σ}

theorem whileForwarding_alike {x y : Exec σ α} {Q : World σ → Prop}
    (hx : Alike x y (w.passedOn g sub) fun _ => Q) :
    Alike (whileForwarding g sub x) (whileForwarding g sub y) w fun _ v =>
      ∃ u, Q u ∧ v = (u.modifyGenerator g ({ · with state := .suspended })).setActivity .between :=
  .step rfl (.step rfl (.bind hx fun _ u hu => .step rfl (.pure ⟨u, hu, rfl⟩)))

section

variable {r : Regime σ} (he : e.Under r e') (hw : r.Admits (w.passedOn g sub))
include he hw

theorem resumeDelegate_follows (c : Ref .context) (p : Payload) :
    Alike (e.resumeDelegate c g sub p) (e'.resumeDelegate c g sub p) w fun a v =>
      ∃ u, r.Leads (w.passedOn g sub) u ∧ v = u.heard (.answered g sub a) := by
  have hx := (he.ask c (.resume sub (some p))).bind fun o => .of_quiet (result_quiet o)
  refine .bind (whileForwarding_alike (hx _ hw)) fun a v ⟨u, hu, hv⟩ => .step rfl (.pure ?_)
  exact ⟨u, hu, by rw [hv]; rfl⟩

theorem closeDelegate_follows (c : Ref .context) (exit : Exc) (hostTrace : Bool) :
    Alike (e.closeDelegate c g sub exit hostTrace) (e'.closeDelegate c g sub exit hostTrace) w
      fun a v => ∃ u, r.Leads (w.passedOn g sub) u ∧
        v = u.heard (.exited g sub exit hostTrace a) := by
  refine .bind (whileForwarding_alike (he.ask c (.close sub) _ hw)) fun a v ⟨u, hu, hv⟩ =>
    .step rfl (.pure ?_)
  exact ⟨u, hu, by rw [hv]; rfl⟩

end

theorem resumeDelegate_alike (he : e.Trusts e') (hw : w.Settled)
    (hc : w.calls = .level ⟨g, c, .between⟩ :: rest)
    (hs : standing g w.history = .suspended (some sub)) (p : Payload) :
    Alike (e.resumeDelegate c g sub p) (e'.resumeDelegate c g sub p) w fun a v =>
      ∃ u, (w.passedOn g sub).Kept u ∧ v = u.heard (.answered g sub a) :=
  resumeDelegate_follows he (hw.passedOn hc hs) c p

theorem closeDelegate_alike (he : e.Trusts e') (hw : w.Settled)
    (hc : w.calls = .level ⟨g, c, .between⟩ :: rest)
    (hs : standing g w.history = .suspended (some sub)) (exit : Exc) (hostTrace : Bool) :
    Alike (e.closeDelegate c g sub exit hostTrace) (e'.closeDelegate c g sub exit hostTrace) w
      fun a v => ∃ u, (w.passedOn g sub).Kept u ∧
        v = u.heard (.exited g sub exit hostTrace a) :=
  closeDelegate_follows he (hw.passedOn hc hs) c exit hostTrace

section

variable (hw : w.Settled) (hc : w.calls = .level ⟨g, c, .between⟩ :: rest)
  (hs : standing g w.history = .suspended (some sub)) (hu : (w.passedOn g sub).Kept u)
  (hg : h.generator = g) (allows : (Standing.forwarding sub).Allows h)
  (hd : h.standing? = some (.ofDelivered d))
include hw hc hs hu hg allows hd

theorem runBody_delivered (he : e.Trusts e') (hp : d = some p) (kind : ResumeKind) :
    Alike (e.runBody c g (some p) kind) (e'.runBody c g (some p) kind) (u.givenUp h)
      fun _ w' => w.Resumed g w' := by
  subst hp
  have hcalls : (u.givenUp h).calls = w.calls := hu.calls_heard hc h
  have hhist : (u.givenUp h).history = h :: u.history := World.history_heard
  obtain ⟨hcoh, hallows, hpays⟩ := hu.owing hc hg allows hd
  refine (runBody_alike he hcoh (hcalls.trans hc) hallows hpays kind).mono fun _ w' hr => ?_
  exact hr.of_heard hw hc hs hu hg (by rintro q rfl; cases allows) (by rintro r rfl; cases allows)
    hhist hcalls

/-- What stopped the delegate is not delivered. -/
theorem undelivered (hp : d = none) : w.Resumed g (u.givenUp h) := by
  have hcoh := hu.stopped hc hg allows hd
  have hcalls : (u.givenUp h).calls = w.calls := hu.calls_heard hc h
  have hhist : (u.givenUp h).history = h :: u.history := World.history_heard
  have hsettled : (u.givenUp h).Settled := by
    refine ⟨hcoh, fun g' q => ?_⟩
    rw [hhist]
    refine World.Coherent.paid (fun g p ho => absurd ho (hu.settled.paid g p)) (fun q ho => ?_) g' q
    rw [standing_cons_of_some rfl hd, hp] at ho
    cases ho
  exact (World.Resumed.refl hsettled).of_heard hw hc hs hu hg (by rintro q rfl; cases allows)
    (by rintro r rfl; cases allows) hhist hcalls

end

theorem settle_alike (he : e.Trusts e') (hw : w.Settled)
    (hc : w.calls = .level ⟨g, c, .between⟩ :: rest)
    (hs : standing g w.history = .suspended (some sub)) (hu : (w.passedOn g sub).Kept u)
    (a : Except Failure Value) :
    Alike (e.settle c g a) (e'.settle c g a) (u.heard (.answered g sub a))
      fun _ w' => w.Resumed g w' := by
  cases a with
  | ok v =>
    refine .step rfl (.step rfl (.pure ?_))
    have hheard := hu.yielded hc v
    have hcalls := hu.calls_heard hc (.answered g sub (.ok v))
    refine World.Resumed.of_heard hw hc hs hu rfl (by simp) (by simp) World.history_heard hcalls ?_
    refine .told hheard ?_ ?_ (standing_cons_self (.traced c g _) _)
    · rw [hcalls, hw.duty, hs]
      rfl
    · have hnext : standing g (.answered g sub (.ok v) :: u.history) = .suspended (some sub) :=
        standing_cons_of_some rfl rfl _
      rw [World.history_heard, hnext]
      exact .tracedYield
  | error f =>
    refine .step rfl ?_
    change Alike _ _ (u.givenUp (.answered g sub (.error f))) _
    have hd : (Happening.answered g sub (.error f)).standing? = some (.ofDelivered f.delivered?) := rfl
    have hrun := fun p => runBody_delivered hw hc hs hu rfl .answered hd he (p := p)
    unfold Failure.delivered? at hrun
    cases hv : f.stopValue? with
    | some v => exact hrun _ (by rw [hv]) .send
    | none =>
      cases f with
      | raised r => exact hrun _ (by rw [hv]) .throw
      | _ => exact .pure (undelivered hw hc hs hu rfl .answered hd (by simp [Failure.delivered?, hv]))

theorem forward_alike (he : e.Trusts e') (hw : w.Settled)
    (hc : w.calls = .level ⟨g, c, .between⟩ :: rest)
    (hs : standing g w.history = .suspended (some sub)) (v : Value) :
    Alike (e.forward c g sub v) (e'.forward c g sub v) w fun _ w' => w.Resumed g w' := by
  refine .bind (resumeDelegate_alike he hw hc hs (.send v)) ?_
  rintro a _ ⟨u, hu, rfl⟩
  exact settle_alike he hw hc hs hu a

theorem forwardThrow_alike (he : e.Trusts e') (hw : w.Settled)
    (hc : w.calls = .level ⟨g, c, .between⟩ :: rest)
    (hs : standing g w.history = .suspended (some sub)) (exc : Exc) (hostTrace : Bool)
    (kind : ResumeKind) :
    Alike (e.forwardThrow c g sub exc hostTrace kind) (e'.forwardThrow c g sub exc hostTrace kind) w
      fun _ w' => w.Resumed g w' := by
  unfold forwardThrow
  split
  · refine .bind (closeDelegate_alike he hw hc hs exc hostTrace) ?_
    rintro a _ ⟨u, hu, rfl⟩
    refine .step rfl ?_
    change Alike _ _ (u.givenUp (.exited g sub exc hostTrace a)) _
    have hrun := fun p =>
      runBody_delivered hw hc hs hu rfl .exited rfl he (d := exitDelivered? exc hostTrace a)
        (p := p)
    rcases a with f | _
    · cases f with
      | raised r => exact hrun _ rfl kind
      | _ => exact .pure (undelivered hw hc hs hu rfl .exited rfl rfl)
    · exact hrun _ rfl kind
  · refine .bind (resumeDelegate_alike he hw hc hs (.throw exc hostTrace)) ?_
    rintro a _ ⟨u, hu, rfl⟩
    exact settle_alike he hw hc hs hu a

end Engine

end Resumable
