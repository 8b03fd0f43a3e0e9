import Resumable.Proofs.Run.Watched

/-!
# Closing a generator

What the history tells of the closing of one generator: its delegate is closed first, and its body
is entered with what came of that, at most once.
-/

namespace Resumable

open Exec (Alike Quiet)

variable {σ : Type}

namespace World

variable {w v w' : World σ}

-- ---------------------------------------------------------------------------
-- Bodies that are not entered
-- ---------------------------------------------------------------------------

/-- A later world; the body of `g` has not been entered meanwhile. -/
def Spares (g : Ref .generator) (w w' : World σ) : Prop :=
  ∃ later, w'.history = later ++ w.history ∧ ∀ p, .entered g p ∉ later

theorem Spares.of_eq (h : w'.history = w.history) : w.Spares g w' := ⟨[], h, by simp⟩

theorem Spares.trans (h : w.Spares g v) (h' : v.Spares g w') : w.Spares g w' := by
  obtain ⟨xs, hx, hxs⟩ := h
  obtain ⟨ys, hy, hys⟩ := h'
  refine ⟨ys ++ xs, by rw [hy, hx, List.append_assoc], fun p hp => ?_⟩
  rcases List.mem_append.mp hp with hp | hp
  · exact hys p hp
  · exact hxs p hp

theorem Spares.told (c : Ref .context) (g' : Ref .generator) (e : TraceEvent) (w : World σ) :
    w.Spares g (w.told c g' e) := ⟨[.traced c g' e], rfl, by simp⟩

theorem RunBody.spares (h : w.RunBody c g p w') : (w.record (.entered g p)).Spares g w' := by
  obtain ⟨name, kind, e, r, later, hh, -, hne⟩ := h
  refine ⟨.traced c g e :: .left g r :: (later ++ [.traced c g (.resume name kind
    (w.context c).depth)]), by simp [hh], fun q hq => ?_⟩
  simp only [List.mem_cons, List.mem_append, List.not_mem_nil, or_false] at hq
  rcases hq with hq | hq | hq | hq
  · cases hq
  · cases hq
  · exact hne _ hq rfl
  · cases hq

/-- A later world; the body of `g` has been entered with what is given, and not otherwise. -/
def EntersWith (g : Ref .generator) : Option Payload → World σ → World σ → Prop
  | some p, w, w' => (w.record (.entered g (some p))).Spares g w'
  | none, w, w' => w.Spares g w'

theorem EntersWith.trans {p? : Option Payload} (h : w.EntersWith g p? v) (h' : v.Spares g w') :
    w.EntersWith g p? w' := by
  cases p? with
  | some p => exact Spares.trans h h'
  | none => exact Spares.trans h h'

-- ---------------------------------------------------------------------------
-- One level in
-- ---------------------------------------------------------------------------

def exitExc (w : World σ) : Exc := ⟨w.links.next, .generatorExit, none, []⟩

def readied (c : Ref .context) (g : Ref .generator) (w : World σ) : World σ :=
  { w.inward c g with links := w.links.add .none }

theorem enter_run (h : (w.context c).Admits (n + 1)) (g : Ref .generator) :
    (Exec.enter c g).run w = some (.ok (), w.inward c g) := by
  simp [Exec.enter, h.enter_eq, inward]

theorem Settled.readied (hw : w.Settled) (c : Ref .context) (g : Ref .generator) :
    (w.readied c g).Settled := by
  have hv : (w.inward c g).Settled :=
    (hw.modifyContext c fun _ => (w.context c).entered).settled.push (duty?_between (g := g))
  have hidle : (w.inward c g).Idle (w.readied c g) := .of_eq rfl rfl rfl
  exact (hidle.kept hv).settled

theorem admits_readied (h : (w.context c).Admits (n + 1)) (g : Ref .generator) :
    ((w.readied c g).context c).Admits n := by
  by_cases hv : w.contexts.Valid c
  · have he : (w.readied c g).context c = (w.context c).entered := Store.get_modify_self _ _ hv
    rw [he]
    exact h.entered
  · have he : (w.readied c g).context c = w.context c := by
      refine (Store.get_of_not_valid _ ?_).trans (Store.get_of_not_valid _ hv).symm
      exact fun h => hv ((Store.valid_modify ..).mp h)
    rw [he]
    exact h.pred

end World

namespace Engine

variable {e : Engine σ} {w : World σ}

theorem closeDelegate_ran (c : Ref .context) (g sub : Ref .generator) (exit : Exc)
    (hostTrace : Bool) (w : World σ) :
    Alike (e.closeDelegate c g sub exit hostTrace) (e.closeDelegate c g sub exit hostTrace) w
      fun a v => ∃ u, (e.ask c (.close sub)).run (w.passedOn g sub) = some (a, u) ∧
        v = u.heard (.exited g sub exit hostTrace a) := by
  refine .bind (P := fun a v => ∃ u, (e.ask c (.close sub)).run (w.passedOn g sub) = some (a, u) ∧
    v = (u.modifyGenerator g ({ · with state := .suspended })).setActivity .between) ?_ ?_
  · exact .step rfl (.step rfl (.bind .ran fun a u hu => .step rfl (.pure ⟨u, hu, rfl⟩)))
  · rintro a _ ⟨u, hu, rfl⟩
    exact .step rfl (.pure ⟨u, hu, rfl⟩)

theorem finishAnyway_spares (c : Ref .context) (g : Ref .generator) (w : World σ) :
    Alike (finishAnyway c g) (finishAnyway c g) w fun _ w' => w.Spares g w' := by
  refine .step (x := get) (a := w) rfl (.ite (.pure (.of_eq rfl)) (.step rfl (.of_run rfl ?_)))
  exact .told (w := w.modifyGenerator g (·.finish)) c g _

theorem finishAside_spares (c : Ref .context) (g : Ref .generator) (w : World σ) :
    Alike (finishAside c g) (finishAside c g) w fun _ w' => w.Spares g w' := by
  refine .step (x := get) (a := w) rfl (.ite (.pure (.of_eq rfl)) (.step rfl (.of_run rfl ?_)))
  exact .told (w := w.modifyGenerator g ({ · with state := .finished })) c g _

theorem close_inward {Q : World σ → Prop} (hs : (w.generator g).state = .suspended)
    (hk : (w.context c).Admits (n + 1))
    (hx : Alike (e.exitBody c g) (e.exitBody c g) (w.inward c g) fun _ v => Q v) :
    Alike (e.close c g) (e.close c g) w fun _ w' => ∃ v, Q v ∧ v.Spares g w' := by
  refine .step (x := get) (a := w) rfl ?_
  rw [hs]
  refine .step (World.enter_run hk g) (.bind hx fun o v hv => ?_)
  refine .step rfl (.bind (finishAnyway_spares c g _) fun _ u hu => ?_)
  refine (closeResult_quiet o u).mono fun _ w' h => ⟨v, hv, ?_⟩
  exact (World.Spares.of_eq rfl).trans (hu.trans (.of_eq h.history))

theorem close_undelegated (he : e.Trusts e) (hw : w.Settled)
    (hs : (w.generator g).state = .suspended) (hd : (w.generator g).delegate = none)
    (hk : (w.context c).Admits (n + 1)) :
    Alike (e.close c g) (e.close c g) w fun _ w' =>
      w.EntersWith g (some (.throw w.exitExc false)) w' := by
  have hstands : standing g (w.readied c g).history = .suspended none :=
    (hw.standing_of_suspended hs).trans (congrArg Standing.suspended hd)
  have hsettled := hw.readied c g
  have hgen : (w.inward c g).generator g = w.generator g := rfl
  have hexit : (Exec.newExc .generatorExit none []).run (w.inward c g) =
      some (w.exitExc, w.readied c g) := rfl
  refine (close_inward hs hk ?_).mono fun _ w' ⟨v, hv, hspares⟩ => World.EntersWith.trans hv hspares
  refine .step (x := get) (a := w.inward c g) rfl (.step hexit ?_)
  rw [hgen, hd]
  refine (runBody_history he hsettled.toCoherent rfl ?_ (fun g p h => absurd h (hsettled.paid g p))
    _).mono fun _ v hv => hv.spares
  rw [hstands]
  exact .resumed

/-- The delegate is closed first. The body is entered with what is delivered of that. -/
theorem close_delegating (he : e.Trusts e) (hw : w.Settled)
    (hs : (w.generator g).state = .suspended) (hd : (w.generator g).delegate = some sub)
    (hk : (w.context c).Admits (n + 1)) :
    Alike (e.close c g) (e.close c g) w fun _ w' => ∃ a u,
      (e.ask c (.close sub)).run ((w.readied c g).passedOn g sub) = some (a, u) ∧
      (u.record (.exited g sub w.exitExc false a)).EntersWith g
        (exitDelivered? w.exitExc false a) w' := by
  have hstands : standing g (w.readied c g).history = .suspended (some sub) :=
    (hw.standing_of_suspended hs).trans (congrArg Standing.suspended hd)
  have hsettled := hw.readied c g
  have hcalls : (w.readied c g).calls = .level ⟨g, c, .between⟩ :: w.calls := rfl
  have hgen : (w.inward c g).generator g = w.generator g := rfl
  have hexit : (Exec.newExc .generatorExit none []).run (w.inward c g) =
      some (w.exitExc, w.readied c g) := rfl
  refine (close_inward (Q := fun v => ∃ a u,
      (e.ask c (.close sub)).run ((w.readied c g).passedOn g sub) = some (a, u) ∧
      (u.record (.exited g sub w.exitExc false a)).EntersWith g
        (exitDelivered? w.exitExc false a) v) hs hk ?_).mono
    fun _ w' ⟨v, ⟨a, u, hu, hv⟩, hspares⟩ => ⟨a, u, hu, hv.trans hspares⟩
  refine .step (x := get) (a := w.inward c g) rfl (.step hexit ?_)
  rw [hgen, hd]
  refine .bind (closeDelegate_ran c g sub w.exitExc false (w.readied c g)) ?_
  rintro a _ ⟨u, hu, rfl⟩
  have hkept := (he.ask c (.close sub) _ (hsettled.passedOn hcalls hstands)).2 _ _ hu
  have hhist : (u.givenUp (.exited g sub w.exitExc false a)).history =
      (u.record (.exited g sub w.exitExc false a)).history := World.history_heard
  have hrun : ∀ p, exitDelivered? w.exitExc false a = some p →
      Alike (e.runBody c g (some p) .close) (e.runBody c g (some p) .close)
        (u.givenUp (.exited g sub w.exitExc false a)) fun _ v =>
        (u.record (.exited g sub w.exitExc false a)).EntersWith g (some p) v := by
    intro p hp
    obtain ⟨hcoh, hallows, hpays⟩ := hkept.owing hcalls rfl .exited
      (h := .exited g sub w.exitExc false a) (congrArg (some ∘ Standing.ofDelivered) hp)
    have hc := (hkept.calls_heard hcalls (.exited g sub w.exitExc false a)).trans hcalls
    refine (runBody_history he hcoh hc hallows hpays _).mono fun _ v hv => ?_
    exact (World.Spares.of_eq (congrArg (Happening.entered g (some p) :: ·) hhist)).trans hv.spares
  refine .step rfl ?_
  change Alike _ _ (u.givenUp (.exited g sub w.exitExc false a)) _
  rcases a with f | _
  · cases f with
    | raised r => exact (hrun _ rfl).mono fun _ v hv => ⟨_, u, hu, hv⟩
    | _ => exact .pure ⟨_, u, hu, .of_eq hhist⟩
  · exact (hrun _ rfl).mono fun _ v hv => ⟨_, u, hu, hv⟩

theorem close_unsuspended (hs : (w.generator g).state ≠ .suspended) (c : Ref .context) :
    Alike (e.close c g) (e.close c g) w fun _ w' => w.Spares g w' := by
  refine .step (x := get) (a := w) rfl ?_
  cases h : (w.generator g).state with
  | suspended => exact absurd h hs
  | running =>
    exact .bind (Quiet.fault .alreadyExecuting w) fun _ v hv => .pure (.of_eq hv.history)
  | finished => exact .pure (.of_eq rfl)
  | created => exact .bind (finishAside_spares c g w) fun _ v hv => .pure hv

end Engine

end Resumable
