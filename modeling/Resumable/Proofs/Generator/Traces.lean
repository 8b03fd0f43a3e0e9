import Resumable.Proofs.Generator.Chains
import Resumable.Proofs.Run.Recording
import Resumable.Proofs.Run.Telling

/-!
# Traces

In a run whose operations on generators all take place in one context, what its recorder holds is
the trace of a story: every event is in its place, and a generator is reported finished once, at the
end.
-/

namespace Resumable

variable {σ : Type}

namespace World

variable {w w' : World σ} {c : Ref .context}

/-- Generators may have been made, but nothing else has befallen them, and the context is a new one
with a recorder that has no limit. -/
structure Fresh (c : Ref .context) (w : World σ) : Prop where
  settled : w.Settled
  unstarted : ∀ x ∈ w.history, ∃ g t, x = .created g t
  valid : w.contexts.Valid c
  depth : (w.context c).depth = 0
  tracer : (w.context c).tracer = .recording .unlimited

/-- What generators were reported to do makes a trace of the context. -/
structure WellTold (c : Ref .context) (w : World σ) : Prop where
  inPlace : ∀ after before c' g e, w.history = after ++ .traced c' g e :: before →
    c' = c ∧ e.InPlace c 0 g after before
  finishes : ∀ g, w.generators.Valid g →
    finishesOf g w.history = if (w.generator g).state = .finished then 1 else 0
  /-- After that report there is none. -/
  last : ∀ after before c' g name reason,
    w.history = after ++ .traced c' g (.finish name reason) :: before →
    ∀ x ∈ after, x.generator ≠ g

def recording (s : σ) : World σ :=
  { initial s with contexts := Store.empty.add { (default : Context) with
    tracer := .recording .unlimited } }

theorem fresh_recording (s : σ) : (recording s).Fresh ⟨0⟩ where
  settled :=
    have hidle : (initial s).Idle (recording s) := .of_eq rfl rfl rfl
    (hidle.kept (.initial s)).settled
  unstarted := by simp [recording, initial]
  valid := (Store.valid_add ..).mpr (.inr rfl)
  depth := rfl
  tracer := rfl

theorem Fresh.story (hw : w.Fresh c) : Story c 0 w.history [] :=
  .of_created hw.settled.lawful hw.unstarted

theorem Fresh.recorded (hw : w.Fresh c) : w.Recorded c := by
  have hnone : toldIn c w.history = [] := by
    refine List.filterMap_eq_nil_iff.mpr fun x hx => ?_
    obtain ⟨g, t, rfl⟩ := hw.unstarted x (List.mem_reverse.mp hx)
    rfl
  exact ⟨hw.valid, .unlimited, hw.tracer, rfl, by rw [hnone]; rfl⟩

theorem Fresh.wellTold (hw : w.Fresh c) (hk : w.Kept w') (hr : w.Recounts c 0 0 w') :
    w'.WellTold c := by
  obtain ⟨-, later, hlater, hstory⟩ := hr
  have hwhole : Story c 0 w'.history [] := by
    rw [hlater]
    exact .append hw.story (by simpa using hstory)
  have honce : ∀ g, ReportedOnce g w'.history := by
    have hnothing : ∀ g, ReportedOnce g [] := fun g => ⟨nofun, fun _ => rfl⟩
    simpa using hwhole.reported_once hnothing
  refine ⟨fun after before c' g e h => ?_, fun g hg => ?_,
    fun after before c' g name reason h => ?_⟩
  · have hplaces := hwhole.in_place rfl []
    rw [h] at hplaces
    simpa using hplaces.holds c' g e rfl
  · split
    · next hs => exact (honce g).finished (hk.settled.standing_of_finished hg hs)
    · next hs =>
      exact (honce g).unfinished fun hf => hs ((hk.settled.state_eq g).trans (congrArg _ hf))
  · have hlawful := hk.settled.lawful
    rw [h] at hlawful
    exact (h ▸ honce g).last hlawful

end World

namespace Host

/-- Programs add only look-ups to what is recorded in a context, and take nothing from it. -/
def heeds (c : Ref .context) : Rule σ := fun _ _ c' q _ _ _ =>
  q.Only fun x => c' = c → ¬ x.Meddles

end Host

/-- What a new recorder comes to hold is what its context was told of, and is well formed as a trace
where no operation takes place in another context. -/
theorem trace_well_formed (host : Host σ) (c : Ref .context) :
    (∀ (α : Type) (n : Nat) (c' : Ref .context) (p : Prog σ α) (w w' : World σ) (a : α),
      w.Fresh c →
      (host.runWatched (Host.operatesIn c) n c' p).run w = (host.run n c' p).run w →
      (host.run n c' p).run w = some (a, w') → w'.WellTold c) ∧
    ∀ (α : Type) (n : Nat) (c' : Ref .context) (p : Prog σ α) (w w' : World σ) (a : α),
      w.Fresh c →
      (host.runWatched (Host.heeds c) n c' p).run w = (host.run n c' p).run w →
      (host.run n c' p).run w = some (a, w') → w'.Recorded c := by
  refine ⟨fun α n c' p w w' a hw hsame hrun => ?_, fun α n c' p w w' a hw hsame hrun => ?_⟩
  · obtain ⟨hkept, htells⟩ :=
      Host.runWatched_tells hw.settled ⟨hw.valid, hw.depth⟩ (hsame.trans hrun)
    exact hw.wellTold hkept htells
  · have htrails : Exec.Trails (fun c' x => c' = c → ¬ x.Meddles) false
        (host.runWatched (Host.heeds c) n c' p) :=
      Host.runWatched_trails (fun _ _ _ _ _ _ _ h => h) host n c' p
    exact ((htrails w).2 a w' (hsame.trans hrun)).recorded (fun _ hx => hx rfl) hw.recorded

def sendThrough : Prog Unit Outcome :=
  .ask (.newGenerator ⟨0, default⟩ []) fun _ =>
  .ask (.newGenerator ⟨1, default⟩ []) fun _ =>
  .ask (.newGenerator ⟨2, default⟩ []) fun _ =>
  .ask (.resume ⟨2⟩ none) fun _ =>
  .ask (.resume ⟨1⟩ none) fun _ =>
  .ask (.resume ⟨0⟩ none) fun _ =>
  .ask (.resume ⟨0⟩ (some (.send (.bool true)))) .done

theorem trace_of_sendThrough : ∃ a w',
    (relay.run 8 ⟨0⟩ sendThrough).run (.recording ()) = some (a, w') ∧
      w'.WellTold ⟨0⟩ ∧ w'.Recorded ⟨0⟩ := by
  obtain ⟨⟨a, w'⟩, hrun⟩ := Option.isSome_iff_exists.mp
    (by decide +kernel : ((relay.run 8 ⟨0⟩ sendThrough).run (.recording ())).isSome)
  have hprogram (P : Edit → Prop) : sendThrough.Asks fun q => q.Only P := by
    simp [sendThrough, Prog.Asks, Request.Only]
  obtain ⟨htold, hrecorded⟩ := trace_well_formed relay ⟨0⟩
  refine ⟨a, w', hrun, ?_, ?_⟩
  · refine htold _ 8 ⟨0⟩ sendThrough _ w' a (World.fresh_recording ()) ?_ hrun
    rw [Host.runWatched_eq_of_asks (relay_asks fun _ => True) (fun _ _ => rfl) (hprogram _)]
  · refine hrecorded _ 8 ⟨0⟩ sendThrough _ w' a (World.fresh_recording ()) ?_ hrun
    rw [Host.runWatched_eq_of_asks (relay_asks _) Request.Only.of_operates (hprogram _)]

example : ((relay.run 8 ⟨0⟩ sendThrough).run (.recording ())).map
    (fun r => (toldIn ⟨0⟩ r.2.history).drop 6) = some
      [(⟨2⟩, .resume "" .send 3), (⟨2⟩, .yield "" 0), (⟨1⟩, .yield "" 0), (⟨0⟩, .yield "" 0)] := by
  decide +kernel

end Resumable
