import Resumable.Proofs.Run.Watched

/-!
# Resuming a body that delegates

A body that has delegated is next resumed with what its delegate ended with, right when that is
known, unless the delegate failed with what bodies may not catch.
-/

namespace Resumable

variable {σ : Type}

namespace Happening

/-- The delegate of `g` ended, and the body of `g` is owed the payload. -/
inductive Delivers (g sub : Ref .generator) : Happening → Payload → Prop
  | stopped : f.stopValue? = some v → Delivers g sub (.answered g sub (.error f)) (.send v)
  | raised : r.exc.isCaughtBy .stopIteration = false →
      Delivers g sub (.answered g sub (.error (.raised r))) (.throw r.exc false)
  | closed : Delivers g sub (.exited g sub exit hostTrace (.ok ())) (.throw exit hostTrace)
  | notClosed : Delivers g sub (.exited g sub exit hostTrace (.error (.raised r)))
      (.throw r.exc hostTrace)

/-- The delegate of `g` failed with what the body of `g` may not catch. -/
inductive Undelivered (g sub : Ref .generator) : Happening → Prop
  | answered : (∀ r, f ≠ .raised r) → Undelivered g sub (.answered g sub (.error f))
  | exited : (∀ r, f ≠ .raised r) → Undelivered g sub (.exited g sub exit hostTrace (.error f))

variable {g sub : Ref .generator}

theorem Delivers.owed (h : Delivers g sub x p) : x.generator = g ∧ x.standing? = some (.owed p) := by
  cases h with
  | stopped hv => simp [generator, standing?, Failure.delivered?, hv, Standing.ofDelivered]
  | raised hr =>
    simp [generator, standing?, Failure.delivered?, Failure.stopValue?, hr, Standing.ofDelivered]
  | closed | notClosed => exact ⟨rfl, rfl⟩

theorem Undelivered.suspended (h : Undelivered g sub x) :
    x.generator = g ∧ x.standing? = some (.suspended none) := by
  cases h with
  | @answered f hf =>
    cases f with
    | raised r => exact absurd rfl (hf r)
    | _ => exact ⟨rfl, rfl⟩
  | @exited f _ _ hf =>
    cases f with
    | raised r => exact absurd rfl (hf r)
    | _ => exact ⟨rfl, rfl⟩

theorem of_forwarding (h : (Standing.forwarding sub).Allows x) :
    (∃ p, Delivers x.generator sub x p) ∨ Undelivered x.generator sub x ∨
      x.standing? = some (.suspended (some sub)) := by
  cases h with
  | @answered _ g a =>
    rcases a with f | v
    · cases hv : f.stopValue? with
      | some v => exact .inl ⟨_, .stopped hv⟩
      | none =>
        cases f with
        | raised r =>
          refine .inl ⟨_, .raised ?_⟩
          simpa [Failure.stopValue?] using hv
        | _ => exact .inr (.inl (.answered (by simp)))
    · exact .inr (.inr rfl)
  | @exited _ g exit hostTrace a =>
    rcases a with f | _
    · cases f with
      | raised r => exact .inl ⟨_, .notClosed⟩
      | _ => exact .inr (.inl (.exited (by simp)))
    · exact .inl ⟨_, .closed⟩

end Happening

-- ---------------------------------------------------------------------------
-- Between two runs of a body
-- ---------------------------------------------------------------------------

namespace Standing

variable {s : Standing} {sub : Ref .generator} {x : Happening}

/-- The body waits for its delegate, or for nothing any more. -/
inductive Waits (sub : Ref .generator) : Standing → Prop
  | suspended : Waits sub (.suspended (some sub))
  | forwarding : Waits sub (.forwarding sub)
  | finished : Waits sub .finished

/-- The body waits for no delegate. -/
inductive Bereft : Standing → Prop
  | suspended : Bereft (.suspended none)
  | finished : Bereft .finished

theorem Waits.step (hs : s.Waits sub) (h : s.Allows x) (hu : ¬ x.Undelivered x.generator sub) :
    (x.standing?.getD s).Waits sub ∨ ∃ p, x.Delivers x.generator sub p := by
  cases hs with
  | suspended =>
    cases h with
    | forwarded => exact .inl .forwarding
    | tracedYield => exact .inl .suspended
    | closedSuspended => exact .inl .finished
  | forwarding =>
    rcases Happening.of_forwarding h with hp | hx | hx
    · exact .inr hp
    · exact absurd hx hu
    · rw [hx]
      exact .inl .suspended
  | finished =>
    cases h with
    | tracedFinish => exact .inl .finished

theorem Bereft.step (hs : s.Bereft) (h : s.Allows x) (he : ∀ g p, x ≠ .entered g p) :
    (x.standing?.getD s).Bereft := by
  cases hs with
  | suspended =>
    cases h with
    | resumed => exact absurd rfl (he _ _)
    | tracedYield => exact .suspended
    | closedSuspended => exact .finished
  | finished =>
    cases h with
    | tracedFinish => exact .finished

end Standing

namespace Lawful

variable {g sub : Ref .generator} {mid before : List Happening} {y : Suspension}

theorem waiting (h : Lawful (mid ++ .left g (.ok (.yields y)) :: before))
    (hd : y.delegate = some sub) (hm : ∀ p, .entered g p ∉ mid)
    (hu : ∀ x ∈ mid, ¬ x.Undelivered g sub) :
    (standing g (mid ++ .left g (.ok (.yields y)) :: before)).Waits sub ∨
      ∃ x rest p, mid = x :: rest ∧ x.Delivers g sub p := by
  induction mid with
  | nil =>
    have hs : standing g (.left g (.ok (.yields y)) :: before) = .suspended y.delegate :=
      standing_cons_of_some rfl rfl _
    rw [List.nil_append, hs, hd]
    exact .inl .suspended
  | cons x xs ih =>
    rw [List.cons_append] at h ⊢
    have hx : ∀ p, x ≠ .entered g p := fun p he => hm p (he ▸ List.mem_cons_self ..)
    rcases ih h.tail (fun p hp => hm p (List.mem_cons_of_mem _ hp))
      (fun z hz => hu z (List.mem_cons_of_mem _ hz)) with hw | ⟨z, rest, p, rfl, hz⟩
    · by_cases hg : x.generator = g
      · subst hg
        rcases hw.step h.allows (hu x (List.mem_cons_self ..)) with hw | ⟨p, hp⟩
        · rw [standing_cons_self]
          exact .inl hw
        · exact .inr ⟨x, xs, p, rfl, hp⟩
      · rw [standing_cons_of_ne hg]
        exact .inl hw
    · obtain ⟨hzg, hzs⟩ := hz.owed
      exact absurd (h.pays (standing_cons_of_some hzg hzs _)) (hx _)

theorem bereft (h : Lawful (mid ++ before)) (hm : ∀ p, .entered g p ∉ mid)
    (hu : ∃ x ∈ mid, x.Undelivered g sub) : (standing g (mid ++ before)).Bereft := by
  induction mid with
  | nil => simp at hu
  | cons x xs ih =>
    rw [List.cons_append] at h ⊢
    by_cases hx : x.Undelivered g sub
    · obtain ⟨hg, hs⟩ := hx.suspended
      rw [standing_cons_of_some hg hs]
      exact .suspended
    · have hxs : ∃ z ∈ xs, z.Undelivered g sub := by
        obtain ⟨z, hz, hzu⟩ := hu
        rcases List.mem_cons.mp hz with rfl | hz
        · exact absurd hzu hx
        · exact ⟨z, hz, hzu⟩
      have hb := ih h.tail (fun p hp => hm p (List.mem_cons_of_mem _ hp)) hxs
      by_cases hg : x.generator = g
      · subst hg
        rw [standing_cons_self]
        refine hb.step h.allows fun g' p he => ?_
        subst he
        exact hm p (List.mem_cons_self ..)
      · rwa [standing_cons_of_ne hg]

theorem next_entered (h : Lawful (.entered g payload :: (mid ++ .left g (.ok (.yields y)) :: before)))
    (hd : y.delegate = some sub) (hm : ∀ p, .entered g p ∉ mid) :
    (∃ x rest p, mid = x :: rest ∧ x.Delivers g sub p ∧ payload = some p) ↔
      ∀ x ∈ mid, ¬ x.Undelivered g sub := by
  have hmid := h.tail
  have hallows := h.allows
  constructor
  · rintro ⟨x, rest, p, rfl, hx, -⟩ z hz hzu
    obtain ⟨hg, hs⟩ := hx.owed
    have hb := hmid.bereft hm ⟨z, hz, hzu⟩
    rw [List.cons_append, standing_cons_of_some hg hs] at hb
    cases hb
  · intro hu
    rcases hmid.waiting hd hm hu with hw | ⟨x, rest, p, rfl, hx⟩
    · simp only [Happening.generator] at hallows
      generalize standing g _ = s at hw hallows
      cases hw <;> cases hallows
    · refine ⟨x, rest, p, rfl, hx, ?_⟩
      obtain ⟨hg, hs⟩ := hx.owed
      cases h.pays (standing_cons_of_some hg hs _)
      rfl

end Lawful

-- ---------------------------------------------------------------------------
-- Runs
-- ---------------------------------------------------------------------------

theorem Host.run_settled {host : Host σ} {p : Prog σ α}
    (h : (host.run n c p).run (.initial s) = some (a, w)) : w.Settled :=
  ((Engine.perform_keeps (host.trusts n) c p _ (.initial s)).2 a w h).settled

/-- In any run, a body that delegated is next entered with what its delegate ended with, and right
upon that, exactly if all that its delegate failed with meanwhile may be caught. -/
theorem entered_after_delegate (host : Host σ) (n : Nat) (c : Ref .context) (p : Prog σ α) (s : σ)
    (a : α) (w : World σ) (h : (host.run n c p).run (.initial s) = some (a, w))
    (g sub : Ref .generator) (payload : Option Payload) (y : Suspension)
    (later mid before : List Happening)
    (hh : w.history = later ++ .entered g payload :: (mid ++ .left g (.ok (.yields y)) :: before))
    (hd : y.delegate = some sub) (hm : ∀ p, .entered g p ∉ mid) :
    (∃ x rest p, mid = x :: rest ∧ x.Delivers g sub p ∧ payload = some p) ↔
      ∀ x ∈ mid, ¬ x.Undelivered g sub := by
  have hlawful := (Host.run_settled h).lawful
  rw [hh] at hlawful
  exact hlawful.of_append.next_entered hd hm

/-- Program 0 yields forever; any other delegates to the first generator once and returns. -/
def exhausting : Host Unit where
  body t :=
    if t.program = 0 then .done (.ok (.yields ⟨.none, 0, none, none⟩))
    else .ask (.look fun w => w.activation?.map (·.resumePoint)) fun
      | some (-1) => .done (.ok (.yields ⟨.none, 0, some ⟨0⟩, none⟩))
      | _ => .done (.ok (.returns .none))
  hash _ _ := .done (.ok 0)
  compare _ _ _ := .done (.ok false)
  construct _ _ _ := .done (.ok .none)

def exhaust : Prog Unit Outcome :=
  .ask (.create (.context default)) fun _ =>
  .ask (.newGenerator ⟨0, default⟩ []) fun _ =>
  .ask (.newGenerator ⟨1, default⟩ []) fun _ =>
  .ask (.create (.context (.ofOptions ⟨⟨none, some 1⟩, false⟩))) fun c =>
  .ask (.resume ⟨1⟩ none) fun _ =>
  .within c (.ask (.resume ⟨1⟩ none) .done) fun _ =>
  .ask (.resume ⟨1⟩ none) .done

/-- The second body was entered with nothing right after its delegate, the first generator, failed
with what it may not catch. -/
def enteredBereft : List Happening → Bool
  | [_, _, _, .entered g none, .answered g₁ sub₁ (.error (.uncatchable _)), .forwarded _ _,
      .traced _ _ _, .left g₂ (.ok (.yields ⟨_, _, some sub₂, _⟩)), _, _, _, _] =>
    decide (g = ⟨1⟩ ∧ g₁ = ⟨1⟩ ∧ sub₁ = ⟨0⟩ ∧ g₂ = ⟨1⟩ ∧ sub₂ = ⟨0⟩)
  | _ => false

/-- After an exhausted budget the body is entered with nothing, though its delegate goes on. -/
theorem entered_without_delegate :
    ∃ a w later mid y before, (exhausting.run 5 ⟨0⟩ exhaust).run (.initial ()) = some (a, w) ∧
      w.history = later ++ .entered ⟨1⟩ none :: (mid ++ .left ⟨1⟩ (.ok (.yields y)) :: before) ∧
      y.delegate = some ⟨0⟩ ∧ (∀ p, .entered ⟨1⟩ p ∉ mid) ∧
      ¬ ∃ x rest p, mid = x :: rest ∧ x.Delivers ⟨1⟩ ⟨0⟩ p ∧ (none : Option Payload) = some p := by
  have hrun : ((exhausting.run 5 ⟨0⟩ exhaust).run (.initial ())).any
      (enteredBereft ·.2.history) = true := by
    decide +kernel
  obtain ⟨⟨a, w⟩, hrun, hm⟩ := (Option.any_eq_true _ _).mp hrun
  unfold enteredBereft at hm
  split at hm
  · next x₁ x₂ x₃ _ _ _ r g₁ g₂ c g e _ v o _ t x₄ x₅ x₆ x₇ hh =>
    obtain ⟨rfl, rfl, rfl, rfl, rfl⟩ := of_decide_eq_true hm
    let mid : List Happening := [.answered ⟨1⟩ ⟨0⟩ (.error (.uncatchable r)), .forwarded g₁ g₂,
      .traced c g e]
    have hmid : ∀ p, .entered ⟨1⟩ p ∉ mid := by simp [mid]
    refine ⟨a, w, [x₁, x₂, x₃], mid, ⟨v, o, some ⟨0⟩, t⟩, [x₄, x₅, x₆, x₇], hrun, hh, rfl, hmid, ?_⟩
    rw [entered_after_delegate exhausting 5 ⟨0⟩ exhaust () a w hrun ⟨1⟩ ⟨0⟩ none ⟨v, o, some ⟨0⟩, t⟩
      [x₁, x₂, x₃] mid [x₄, x₅, x₆, x₇] hh rfl hmid]
    intro hu
    exact hu _ (List.mem_cons_self ..) (.answered (by simp))
  · cases hm

end Resumable
