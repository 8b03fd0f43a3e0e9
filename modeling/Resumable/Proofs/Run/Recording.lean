import Resumable.Proofs.Run.Tracking

/-!
# Recorded events

A recorder without a limit keeps every event that its context is told of, in the order they came, if
programs leave it alone but for the look-ups they report.
-/

namespace Resumable

variable {σ : Type}

-- ---------------------------------------------------------------------------
-- What is recorded
-- ---------------------------------------------------------------------------

def Happening.toldIn? (c : Ref .context) : Happening → Option (Ref .generator × TraceEvent)
  | traced c' g e => if c' = c then some (g, e) else none
  | _ => none

def toldIn (c : Ref .context) (hist : List Happening) : List (Ref .generator × TraceEvent) :=
  hist.reverse.filterMap (·.toldIn? c)

theorem toldIn_cons (c : Ref .context) (x : Happening) (hist : List Happening) :
    toldIn c (x :: hist) = toldIn c hist ++ (x.toldIn? c).toList := by
  cases h : x.toldIn? c <;> simp [toldIn, h]

theorem toldIn_cons_of_none (h : x.toldIn? c = none) (hist : List Happening) :
    toldIn c (x :: hist) = toldIn c hist := by
  rw [toldIn_cons, h, Option.toList_none, List.append_nil]

/-- The edit adds to what is recorded or takes from it, and is no report of a look-up. -/
def Edit.Meddles : Edit → Prop
  | .emit e => e.isLookup = false
  | .clearEvents => True
  | _ => False

namespace World

variable {w w' : World σ} {c : Ref .context} {P : Ref .context → Edit → Prop}

/-- The tracer of a context is a recorder that holds all that the context was told of. -/
def Recorded (c : Ref .context) (w : World σ) : Prop :=
  w.contexts.Valid c ∧ ∃ r, (w.context c).tracer = .recording r ∧ r.limit? = none ∧
    r.events.filter (!·.isLookup) = (toldIn c w.history).map Prod.snd

namespace Recorded

theorem of_eq (h : w.Recorded c) (hc : w'.contexts = w.contexts)
    (hh : toldIn c w'.history = toldIn c w.history) : w'.Recorded c := by
  rw [Recorded, context, hc, hh]
  exact h

theorem modifyContext {f : Context → Context} (h : w.Recorded c) (c' : Ref .context)
    (hf : c' = c → (f (w.context c)).tracer = (w.context c).tracer) :
    (w.modifyContext c' f).Recorded c := by
  obtain ⟨hv, r, hr, hrest⟩ := h
  refine ⟨(Store.valid_modify ..).mpr hv, r, ?_, hrest⟩
  by_cases hc : c = c'
  · subst hc
    exact (congrArg Context.tracer (Store.get_modify_self _ f hv)).trans ((hf rfl).trans hr)
  · exact (congrArg Context.tracer (Store.get_modify_of_ne _ f hc)).trans hr

theorem emit (h : w.Recorded c) (e : TraceEvent) :
    ∃ r, ((w.modifyContext c (·.emit e)).context c).tracer = .recording r ∧ r.limit? = none ∧
      r.events.filter (!·.isLookup) =
        (toldIn c w.history).map Prod.snd ++ [e].filter (!·.isLookup) := by
  obtain ⟨hv, r, hr, hlimit, hevents⟩ := h
  refine ⟨r.add e, ?_, ?_, ?_⟩
  · refine (congrArg Context.tracer (Store.get_modify_self _ (·.emit e) hv)).trans ?_
    exact congrArg (Tracer.add · e) hr
  · simp [Recorder.add, Recorder.hasRoom, hlimit]
  · rw [Recorder.events_add_unlimited r e hlimit, List.filter_append, hevents]

theorem lookup (h : w.Recorded c) (he : e.isLookup = true) :
    (w.modifyContext c (·.emit e)).Recorded c := by
  obtain ⟨r, hr, hlimit, hevents⟩ := h.emit e
  exact ⟨(Store.valid_modify ..).mpr h.1, r, hr, hlimit, by simpa [he] using hevents⟩

theorem told (h : w.Recorded c) (he : e.isLookup = false) (c' : Ref .context)
    (g : Ref .generator) : (w.told c' g e).Recorded c := by
  by_cases hc : c' = c
  · subst hc
    obtain ⟨r, hr, hlimit, hevents⟩ := h.emit e
    have htold : (Happening.traced c' g e).toldIn? c' = some (g, e) := if_pos rfl
    refine ⟨(Store.valid_modify ..).mpr h.1, r, hr, hlimit, ?_⟩
    rw [hevents, history_told, toldIn_cons, htold]
    simp [he]
  · have hother : (Happening.traced c' g e).toldIn? c = none := if_neg hc
    refine (h.modifyContext (f := (·.emit e)) c' fun h => absurd h hc).of_eq rfl ?_
    exact toldIn_cons_of_none hother _

end Recorded

theorem Step.recorded (h : w.Step w') (hw : w.Recorded c) : w'.Recorded c := by
  cases h with
  | generator h =>
    obtain ⟨-, rfl⟩ := Exec.call_run h
    exact hw.of_eq rfl (toldIn_cons_of_none rfl _)
  | context k =>
    obtain ⟨hv, hr⟩ := hw
    refine ⟨(Store.valid_add ..).mpr (.inl hv), ?_⟩
    rw [World.context, Store.get_add_of_valid _ k hv]
    exact hr
  | meter c' f hf => exact hw.modifyContext c' fun hc => hc ▸ hf
  | record h hh =>
    refine hw.of_eq rfl (toldIn_cons_of_none ?_ _)
    cases h with
    | traced c g e => exact absurd rfl (hh c g e)
    | _ => rfl
  | told c' g e he => exact hw.told he c' g
  | _ => exact hw.of_eq rfl rfl

theorem Trail.recorded (h : w.Trail P Q own w') (hP : ∀ x, P c x → ¬ x.Meddles)
    (hw : w.Recorded c) : w'.Recorded c := by
  induction h with
  | refl => exact hw
  | trans _ _ ih ih' => exact ih' (ih hw)
  | step h => exact h.recorded hw
  | @edit x own w c' hx =>
    cases x with
    | emit e =>
      by_cases hc : c' = c
      · subst hc
        exact hw.lookup (by simpa [Edit.Meddles] using hP _ hx)
      · exact hw.modifyContext (f := (·.emit e)) c' fun h => absurd h hc
    | clearEvents => exact hw.modifyContext c' fun h => (hP .clearEvents (h ▸ hx) trivial).elim
    | _ => exact hw.of_eq rfl rfl
  | chained | wrapped => exact hw.of_eq rfl rfl
  | seen | activity => exact hw.of_eq (contexts_setActivity _) (by rw [history_setActivity])
  | within x _ ih => exact ih hw

end World

end Resumable
