import Resumable.Proofs.Run.Requests

/-!
# Watched runs

A watched run breaks off at the first answer that does not follow a rule. A rule that all answers
given in the worlds of a regime, or of two, follow is never broken, at whatever nesting: the watched
run is the run.
-/

namespace Resumable

open Exec (Follows Keeps)

variable {σ : Type}

theorem World.Settled.initial (s : σ) : (World.initial s).Settled where
  lawful := .nil
  course _ := rfl
  made g := by simp [World.initial, Store.Valid, Store.empty, standing, latest]
  duty _ := rfl
  apart := .nil
  paid _ _ := nofun

-- ---------------------------------------------------------------------------
-- Two regimes at once
-- ---------------------------------------------------------------------------

namespace Engine

open Classical in
noncomputable def only (e : Engine σ) (p : World σ → Prop) : Engine σ :=
  ⟨e.host, fun c q w => if p w then (e.ask c q).run w else none⟩

variable {r r' : Regime σ} {e e' : Engine σ}

theorem Under.only (he : e.Under r e) (p : World σ → Prop) : (e.only p).Under r (e.only p) where
  host := rfl
  ask c q w hw := by
    refine ⟨rfl, fun a w' h => ?_⟩
    by_cases hp : p w
    · exact (he.ask c q w hw).2 a w' (by simpa [Engine.only, StateT.run, hp] using h)
    · simp [Engine.only, StateT.run, hp] at h

theorem Under.admitted (he : e.Under r e) : (e.only r.Admits).Under r e where
  host := rfl
  ask c q w hw := ⟨if_pos hw, (he.ask c q w hw).2⟩

/-- Where two engines answer alike in the worlds that two regimes admit, what runs by them in such
a world does so alike. -/
theorem run_eq_of_regimes {x : Engine σ → Exec σ α}
    (hx : ∀ {e e'}, Engine.Under r e e' → Follows r (x e) (x e'))
    (hx' : ∀ {e e'}, Engine.Under r' e e' → Follows r' (x e) (x e'))
    (he : e.Under r e) (he' : e'.Under r e') (hr : e.Under r' e) (hr' : e'.Under r' e')
    (hhost : e.host = e'.host)
    (hask : ∀ {β : Type} (c : Ref .context) (q : Request σ β) (w : World σ), r.Admits w →
      r'.Admits w → (e.ask c q).run w = (e'.ask c q).run w)
    {w : World σ} (hw : r.Admits w) (hw' : r'.Admits w) : (x e).run w = (x e').run w := by
  -- Restricted to what both admit the engines are one, and neither restriction is ever noticed: for
  -- each regime the engine that is restricted to the other one is as good as any.
  have honly : ∀ {e}, Engine.Under r e e → Engine.Under r' e e →
      (x ((e.only r.Admits).only r'.Admits)).run w = (x e).run w := fun he hr =>
    ((hx' (hr.only _).admitted) w hw').1.trans ((hx he.admitted) w hw).1
  have heq : (e.only r.Admits).only r'.Admits = (e'.only r.Admits).only r'.Admits := by
    simp only [Engine.only, hhost, Engine.mk.injEq, true_and]
    funext β c q w
    simp only [StateT.run]
    split
    · next hw' =>
      split
      · next hw => exact hask c q w hw hw'
      · rfl
    · rfl
  rw [← honly he hr, heq, honly he' hr']

end Engine

-- ---------------------------------------------------------------------------
-- Rules
-- ---------------------------------------------------------------------------

namespace Host

/-- Says of a request answered by an engine what may come of it. -/
abbrev Rule (σ : Type) : Type 1 :=
  ∀ α : Type, Engine σ → Ref .context → Request σ α → World σ → α → World σ → Prop

open Classical in
/-- Answers requests, but breaks off after an answer that does not follow the rule. -/
noncomputable def watched (host : Host σ) (rule : Rule σ) :
    Nat → {α : Type} → Ref .context → Request σ α → Exec σ α
  | 0, _, _, _ => fun _ => none
  | n + 1, α, c, q => fun w =>
    ((Engine.answer ⟨host, host.watched rule n⟩ c q).run w).filter
      fun r => rule α ⟨host, host.answer n⟩ c q w r.1 r.2

noncomputable def runWatched (host : Host σ) (rule : Rule σ) (n : Nat) {α : Type}
    (c : Ref .context) (p : Prog σ α) : Exec σ α :=
  p.run (host.watched rule n) c

/-- No answer of a run from a world departs from the rule, at whatever nesting. -/
def Upholds (host : Host σ) (rule : Rule σ) (w : World σ) : Prop :=
  ∀ (α : Type) (n : Nat) (c : Ref .context) (p : Prog σ α),
    (host.runWatched rule n c p).run w = (host.run n c p).run w

theorem watched_succ_run {host : Host σ} {rule : Rule σ} {n : Nat} {c : Ref .context}
    {q : Request σ α} {w : World σ}
    (hbelow : (Engine.answer ⟨host, host.watched rule n⟩ c q).run w =
      (Engine.answer ⟨host, host.answer n⟩ c q).run w)
    (hrule : ∀ a w', (Engine.answer ⟨host, host.answer n⟩ c q).run w = some (a, w') →
      rule α ⟨host, host.answer n⟩ c q w a w') :
    (host.watched rule (n + 1) c q).run w = (host.answer (n + 1) c q).run w := by
  refine (congrArg (Option.filter _) hbelow).trans ?_
  cases hrun : (Engine.answer ⟨host, host.answer n⟩ c q).run w with
  | none => exact hrun.symm
  | some x =>
    refine .trans ?_ hrun.symm
    simp [hrule _ _ hrun]

section

variable {r r' : Regime σ}
  (hr : ∀ {α : Type} {e e' : Engine σ}, e.Under r e' →
    ∀ (c : Ref .context) (q : Request σ α), Follows r (e.answer c q) (e'.answer c q))
include hr

theorem answer_follows (host : Host σ) (n : Nat) (c : Ref .context) (q : Request σ α) :
    Follows r (host.answer n c q) (host.answer n c q) := by
  induction n generalizing α c with
  | zero => exact fun w _ => ⟨rfl, fun a w' h => nomatch h⟩
  | succ n ih => exact hr ⟨rfl, ih⟩ c q

theorem under (host : Host σ) (n : Nat) :
    Engine.Under (σ := σ) r ⟨host, host.answer n⟩ ⟨host, host.answer n⟩ :=
  ⟨rfl, answer_follows hr host n⟩

theorem watched_under (host : Host σ) (rule : Rule σ) (n : Nat) :
    Engine.Under (σ := σ) r ⟨host, host.watched rule n⟩ ⟨host, host.watched rule n⟩ where
  host := rfl
  ask {α} c q := by
    induction n generalizing α c with
    | zero => exact fun w _ => ⟨rfl, fun a w' h => nomatch h⟩
    | succ n ih =>
      refine fun w hw => ⟨rfl, fun a w' h => ?_⟩
      exact (hr ⟨rfl, ih⟩ c q w hw).2 a w' (Option.filter_eq_some_iff.mp h).1

variable (hr' : ∀ {α : Type} {e e' : Engine σ}, e.Under r' e' →
    ∀ (c : Ref .context) (q : Request σ α), Follows r' (e.answer c q) (e'.answer c q))
  {host : Host σ} {rule : Rule σ} (h : ∀ {α : Type} {n : Nat} {c : Ref .context}
    {q : Request σ α} {w : World σ} {a : α} {w' : World σ}, r.Admits w → r'.Admits w →
    ((⟨host, host.answer n⟩ : Engine σ).answer c q).run w = some (a, w') →
    rule α ⟨host, host.answer n⟩ c q w a w')
include hr' h

theorem watched_eq {w : World σ} (hw : r.Admits w) (hw' : r'.Admits w) (n : Nat)
    (c : Ref .context) (q : Request σ α) :
    (host.watched rule n c q).run w = (host.answer n c q).run w := by
  induction n generalizing α c w with
  | zero => rfl
  | succ n ih =>
    have heq := Engine.run_eq_of_regimes (fun he => hr he c q) (fun he => hr' he c q)
      (watched_under hr host rule n) (under hr host n) (watched_under hr' host rule n)
      (under hr' host n) rfl (fun c q w hw hw' => ih hw hw' c q) hw hw'
    exact watched_succ_run heq fun a w' hrun => h hw hw' hrun

/-- A rule that all answers given in the worlds of two regimes follow is never broken. -/
theorem upholds_of_regimes {w : World σ} (hw : r.Admits w) (hw' : r'.Admits w) :
    host.Upholds rule w := by
  intro α n c p
  exact Engine.run_eq_of_regimes (fun he => Engine.perform_follows he c p)
    (fun he => Engine.perform_follows he c p) (watched_under hr host rule n) (under hr host n)
    (watched_under hr' host rule n) (under hr' host n) rfl
    (fun c q w hw hw' => watched_eq hr hr' h hw hw' n c q) hw hw'

omit hr' h in
theorem upholds_of_regime (h : ∀ {α : Type} {n : Nat} {c : Ref .context} {q : Request σ α}
    {w : World σ} {a : α} {w' : World σ}, r.Admits w →
    ((⟨host, host.answer n⟩ : Engine σ).answer c q).run w = some (a, w') →
    rule α ⟨host, host.answer n⟩ c q w a w') {w : World σ} (hw : r.Admits w) :
    host.Upholds rule w := upholds_of_regimes hr hr (fun hw _ => h hw) hw hw

end

variable {host : Host σ}

theorem answer_keeps (n : Nat) (c : Ref .context) (q : Request σ α) :
    Keeps (host.answer n c q) (host.answer n c q) := answer_follows Engine.answer_keeps host n c q

theorem trusts (host : Host σ) (n : Nat) :
    Engine.Trusts (σ := σ) ⟨host, host.answer n⟩ ⟨host, host.answer n⟩ :=
  under Engine.answer_keeps host n

theorem runWatched_eq {rule : Rule σ}
    (h : ∀ {α : Type} {e : Engine σ} {c : Ref .context} {q : Request σ α} {w : World σ} {a : α}
      {w' : World σ}, e.Trusts e → w.Settled → (e.answer c q).run w = some (a, w') →
      rule α e c q w a w')
    (n : Nat) (c : Ref .context) (p : Prog σ α) {w : World σ} (hw : w.Settled) :
    (host.runWatched rule n c p).run w = (host.run n c p).run w :=
  upholds_of_regime (r := .settled) Engine.answer_keeps
    (fun hw hrun => h (host.trusts _) hw hrun) hw α n c p

end Host

end Resumable
