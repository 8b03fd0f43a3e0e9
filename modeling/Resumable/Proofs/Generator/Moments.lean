import Resumable.Proofs.Generator.Loops
import Resumable.Proofs.Run.Families

/-!
# Where loops are closed

A run comes to a moment if it has a result, and none once it may not go past that moment. A run that
closes a loop of contexts comes to a moment where a program sets a context, or where something is
raised that tangles.
-/

namespace Resumable

variable {σ : Type}

-- ---------------------------------------------------------------------------
-- Moments
-- ---------------------------------------------------------------------------

/-- Where the context of an exception is set, or may come to be set. -/
inductive Moment (σ : Type) where
  | sets (c : Ref .context) (e : Exc) (other : Option Exc) (w : World σ)
  | chains (c : Ref .context) (e : Exc) (w : World σ)
  /-- A body is left with a result. What was thrown into it by the same resumption comes along. -/
  | leaves (c : Ref .context) (thrown : Option Exc) (result : Except Failure BodyResult)
    (w : World σ)

namespace Moment

def Safe : Moment σ → Prop
  | sets .. => False
  | chains c e w => w.Made c e ∧ ¬ w.Tangles c e
  | leaves c thrown result w => w.LetsGo c thrown result

def Leaving : Moment σ → Prop
  | leaves .. => True
  | _ => False

end Moment

open Classical in
/-- A body that is not left at the moment: it sets a context first. -/
noncomputable def Prog.stopped (m : Moment σ) (body : Prog σ (Except Failure BodyResult)) :
    Prog σ (Except Failure BodyResult) := do
  let c ← .request .here
  let thrown ← Prog.look (·.thrownIn)
  let result ← body
  if ← Prog.look fun w => decide (m = .leaves c thrown result w) then
    .request (.edit (.context default none))
  return result

namespace Host

/-- Nothing happens at the moment, and no context is set where a body would be left at it. -/
def before (m : Moment σ) : Rule σ := fun _ _ c q w _ _ => match q with
  | .edit (.context e other) => m ≠ .sets c e other w ∧ ¬ m.Leaving
  | .chain e => m ≠ .chains c e w
  | _ => True

/-- The same host, with bodies that are not left at the moment. -/
noncomputable def stopped (host : Host σ) (m : Moment σ) : Host σ :=
  { host with body := fun t => (host.body t).stopped m }

/-- A run has a result, and none if it may not go past the moment. -/
def ComesTo (host : Host σ) (n : Nat) (c : Ref .context) (p : Prog σ α) (w : World σ)
    (m : Moment σ) : Prop :=
  ((host.run n c p).run w).isSome ∧
    ((host.stopped m).runWatched (before m) (n + 1) c p).run w = none

end Host

-- ---------------------------------------------------------------------------
-- Ways to run
-- ---------------------------------------------------------------------------

/-- How a run is made: as it is, by bodies that look first, or not past a moment. -/
inductive Way (σ : Type) where
  | plain
  | wary
  | before (m : Moment σ)

/-- Where a run as it is has a result, one that may not go past a moment has no other; and the run
by bodies that look first has it, if it comes to safe moments only. -/
def Way.Agree {α : Type} (x : Way σ → Exec σ α) : Prop :=
  ∀ w r, (x .plain).run w = some r →
    (∀ m r', (x (.before m)).run w = some r' → r' = r) ∧
      ((∀ m : Moment σ, ¬ m.Safe → (x (.before m)).run w = some r) → (x .wary).run w = some r)

theorem Way.closed_agree : Closed (Way.Agree (σ := σ)) where
  const x w r h := ⟨fun _ r' h' => Option.some.inj (h'.symm.trans h), fun _ => h⟩
  bind {α β x f} hx hf w r h := by
    obtain ⟨⟨a, u⟩, hxr, hfr⟩ := Option.bind_eq_some_iff.mp h
    obtain ⟨hsame, hwary⟩ := hx w _ hxr
    obtain ⟨hsame', hwary'⟩ := hf a u r hfr
    have hsplit : ∀ m r', (x (.before m) >>= fun a => f a (.before m)).run w = some r' →
        (x (.before m)).run w = some (a, u) ∧ (f a (.before m)).run u = some r' := by
      intro m r' h'
      obtain ⟨⟨a', u'⟩, hx', hf'⟩ := Option.bind_eq_some_iff.mp h'
      obtain ⟨rfl, rfl⟩ := Prod.mk.inj (hsame m _ hx')
      exact ⟨hx', hf'⟩
    refine ⟨fun m r' h' => hsame' m r' (hsplit m r' h').2, fun hall => ?_⟩
    refine Option.bind_eq_some_iff.mpr ⟨(a, u), hwary fun m hm => ?_, hwary' fun m hm => ?_⟩
    · exact (hsplit m r (hall m hm)).1
    · exact (hsplit m r (hall m hm)).2

-- ---------------------------------------------------------------------------
-- Bodies
-- ---------------------------------------------------------------------------

namespace Host

section

variable {host : Host σ} {rule : Rule σ} {n : Nat} {c : Ref .context} {w : World σ}

theorem watched_run_of_rule {q : Request σ α} {r : α × World σ}
    (h : (Engine.answer ⟨host, host.watched rule n⟩ c q).run w = some r)
    (hrule : rule α ⟨host, host.answer n⟩ c q w r.1 r.2) :
    (host.watched rule (n + 1) c q).run w = some r :=
  Option.filter_eq_some_iff.mpr ⟨h, by simpa using hrule⟩

theorem watched_run_of_not_rule {q : Request σ α} {r : α × World σ}
    (h : (Engine.answer ⟨host, host.watched rule n⟩ c q).run w = some r)
    (hrule : ¬ rule α ⟨host, host.answer n⟩ c q w r.1 r.2) :
    (host.watched rule (n + 1) c q).run w = none := by
  refine Option.filter_eq_none_iff.mpr fun r' h' => ?_
  obtain rfl : r' = r := Option.some.inj (h'.symm.trans h)
  simpa using hrule

variable {ask : {α : Type} → Ref .context → Request σ α → Exec σ α}
  {body : Prog σ (Except Failure BodyResult)}

/-- What looking at the context of a body, at what was thrown into it and at what it is left with
makes of its run. -/
theorem looking_run (hhere : ∀ w, (ask c .here).run w = some (c, w))
    (hlook : ∀ {α : Type} (f : World σ → α) w, (ask c (.look f)).run w = some (f w, w))
    (p : Ref .context → Option Exc → Except Failure BodyResult → World σ → Bool)
    (k : Except Failure BodyResult → Bool → Prog σ (Except Failure BodyResult)) :
    (Prog.run ask c (do
      let c ← .request .here
      let thrown ← Prog.look (·.thrownIn)
      let result ← body
      k result (← Prog.look (p c thrown result)))).run w =
    ((body.run ask c).run w).bind fun r =>
      ((k r.1 (p c w.thrownIn r.1 r.2)).run ask c).run r.2 := by
  change (Prog.run ask c (.ask .here fun c => .ask (.look (·.thrownIn)) fun thrown =>
    body.bind fun result => .ask (.look (p c thrown result)) fun b => k result b)).run w = _
  simp only [Prog.run, Prog.run_bind, StateT.run_bind, hhere, hlook]
  rfl

theorem wary_run_eq : (body.wary.run (host.watched untangled (n + 1)) c).run w =
    ((body.run (host.watched untangled (n + 1)) c).run w).bind fun r =>
      some (if r.2.LetsGo c w.thrownIn r.1 then r.1 else
        .error (.internal "a loop of contexts"), r.2) := by
  refine (looking_run (fun w => watched_run_of_rule rfl trivial)
    (fun f w => watched_run_of_rule rfl trivial) _ _).trans ?_
  refine congrArg _ (funext fun r => ?_)
  by_cases h : r.2.LetsGo c w.thrownIn r.1
  · rw [decide_eq_true h, if_pos h]
    rfl
  · rw [decide_eq_false h, if_neg h]
    rfl

open Classical in
theorem stopped_run_eq (m : Moment σ) :
    ((body.stopped m).run (host.watched (before m) (n + 1)) c).run w =
      ((body.run (host.watched (before m) (n + 1)) c).run w).bind fun r =>
        if m = .leaves c w.thrownIn r.1 r.2 then none else some r := by
  refine (looking_run (fun w => watched_run_of_rule rfl trivial)
    (fun f w => watched_run_of_rule rfl trivial) _ _).trans ?_
  refine congrArg _ (funext fun r => ?_)
  by_cases h : m = .leaves c w.thrownIn r.1 r.2
  · have hleaving : m.Leaving := h ▸ trivial
    have hsets : (host.watched (before m) (n + 1) c (.edit (.context default none))).run r.2 =
        none := watched_run_of_not_rule rfl fun hrule => hrule.2 hleaving
    rw [decide_eq_true h, if_pos h]
    change (host.watched (before m) (n + 1) c (.edit (.context default none)) >>= _).run r.2 = none
    rw [StateT.run_bind, hsets]
    rfl
  · rw [decide_eq_false h, if_neg h]
    rfl

theorem run_of_stopped {m : Moment σ} {r : Except Failure BodyResult × World σ}
    (h : ((body.stopped m).run (host.watched (before m) (n + 1)) c).run w = some r) :
    (body.run (host.watched (before m) (n + 1)) c).run w = some r ∧
      m ≠ .leaves c w.thrownIn r.1 r.2 := by
  rw [stopped_run_eq] at h
  obtain ⟨r', hrun, hr⟩ := Option.bind_eq_some_iff.mp h
  split at hr
  · cases hr
  · next hm =>
    cases hr
    exact ⟨hrun, hm⟩

end

end Host

-- ---------------------------------------------------------------------------
-- Runs
-- ---------------------------------------------------------------------------

noncomputable def Prog.onWay (body : Prog σ (Except Failure BodyResult)) :
    Way σ → Prog σ (Except Failure BodyResult)
  | .plain => body
  | .wary => body.wary
  | .before m => body.stopped m

namespace Host

noncomputable def onWay (host : Host σ) (i : Way σ) : Host σ :=
  { host with body := fun t => (host.body t).onWay i }

/-- The levels below, which are one more where bodies look. -/
noncomputable def askOnWay (host : Host σ) (n : Nat) :
    Way σ → {α : Type} → Ref .context → Request σ α → Exec σ α
  | .plain => host.answer n
  | .wary => host.wary.watched untangled (n + 1)
  | .before m => (host.stopped m).watched (before m) (n + 1)

variable {host : Host σ} {n : Nat}

section

variable (hask : ∀ {α : Type} (c : Ref .context) (q : Request σ α),
  Way.Agree fun i => host.askOnWay n i c q)
include hask

theorem agree_perform (c : Ref .context) (p : Prog σ α) :
    Way.Agree fun i => p.run (host.askOnWay n i) c :=
  Way.closed_agree.perform (e := fun i => ⟨host, host.askOnWay n i⟩) hask c p

theorem agree_body (c : Ref .context) (body : Prog σ (Except Failure BodyResult)) :
    Way.Agree fun i => (body.onWay i).run (host.askOnWay n i) c := by
  intro w r hr
  obtain ⟨hsame, hwary⟩ := agree_perform hask c body w r hr
  refine ⟨fun m r' h => hsame m r' (run_of_stopped h).1, fun hall => ?_⟩
  have hletsGo : r.2.LetsGo c w.thrownIn r.1 := Classical.not_not.mp fun hunsafe =>
    (run_of_stopped (hall (.leaves c w.thrownIn r.1 r.2) hunsafe)).2 rfl
  have hbody : (body.run (host.wary.watched untangled (n + 1)) c).run w = some r :=
    hwary fun m hm => (run_of_stopped (hall m hm)).1
  change (body.wary.run (host.wary.watched untangled (n + 1)) c).run w = some r
  rw [wary_run_eq, hbody, Option.bind_some, if_pos hletsGo]

theorem agree_among :
    Engine.Among (Way.Agree (σ := σ)) fun i => ⟨host.onWay i, host.askOnWay n i⟩ where
  ask := hask
  body c t := agree_body hask c (host.body t)
  hash c layer inst := agree_perform hask c (host.hash layer inst)
  compare c layer inst other := agree_perform hask c (host.compare layer inst other)
  construct c layer cls args := agree_perform hask c (host.construct layer cls args)

end

theorem untangled_of_before {q : Request σ α} {e : Moment σ → Engine σ} {e' : Engine σ} {a : α}
    {w w' : World σ} (h : ∀ m : Moment σ, ¬ m.Safe → before m α (e m) c q w a w') :
    untangled α e' c q w a w' := by
  cases q with
  | edit x =>
    cases x with
    | context exc other => exact absurd rfl (h (.sets c exc other w) id).1
    | _ => exact id
  | chain exc => exact Classical.not_not.mp fun hunsafe => h (.chains c exc w) hunsafe rfl
  | _ => trivial

theorem agree_ask (n : Nat) (c : Ref .context) (q : Request σ α) :
    Way.Agree fun i => host.askOnWay n i c q := by
  induction n generalizing α c with
  | zero => exact fun w r h => nomatch h
  | succ n ih =>
    intro w r hr
    obtain ⟨hsame, hwary⟩ := Way.closed_agree.answer (agree_among ih) c q w r hr
    refine ⟨fun m r' h => hsame m r' (Option.filter_eq_some_iff.mp h).1, fun hall => ?_⟩
    have hrules := fun m hm => Option.filter_eq_some_iff.mp (hall m hm)
    refine watched_run_of_rule (hwary fun m hm => (hrules m hm).1) ?_
    exact untangled_of_before fun m hm => by simpa using (hrules m hm).2

variable {c : Ref .context} {p : Prog σ α} {w : World σ}

/-- A run that comes to safe moments only is the run by bodies that look first. -/
theorem wary_run_of_safe {r : α × World σ} (hrun : (host.run n c p).run w = some r)
    (hsafe : ∀ m, host.ComesTo n c p w m → m.Safe) :
    (host.wary.runWatched untangled (n + 1) c p).run w = (host.run n c p).run w := by
  obtain ⟨hsame, hwary⟩ := agree_perform (agree_ask n) c p w r hrun
  refine (hwary fun m hm => ?_).trans hrun.symm
  cases hstop : ((host.stopped m).runWatched (before m) (n + 1) c p).run w with
  | none => exact absurd (hsafe m ⟨Option.isSome_of_eq_some hrun, hstop⟩) hm
  | some r' => exact hstop.trans (congrArg some (hsame m r' hstop))

/-- A run that closes a loop comes to a moment that is not safe. -/
theorem comesTo_of_loop {a : α} {w' : World σ} (hw : w.links.Acyclic)
    (hrun : (host.run n c p).run w = some (a, w')) (hloop : ¬ w'.links.Acyclic) :
    ∃ m, host.ComesTo n c p w m ∧ ¬ m.Safe := by
  by_contra hnone
  have hsafe : ∀ m, host.ComesTo n c p w m → m.Safe := fun m hm =>
    Classical.not_not.mp fun hunsafe => hnone ⟨m, hm, hunsafe⟩
  exact hloop (runWatched_acyclic hw ((wary_run_of_safe hrun hsafe).trans hrun))

/-- A program that asks for a link comes to the moment of the link, and no other. -/
theorem comesTo_chain_iff {e : Exc} {m : Moment σ} :
    host.ComesTo (n + 1) c (.request (.chain e)) w m ↔ m = .chains c e w := by
  obtain ⟨v, hrun, -⟩ := Exec.chainCaller_run c e w
  have hhost : (host.run (n + 1) c (.request (.chain e))).run w = some ((), v) := by
    rw [run, Prog.run_request]
    exact hrun
  rw [ComesTo, hhost, runWatched, Prog.run_request]
  constructor
  · rintro ⟨-, hnone⟩
    by_contra hm
    have hsome : ((host.stopped m).watched (before m) (n + 2) c (.chain e)).run w = some ((), v) :=
      watched_run_of_rule hrun hm
    exact Option.some_ne_none _ (hsome.symm.trans hnone)
  · rintro rfl
    exact ⟨rfl, watched_run_of_not_rule hrun fun h => h rfl⟩

end Host

end Resumable
