import Resumable.Proofs.Run.Tracking

/-!
# Programs that keep to one context

Where no program changes contexts, what a request comes to depends on how requests are answered in
its own context only. So a rule that only restricts other contexts, or requests that no program
makes, is never broken.
-/

namespace Resumable

variable {σ : Type} {R : {β : Type} → Request σ β → Prop}

theorem Request.Only.of_operates {P : Edit → Prop} {q : Request σ α} (h : q.Operates ∨ q.Only P) :
    q.Only P := by
  obtain h | h := h
  · cases q <;> trivial
  · exact h

/-- A program makes requests of some kind only, and all of them in the context it is run in. -/
def Prog.Asks (R : {β : Type} → Request σ β → Prop) {α : Type} : Prog σ α → Prop
  | done _ => True
  | ask q k => R q ∧ ∀ b, (k b).Asks R
  | handling _ inner k => inner.Asks R ∧ ∀ b, (k b).Asks R
  | within .. => False

theorem Prog.asks_request {q : Request σ α} (h : R q) : (request q).Asks R := ⟨h, fun _ => trivial⟩

theorem Prog.Asks.run_eq {ask ask' : {β : Type} → Ref .context → Request σ β → Exec σ β}
    {p : Prog σ α} (hp : p.Asks R)
    (h : ∀ {β : Type} {q : Request σ β}, R q → ask c q = ask' c q) :
    p.run ask c = p.run ask' c := by
  induction p with
  | done a => rfl
  | ask q k ih =>
    obtain ⟨hq, hk⟩ := hp
    simp only [run, h hq, ih _ (hk _)]
  | handling exc inner k ih ih' =>
    obtain ⟨hinner, hk⟩ := hp
    simp only [run, ih hinner, ih' _ (hk _)]
  | within => cases hp

/-- All programs of a host make requests of some kind only, and do not change contexts. -/
structure Host.Asks (R : {β : Type} → Request σ β → Prop) (host : Host σ) : Prop where
  body : ∀ t, (host.body t).Asks R
  hash : ∀ layer i, (host.hash layer i).Asks R
  compare : ∀ layer i other, (host.compare layer i other).Asks R
  construct : ∀ layer cls args, (host.construct layer cls args).Asks R

-- ---------------------------------------------------------------------------
-- Answers
-- ---------------------------------------------------------------------------

namespace Engine

variable {host : Host σ} {ask ask' : {β : Type} → Ref .context → Request σ β → Exec σ β}
  {c : Ref .context}

variable (host) in
theorem forwards_eq (h : ∀ {β : Type} {q : Request σ β}, q.Operates → ask c q = ask' c q)
    (g sub : Ref .generator) :
    resumeDelegate (⟨host, ask⟩ : Engine σ) c g sub =
        resumeDelegate (⟨host, ask'⟩ : Engine σ) c g sub ∧
      closeDelegate (⟨host, ask⟩ : Engine σ) c g sub =
        closeDelegate (⟨host, ask'⟩ : Engine σ) c g sub := by
  constructor
  · funext p
    simp only [resumeDelegate, h (q := .resume sub (some p)) trivial]
  · funext exit hostTrace
    simp only [closeDelegate, h (q := .close sub) trivial]

section

variable (hhost : host.Asks R)
  (h : ∀ {β : Type} {q : Request σ β}, q.Operates ∨ R q → ask c q = ask' c q)
include hhost h

theorem hooks_eq : hooks (⟨host, ask⟩ : Engine σ) c = hooks (⟨host, ask'⟩ : Engine σ) c := by
  have hrun {α : Type} {p : Prog σ α} (hp : p.Asks R) : p.run ask c = p.run ask' c :=
    hp.run_eq fun hq => h (.inr hq)
  simp only [hooks, performHook, perform, hrun (hhost.hash _ _), hrun (hhost.compare _ _ _),
    hrun (hhost.construct _ _ _)]

theorem runBody_eq (g : Ref .generator) :
    runBody (⟨host, ask⟩ : Engine σ) c g = runBody (⟨host, ask'⟩ : Engine σ) c g := by
  funext p kind
  simp only [runBody, perform, (hhost.body _).run_eq fun hq => h (.inr hq)]

theorem settle_eq (g : Ref .generator) :
    settle (⟨host, ask⟩ : Engine σ) c g = settle (⟨host, ask'⟩ : Engine σ) c g := by
  funext answer
  cases answer <;> simp only [settle, runBody_eq hhost h]

theorem forwardThrow_eq (g sub : Ref .generator) :
    forwardThrow (⟨host, ask⟩ : Engine σ) c g sub =
      forwardThrow (⟨host, ask'⟩ : Engine σ) c g sub := by
  obtain ⟨hresume, hclose⟩ := forwards_eq host (fun hq => h (.inl hq)) g sub
  funext exc hostTrace kind
  simp only [forwardThrow, hresume, hclose, runBody_eq hhost h, settle_eq hhost h]

theorem advance_eq (g : Ref .generator) :
    advance (⟨host, ask⟩ : Engine σ) c g = advance (⟨host, ask'⟩ : Engine σ) c g := by
  have hresume sub := (forwards_eq host (fun hq => h (.inl hq)) g sub).1
  funext sent
  simp only [advance, forward, hresume, runBody_eq hhost h, settle_eq hhost h]

theorem inject_eq (g : Ref .generator) :
    inject (⟨host, ask⟩ : Engine σ) c g = inject (⟨host, ask'⟩ : Engine σ) c g := by
  funext exc hostTrace
  simp only [inject, forwardThrow_eq hhost h, runBody_eq hhost h]

/-- What a request comes to depends on how requests are answered in its own context. -/
theorem answer_eq (q : Request σ α) :
    answer (⟨host, ask⟩ : Engine σ) c q = answer (⟨host, ask'⟩ : Engine σ) c q := by
  cases q with
  | hash | equals | call => simp only [answer, hash, equals, call, hooks_eq hhost h]
  | resume g p => cases p <;> simp only [answer, resume, advance_eq hhost h, inject_eq hhost h]
  | throw g =>
    simp only [answer, throw, thrown, prepareException, call, hooks_eq hhost h,
      inject_eq hhost h]
  | close g =>
    simp only [answer, close, exitBody, forwardThrow_eq hhost h, runBody_eq hhost h]
  | _ => rfl

end

end Engine

-- ---------------------------------------------------------------------------
-- Rules
-- ---------------------------------------------------------------------------

namespace Host

variable {host : Host σ} {rule : Rule σ} {c : Ref .context} (hhost : host.Asks R)
  (hrule : ∀ {α : Type} {e : Engine σ} {q : Request σ α} {w : World σ} {a : α} {w' : World σ},
    q.Operates ∨ R q → rule α e c q w a w')
include hhost hrule

theorem watched_eq_of_asks {q : Request σ α} (hq : q.Operates ∨ R q) (n : Nat) :
    host.watched rule n c q = host.answer n c q := by
  induction n generalizing α with
  | zero => rfl
  | succ n ih =>
    have hanswer : Engine.answer ⟨host, host.watched rule n⟩ c q = host.answer (n + 1) c q :=
      Engine.answer_eq hhost ih q
    funext w
    exact watched_succ_run (congrFun hanswer w) fun a w' _ => hrule hq

/-- A rule is not broken in a context that no program leaves, if it allows what is asked there. -/
theorem runWatched_eq_of_asks {p : Prog σ α} (hp : p.Asks R) (n : Nat) :
    host.runWatched rule n c p = host.run n c p :=
  hp.run_eq fun hq => watched_eq_of_asks hhost hrule (.inr hq) n

end Host

end Resumable
