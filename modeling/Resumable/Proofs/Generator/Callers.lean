import Resumable.Proofs.Generator.Crossing
import Resumable.Proofs.Run.Restoring

/-!
# What a body sees of its resumer

A body may ask which exception its resumer is handling, and what it raises or lets escape is linked
to that one. It is looked up when it is first needed, among what is handled there and then, and
stays the same until the body stops. Everything that the body did in between has been put back; so
what it sees is the resumer's exception, unless it first looks while it handles one itself.
-/

namespace Resumable

open Exec (Alike)

variable {σ : Type}

-- ---------------------------------------------------------------------------
-- Looks
-- ---------------------------------------------------------------------------

/-- What an exception without a context is linked to where `x` is handled: never to itself. -/
def Exc.linked (e : Exc) (x : Option Exc) : Option Exc := x.filter (!·.same e)

/-- What makes a body look at its resumer. -/
inductive Query where
  | asks (answer : Option Exc)
  | raises (e : Exc)

/-- A body looks at its resumer. -/
structure Look (σ : Type) where
  context : Ref .context
  inner : List Exc
  query : Query
  before : World σ
  after : World σ

namespace Look

def current (l : Look σ) : Option Exc := (l.before.context l.context).currentException?

def Gets (x : Option Exc) (l : Look σ) : Prop := match l.query with
  | .asks answer => answer = x
  | .raises e => l.before.links.Valid e.ref → (l.after.linksOf e).context = e.linked x

def found (k : Option (Option Exc)) : List (Look σ) → Option (Option Exc)
  | [] => k
  | l :: _ => some (k.getD l.current)

theorem found_append (k : Option (Option Exc)) (looks later : List (Look σ)) :
    found k (looks ++ later) = found (found k looks) later := by
  cases looks <;> cases later <;> rfl

theorem found_append_of_mem {looks : List (Look σ)} (hl : l ∈ looks) (k : Option (Option Exc))
    (later : List (Look σ)) : found k (looks ++ later) = found k looks := by
  cases looks with
  | nil => cases hl
  | cons _ _ => rfl

end Look

def Request.look? (c : Ref .context) (inner : List Exc) (before : World σ) :
    {β : Type} → Request σ β → β → World σ → Option (Look σ)
  | _, .caller, answer, after => some ⟨c, inner, .asks answer, before, after⟩
  | _, .chain e, _, after =>
    if (before.linksOf e).context.isSome then none
    else some ⟨c, inner, .raises e, before, after⟩
  | _, _, _, _ => none

abbrev Handlers := Ref .context → List Exc

namespace Handlers

def none : Handlers := fun _ => []

def handling (c : Ref .context) (e : Exc) (hs : Handlers) : Handlers := fun c' =>
  if c = c' then e :: hs c' else hs c'

end Handlers

namespace Prog

def runLooking (answer : {β : Type} → Ref .context → Request σ β → Exec σ β) (hs : Handlers)
    (c : Ref .context) {α : Type} : Prog σ α → Exec σ (α × List (Look σ))
  | done a => pure (a, [])
  | ask q k => do
    let before ← get
    let b ← answer c q
    let after ← get
    let (a, later) ← (k b).runLooking answer hs c
    return (a, (q.look? c (hs c) before b after).toList ++ later)
  | handling e inner k => do
    modify fun w => w.modifyContext c (·.handling e)
    let (b, looks) ← inner.runLooking answer (hs.handling c e) c
    modify fun w => w.modifyContext c (·.handledOne)
    let (a, later) ← (k b).runLooking answer hs c
    return (a, looks ++ later)
  | within c' inner k => do
    let (b, looks) ← inner.runLooking answer hs c'
    let (a, later) ← (k b).runLooking answer hs c
    return (a, looks ++ later)

theorem fst_runLooking (answer : {β : Type} → Ref .context → Request σ β → Exec σ β)
    (hs : Handlers) (c : Ref .context) (p : Prog σ α) :
    Prod.fst <$> p.runLooking answer hs c = p.run answer c := by
  induction p generalizing hs c with
  | done a => rfl
  | ask q k ih =>
    simp only [runLooking, run, ← ih _ hs c, map_eq_pure_bind, LawfulMonad.bind_assoc, pure_bind]
    rfl
  | handling e inner k ihi ihk =>
    simp only [runLooking, run, ← ihi (hs.handling c e) c, ← ihk _ hs c, map_eq_pure_bind,
      LawfulMonad.bind_assoc, pure_bind]
  | within c' inner k ihi ihk =>
    simp only [runLooking, run, ← ihi hs c', ← ihk _ hs c, map_eq_pure_bind,
      LawfulMonad.bind_assoc, pure_bind]

end Prog

-- ---------------------------------------------------------------------------
-- What has been looked up
-- ---------------------------------------------------------------------------

theorem Links.context_chain {l : Links} (h : l.context = .none) (e handled : Exc) :
    (l.chain e handled).context = e.linked (some handled) := by
  cases hs : handled.same e <;> simp [chain, Exc.linked, Option.filter, h, hs]

namespace World

variable {w v u : World σ} {k : Option (Option Exc)} {hs : Handlers}

def Knows (k : Option (Option Exc)) (w : World σ) : Prop :=
  ∃ a, w.activation? = some a ∧ a.arguments.caller = k

theorem Knows.of_calls (h : w.Knows k) (hc : v.calls = w.calls) : v.Knows k := by
  unfold Knows activation?
  rw [hc]
  exact h

theorem activation?_setActivity (h : w.activation? = some a) (b : Activation) :
    (w.setActivity (.running b)).activation? = some b := by
  obtain ⟨g, c, rest, hc⟩ := calls_of_activation? h
  rw [activation?, calls_setActivity hc]

theorem Knows.take (h : w.Knows k) :
    Alike Exec.takePayload Exec.takePayload w fun _ v => v.Knows k := by
  obtain ⟨a, ha, rfl⟩ := h
  refine .step rfl ?_
  rw [ha]
  refine .step rfl ?_
  split <;> exact .pure ⟨_, activation?_setActivity ha _, rfl⟩

theorem Knows.caller (h : w.Knows k) (c : Ref .context) :
    Alike (Exec.callerException c) (Exec.callerException c) w fun found v =>
      found = k.getD (w.context c).currentException? ∧ v.Knows (some found) ∧
        v.links = w.links := by
  obtain ⟨a, ha, rfl⟩ := h
  refine .step rfl ?_
  rw [ha]
  dsimp only
  cases hk : a.arguments.caller with
  | some known => exact .pure ⟨rfl, ⟨a, ha, hk⟩, rfl⟩
  | none =>
    refine .step rfl (.step rfl (.pure ⟨rfl, ⟨_, activation?_setActivity ha _, rfl⟩, ?_⟩))
    exact links_setActivity _

theorem chainCaller_linked (he : (w.linksOf e).context = some other) (c : Ref .context) :
    (Exec.chainCaller c e).run w = some ((), w) := by simp [Exec.chainCaller, he]

theorem Knows.chain (h : w.Knows k) (c : Ref .context) {e : Exc}
    (he : (w.linksOf e).context = none) :
    Alike (Exec.chainCaller c e) (Exec.chainCaller c e) w fun _ v =>
      v.Knows (some (k.getD (w.context c).currentException?)) ∧
        (∀ r, v.links.Valid r ↔ w.links.Valid r) ∧
        (w.links.Valid e.ref →
          (v.linksOf e).context = e.linked (k.getD (w.context c).currentException?)) := by
  refine .step rfl ?_
  rw [he]
  refine .bind (h.caller c) ?_
  rintro _ v ⟨rfl, hv, hlinks⟩
  have hsame : v.linksOf e = w.linksOf e := by simp only [linksOf, hlinks]
  generalize k.getD (w.context c).currentException? = x at hv ⊢
  cases x with
  | none => exact .pure ⟨hv, fun _ => by rw [hlinks], fun _ => hsame ▸ he⟩
  | some handled =>
    refine .of_run rfl ⟨hv.of_calls rfl, fun r => ?_, fun hvalid => ?_⟩
    · exact (Store.valid_modify ..).trans (by rw [hlinks])
    · have hself : (v.modifyLinks e (.chain e handled)).linksOf e = (v.linksOf e).chain e handled :=
        Store.get_modify_self _ _ (by rwa [hlinks])
      rw [hself]
      exact Links.context_chain (hsame ▸ he) e handled

-- ---------------------------------------------------------------------------
-- What is handled
-- ---------------------------------------------------------------------------

/-- Each context handles what the body does, before what it handled in `w`. -/
structure Handles (hs : Handlers) (w v : World σ) : Prop where
  valid : ∀ c, w.contexts.Valid c → v.contexts.Valid c
  handled : ∀ c, w.contexts.Valid c → (v.context c).handled = hs c ++ (w.context c).handled

namespace Handles

theorem restored {own : Bool} (h : w.Handles hs v) (hv : v.Restored own u) : w.Handles hs u where
  valid c hc := hv.valid c (h.valid c hc)
  handled c hc := (hv.handled c (h.valid c hc)).trans (h.handled c hc)

theorem handling (h : w.Handles hs v) (c : Ref .context) (e : Exc) :
    w.Handles (hs.handling c e) (v.modifyContext c (·.handling e)) where
  valid c' hc := valid_modifyContext.mpr (h.valid c' hc)
  handled c' hc := by
    rw [context_modifyContext (h.valid c' hc), Handlers.handling]
    split
    · exact congrArg (e :: ·) (h.handled c' hc)
    · exact h.handled c' hc

theorem handledOne {c : Ref .context} {e : Exc} (h : w.Handles (hs.handling c e) v) :
    w.Handles hs (v.modifyContext c (·.handledOne)) where
  valid c' hc := valid_modifyContext.mpr (h.valid c' hc)
  handled c' hc := by
    have hhandled := h.handled c' hc
    rw [Handlers.handling] at hhandled
    rw [context_modifyContext (h.valid c' hc)]
    split at hhandled
    · next hc =>
      rw [if_pos hc]
      exact congrArg List.tail hhandled
    · next hc => rwa [if_neg hc]

end Handles

-- ---------------------------------------------------------------------------
-- What programs see
-- ---------------------------------------------------------------------------

/-- What comes of a part of a body that handles `hs`, in a resumption that began in `w`: its looks
all get the same, which stays looked up; the first gets what is handled when it is made. -/
structure Learns (hs : Handlers) (k : Option (Option Exc)) (looks : List (Look σ))
    (w v : World σ) : Prop where
  clean : v.Clean
  handles : w.Handles hs v
  knows : v.Knows (Look.found k looks)
  gets : ∀ l ∈ looks, ∃ x, Look.found k looks = some x ∧ l.Gets x
  current : ∀ l ∈ looks, w.contexts.Valid l.context →
    l.current = (l.inner ++ (w.context l.context).handled).head?

namespace Learns

theorem silent (hclean : v.Clean) (hhandles : w.Handles hs v) (hknows : v.Knows k) :
    w.Learns hs k [] v := ⟨hclean, hhandles, hknows, by simp, by simp⟩

theorem look {q : Query} (hclean : u.Clean) (hv : w.Handles hs v) (hu : w.Handles hs u)
    (hknows : u.Knows (some (k.getD (v.context c).currentException?)))
    (hgets : Look.Gets (k.getD (v.context c).currentException?) ⟨c, hs c, q, v, u⟩) :
    w.Learns hs k [⟨c, hs c, q, v, u⟩] u where
  clean := hclean
  handles := hu
  knows := hknows
  gets := by
    rintro l (_ | ⟨_, ⟨⟩⟩)
    exact ⟨_, rfl, hgets⟩
  current := by
    rintro l (_ | ⟨_, ⟨⟩⟩) hc
    exact congrArg List.head? (hv.handled c hc)

theorem trans {looks later : List (Look σ)} (h : w.Learns hs' k looks v)
    (h' : w.Learns hs (Look.found k looks) later u) : w.Learns hs k (looks ++ later) u where
  clean := h'.clean
  handles := h'.handles
  knows := by
    rw [Look.found_append]
    exact h'.knows
  gets l hl := by
    rcases List.mem_append.mp hl with hl | hl
    · rw [Look.found_append_of_mem hl]
      exact h.gets l hl
    · rw [Look.found_append]
      exact h'.gets l hl
  current l hl := (List.mem_append.mp hl).elim (h.current l) (h'.current l)

theorem handledOne {c : Ref .context} {e : Exc} {looks : List (Look σ)}
    (h : w.Learns (hs.handling c e) k looks v) :
    w.Learns hs k looks (v.modifyContext c (·.handledOne)) :=
  { h with
    clean := h.clean
    handles := h.handles.handledOne
    knows := h.knows.of_calls rfl }

end Learns

end World

namespace Host

open World (Learns)

variable {w v : World σ} {k : Option (Option Exc)} {hs : Handlers}

theorem answer_learns (host : Host σ) (n : Nat) (c : Ref .context) (q : Request σ α)
    (hclean : v.Clean) (hv : w.Handles hs v) (hknows : v.Knows k) :
    Alike (host.answer n c q) (host.answer n c q) v fun b u =>
      w.Learns hs k (q.look? c (hs c) v b u).toList u := by
  have hrestored := answer_restores host n c q v hclean
  cases n with
  | zero => exact ⟨rfl, fun a u h => nomatch h⟩
  | succ n =>
    cases q with
    | take =>
      refine (hrestored.and hknows.take).mono ?_
      exact fun _ u ⟨hu, hk⟩ => .silent hu.clean (hv.restored hu) hk
    | caller =>
      refine (hrestored.and (hknows.caller c)).mono ?_
      rintro _ u ⟨hu, rfl, hk, -⟩
      exact .look hu.clean hv (hv.restored hu) hk rfl
    | chain e =>
      cases he : (v.linksOf e).context with
      | some other =>
        refine .of_run (World.chainCaller_linked he c) ?_
        rw [Request.look?, he]
        exact .silent hclean hv hknows
      | none =>
        refine (hrestored.and (hknows.chain c he)).mono ?_
        rintro _ u ⟨hu, hk, -, hlinked⟩
        rw [Request.look?, he]
        exact .look hu.clean hv (hv.restored hu) hk hlinked
    | _ => exact hrestored.mono fun _ u hu =>
        .silent hu.clean (hv.restored hu) (hknows.of_calls (hu.calls rfl))

theorem runLooking_learns (host : Host σ) (n : Nat) (c : Ref .context) (p : Prog σ α)
    (hclean : v.Clean) (hv : w.Handles hs v) (hknows : v.Knows k) :
    Alike (p.runLooking (host.answer n) hs c) (p.runLooking (host.answer n) hs c) v fun r u =>
      w.Learns hs k r.2 u := by
  induction p generalizing hs c k v with
  | done a => exact .pure (.silent hclean hv hknows)
  | ask q p ih =>
    refine .step rfl (.bind (answer_learns host n c q hclean hv hknows) fun b u hu => .step rfl ?_)
    refine .bind (ih b c hu.clean hu.handles hu.knows) fun r z hz => .pure ?_
    exact hu.trans hz
  | handling e inner p ihi ihp =>
    -- What the inner program looks up under its handler outlives the handler.
    refine .step rfl (.bind (ihi c hclean (hv.handling c e) (hknows.of_calls rfl)) ?_)
    rintro ⟨b, looks⟩ u hu
    have hout := hu.handledOne
    refine .step rfl (.bind (ihp b c hout.clean hout.handles hout.knows) fun r z hz => .pure ?_)
    exact hout.trans hz
  | within c' inner p ihi ihp =>
    refine .bind (ihi c' hclean hv hknows) ?_
    rintro ⟨b, looks⟩ u hu
    refine .bind (ihp b c hu.clean hu.handles hu.knows) fun r z hz => .pure ?_
    exact hu.trans hz

end Host

-- ---------------------------------------------------------------------------
-- Exceptions that escape
-- ---------------------------------------------------------------------------

namespace Engine

variable {u v : World σ} {r : Raise}

theorem escape_context (hv : v.links.Valid r.exc.ref) (c : Ref .context) (g : Ref .generator) :
    Alike (escape c g (some r.exc) (.raised r)) (escape c g (some r.exc) (.raised r)) v
      fun _ u => (u.linksOf r.exc).context = (v.linksOf r.exc).context := by
  let placed := v.placed r.exc (v.generator g).exitSnapshot
  have hplaced : (placed.linksOf r.exc).context = (v.linksOf r.exc).context :=
    .trans (congrArg Links.context (World.linksOf_placed hv _)) rfl
  have hvalid : placed.links.Valid r.exc.ref := (Store.valid_modify ..).mpr hv
  simp only [escape, r.exc.any_same, if_true]
  refine .step rfl (.step rfl (.ite ?_ (.pure hplaced)))
  -- What is raised in place of the end of an iteration is made now, so it is another exception.
  refine .step rfl (.step rfl (.step rfl (.pure ?_)))
  have hne : r.exc.ref ≠ placed.links.next := fun he => placed.links.not_valid_next (he ▸ hvalid)
  refine (congrArg Links.context ?_).trans hplaced
  exact (Store.get_modify_of_ne _ _ hne).trans (Store.get_add_of_valid _ _ hvalid)

theorem escape_linked (hknows : u.Knows k) (hvalid : u.links.Valid r.exc.ref) (c : Ref .context)
    (g : Ref .generator) (thrown : Option Exc) :
    Alike (escape c g thrown (.raised r)) (escape c g thrown (.raised r)) u fun _ v =>
      (v.linksOf r.exc).context = if thrown.any (·.same r.exc) then (u.linksOf r.exc).context
        else (u.linksOf r.exc).context.or
          (r.exc.linked (k.getD (u.context c).currentException?)) := by
  cases ht : thrown.any (·.same r.exc) with
  | true =>
    rw [escape_of_thrown ht]
    exact escape_context hvalid c g
  | false =>
    rw [escape_of_not_thrown ht]
    cases hcontext : (u.linksOf r.exc).context with
    | some other =>
      refine .step (World.chainCaller_linked hcontext c) ?_
      exact (escape_context hvalid c g).mono fun _ _ h => h.trans hcontext
    | none =>
      refine .bind (hknows.chain c hcontext) ?_
      rintro _ v ⟨-, hlinks, hlinked⟩
      refine (escape_context ((hlinks _).mpr hvalid) c g).mono fun _ _ h => ?_
      exact h.trans (hlinked hvalid)

end Engine

-- ---------------------------------------------------------------------------
-- Resumptions
-- ---------------------------------------------------------------------------

/-- What a body that made some looks sees when it stops in `u`. -/
def Look.seen (c : Ref .context) (u : World σ) : List (Look σ) → Option Exc
  | [] => (u.context c).currentException?
  | l :: _ => l.current

namespace World

variable {w u : World σ} {looks : List (Look σ)}

/-- In a run of a body from `w` to `u` all looks get the same, which is the first one that is
handled at the first look. What is handled at a look is what the body handles itself, before what
was handled when the resumption began. -/
structure Sees (c : Ref .context) (looks : List (Look σ)) (w u : World σ) : Prop where
  clean : u.Clean
  gets : ∀ l ∈ looks, l.Gets (Look.seen c u looks)
  current : ∀ l ∈ looks, w.contexts.Valid l.context →
    l.current = (l.inner ++ (w.context l.context).handled).head?
  handled : w.contexts.Valid c → (u.context c).handled = (w.context c).handled

/-- A body that first looks while it handles nothing itself sees the exception of its resumer. -/
theorem Sees.resumers (h : w.Sees c looks u) (hc : w.contexts.Valid c)
    (hfirst : ∀ l ∈ looks.head?, l.context = c ∧ l.inner = []) :
    Look.seen c u looks = (w.context c).currentException? := by
  cases looks with
  | nil => exact congrArg List.head? (h.handled hc)
  | cons l later =>
    obtain ⟨rfl, hinner⟩ := hfirst l rfl
    have hcurrent := h.current l (List.mem_cons_self ..) hc
    rwa [hinner] at hcurrent

theorem Learns.sees (h : w.Learns .none none looks u) (c : Ref .context) : w.Sees c looks u where
  clean := h.clean
  gets l hl := by
    obtain ⟨x, hx, hgets⟩ := h.gets l hl
    cases looks with
    | nil => cases hl
    | cons first later =>
      cases hx
      exact hgets
  current := h.current
  handled hc := h.handles.handled c hc

theorem Clean.begun (hw : w.Clean) (c : Ref .context) (g : Ref .generator) (p : Option Payload)
    (kind : ResumeKind) : (w.begun c g p kind).Clean := fun g' => by
  have hrunning : w.Restored false (w.modifyGenerator g ({ · with state := .running })) :=
    .modifyGenerator hw g fun _ => rfl
  refine .trans ?_ (hrunning.clean g')
  simp [World.begun, generator]

theorem Handles.begun (c : Ref .context) (g : Ref .generator) (p : Option Payload)
    (kind : ResumeKind) (w : World σ) : w.Handles .none (w.begun c g p kind) where
  valid := (Steady.begun c g p kind w).valid
  handled c' hc := congrArg Meter.handled ((Steady.begun c g p kind w).meter c' hc)

theorem Clean.knows_begun (hw : w.Clean) (hc : w.calls = .level ⟨g, c, .between⟩ :: rest)
    (p : Option Payload) (kind : ResumeKind) : (w.begun c g p kind).Knows none :=
  ⟨_, activation?_begun hc, hw g⟩

end World

namespace Host

variable {w u : World σ}

theorem body_sees (host : Host σ) (n : Nat) (hw : w.Clean)
    (hc : w.calls = .level ⟨g, c, .between⟩ :: rest) (p : Option Payload) (kind : ResumeKind)
    (h : (host.run n c (host.body (w.generator g).target)).run (w.begun c g p kind) =
      some (r, u)) :
    ∃ looks, ((host.body (w.generator g).target).runLooking (host.answer n) .none c).run
        (w.begun c g p kind) = some ((r, looks), u) ∧
      w.Learns .none none looks u := by
  rw [run, ← Prog.fst_runLooking (host.answer n) .none, StateT.run_map] at h
  obtain ⟨⟨⟨_, looks⟩, _⟩, hrun, hr⟩ := Option.map_eq_some_iff.mp h
  cases hr
  exact ⟨looks, hrun, (runLooking_learns host n c _ (hw.begun c g p kind) (.begun c g p kind w)
    (hw.knows_begun hc p kind)).2 _ _ hrun⟩

end Host

/-- In any run, the exception that a body takes for the one its resumer is handling is the same
until it stops, and is lost then. It is the innermost one that is handled where the body first
looks: by the body itself, or else by those that stood there when the resumption began. What the
body lets escape is linked to that one, unless it has a context, is the same, or was thrown in. -/
theorem resumer_looked_up_once (host : Host σ) :
    (∀ s : σ, (World.initial s).Clean) ∧
    (∀ w : World σ, w.Clean → host.Upholds Host.restored w) ∧
    ∀ (n : Nat) (c : Ref .context) (g : Ref .generator) (p : Option Payload) (kind : ResumeKind)
      (rest : List Call) (r : Except Failure BodyResult) (w u : World σ),
      w.Clean → w.calls = .level ⟨g, c, .between⟩ :: rest →
      (host.run n c (host.body (w.generator g).target)).run (w.begun c g p kind) = some (r, u) →
      ∃ looks, ((host.body (w.generator g).target).runLooking (host.answer n) .none c).run
          (w.begun c g p kind) = some ((r, looks), u) ∧
        w.Sees c looks u ∧
        (w.contexts.Valid c → (∀ l ∈ looks.head?, l.context = c ∧ l.inner = []) →
          Look.seen c u looks = (w.context c).currentException?) ∧
        ∀ x : Raise, r = .error (.raised x) → u.links.Valid x.exc.ref →
          ∃ e w', (Engine.runBody ⟨host, host.answer n⟩ c g p kind).run w =
              some (.failed (.raised ⟨e, x.hostTrace⟩), w') ∧
            (w'.linksOf x.exc).context =
              if (p.bind (·.thrown?)).any (·.same x.exc) then (u.linksOf x.exc).context
              else (u.linksOf x.exc).context.or (x.exc.linked (Look.seen c u looks)) := by
  refine ⟨.initial, fun w hw => host.upholds_restored hw, ?_⟩
  intro n c g p kind rest r w u hw hc h
  obtain ⟨looks, hrun, hlearns⟩ := host.body_sees n hw hc p kind h
  have hsees := hlearns.sees c
  refine ⟨looks, hrun, hsees, hsees.resumers, ?_⟩
  rintro x rfl hvalid
  obtain ⟨e, w', hbody, -⟩ := Engine.runBody_raises (e := ⟨host, host.answer n⟩) h hvalid
  refine ⟨e, w', hbody, ?_⟩
  rw [Engine.runBody_failed (e := ⟨host, host.answer n⟩) h] at hbody
  obtain ⟨⟨f, v⟩, hescape, hv⟩ := Option.bind_eq_some_iff.mp hbody
  cases hv
  have hknows : (u.failing g (.raised x)).Knows (Look.found none looks) :=
    hlearns.knows.of_calls rfl
  have hlinked := (Engine.escape_linked hknows hvalid c g (p.bind (·.thrown?))).2 _ _ hescape
  rw [World.linksOf, World.links_leftFailing]
  refine hlinked.trans ?_
  cases looks <;> rfl

/-- Its body asks while it handles an exception of its own, and once more afterwards. -/
def inquirer : Host Unit where
  body _ := .ask (.create (.exc .valueError none [])) fun e =>
    .handling e (.ask .caller .done) fun _ => .ask .caller fun _ => .done (.ok (.returns .none))
  hash _ _ := .done (.ok 0)
  compare _ _ _ := .done (.ok false)
  construct _ _ _ := .done (.ok .none)

def inquired : World Unit :=
  World.inward ⟨0⟩ ⟨0⟩ { (World.initial ()).generating default [] with
    contexts := Store.empty.add default }

theorem inquirer_sees_own_exception :
    inquired.Clean ∧ inquired.calls = [.level ⟨⟨0⟩, ⟨0⟩, .between⟩] ∧
    (inquired.context ⟨0⟩).currentException? = none ∧
    ∃ looks u, inquired.Sees ⟨0⟩ looks u ∧
      looks.map (fun l => (l.inner.length, l.current.isSome)) = [(1, true), (0, false)] ∧
      (Look.seen ⟨0⟩ u looks).isSome := by
  have hmade : (World.initial ()).Restored false _ := .generating (.initial ()) default []
  have hclean : inquired.Clean := hmade.clean
  have hlooks : (((inquirer.body default).runLooking (inquirer.answer 1) .none ⟨0⟩).run
      (inquired.begun ⟨0⟩ ⟨0⟩ none .next)).map (fun x => x.1.2.map fun l =>
        (l.inner.length, l.current.isSome)) = some [(1, true), (0, false)] := by decide +kernel
  refine ⟨hclean, rfl, by decide +kernel, ?_⟩
  cases h : (inquirer.run 1 ⟨0⟩ (inquirer.body (inquired.generator ⟨0⟩).target)).run
      (inquired.begun ⟨0⟩ ⟨0⟩ none .next) with
  | none => exact absurd (congrArg Option.isSome h) (by decide +kernel)
  | some r =>
    obtain ⟨looks, hrun, hsees, -⟩ := (resumer_looked_up_once inquirer).2.2 1 ⟨0⟩ ⟨0⟩ none .next []
      r.1 inquired r.2 hclean rfl h
    have hmap : looks.map (fun l => (l.inner.length, l.current.isSome)) = [(1, true), (0, false)] :=
      Option.some.inj ((congrArg (Option.map _) hrun).symm.trans hlooks)
    refine ⟨looks, r.2, hsees, hmap, ?_⟩
    cases looks with
    | nil => cases hmap
    | cons l later => exact congrArg Prod.snd (List.cons.inj hmap).1

end Resumable
