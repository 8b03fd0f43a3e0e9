import Resumable.Proofs.Generator.Callers
import Resumable.Proofs.Generator.Refusals

/-!
# Two ways to throw

An exception that has been made is thrown as a value or injected as it is. Both do the same, but
for one thing: what is thrown as a value first loses the link to the exception it was raised in
place of. Where no body is entered this link is all that differs in the end.
-/

namespace Resumable

variable {σ : Type}

-- ---------------------------------------------------------------------------
-- Links that are cut
-- ---------------------------------------------------------------------------

namespace Store

variable {kind : ObjectKind} {α : Type}

theorem modify_add (s : Store kind α) (r : Ref kind) {f : α → α} {a : α} (h : f a = a) :
    (s.add a).modify r f = (s.modify r f).add a := by
  simp only [add, modify, mk.injEq]
  refine Array.ext (by simp) fun i hi _ => ?_
  simp only [Array.getElem_modify, Array.getElem_push, Array.size_modify]
  split
  · split
    · rfl
    · exact h
  · rfl

end Store

namespace World

variable {w : World σ}

def unlinked (exc : Exc) (w : World σ) : World σ := w.modifyLinks exc ({ · with context := none })

theorem context_unlinked (h : w.links.Valid exc.ref) :
    ((w.unlinked exc).linksOf exc).context = none :=
  congrArg Links.context (Store.get_modify_self w.links _ h)

theorem unlinked_of_context_none (h : (w.linksOf exc).context = none) : w.unlinked exc = w := by
  have hlinks : w.links.modify exc.ref ({ · with context := none }) = w.links := by
    refine congrArg Store.mk (Array.ext (by simp) fun i hi hi' => ?_)
    simp only [Array.getElem_modify]
    split
    · rename_i heq
      subst heq
      have hget : w.linksOf exc = w.links.items[exc.ref.index] := by
        simp [linksOf, Store.get, Array.getD, hi']
      rw [← hget, ← h]
    · rfl
  rw [unlinked, modifyLinks, hlinks]

theorem placed_unlinked (exc : Exc) (place : Snapshot) (w : World σ) :
    (w.unlinked exc).placed exc place = (w.placed exc place).unlinked exc := by
  simp only [unlinked, placed, modifyLinks, Store.modify_modify]
  rfl

def throwing (g : Ref .generator) (exc : Exc) (w : World σ) : World σ :=
  if (w.generator g).state = .running then w else w.unlinked exc

/-- No body is entered: the generator is fresh or finished, or the limits refuse it. -/
inductive Barred (w : World σ) (c : Ref .context) (g : Ref .generator) : Prop
  | aside : (w.generator g).state = .created ∨ (w.generator g).state = .finished → Barred w c g
  | limited : (w.generator g).state = .suspended → (w.context c).enter.1 = .error cause →
      Barred w c g

theorem Barred.not_running (h : w.Barred c g) : (w.generator g).state ≠ .running := by
  rintro hr
  cases h with
  | aside h => rcases h with h | h <;> cases hr.symm.trans h
  | limited h => cases hr.symm.trans h

def finishedAside (c : Ref .context) (g : Ref .generator) (w : World σ) : World σ :=
  if (w.generator g).state = .finished then w
  else ((w.modifyGenerator g ({ · with state := .finished })).modifyContext c
    (·.emit (.finish (w.generator g).qualifiedName .closed))).record
      (.traced c g (.finish (w.generator g).qualifiedName .closed))

theorem finishedAside_unlinked (c : Ref .context) (g : Ref .generator) (exc : Exc) (w : World σ) :
    (w.unlinked exc).finishedAside c g = (w.finishedAside c g).unlinked exc := by
  unfold finishedAside
  split <;> rename_i h
  · exact (if_pos h).symm ▸ rfl
  · exact (if_neg h).symm ▸ rfl

@[simp] theorem links_finishedAside (c : Ref .context) (g : Ref .generator) (w : World σ) :
    (w.finishedAside c g).links = w.links := by
  unfold finishedAside
  split <;> rfl

end World

namespace Engine

variable {e : Engine σ} {w : World σ}

theorem throw_instance (c : Ref .context) (g : Ref .generator) (exc : Exc) (w : World σ) :
    (e.throw c g exc.value none none).run w =
      ((e.inject c g exc (w.context c).options.hostTraces).run (w.throwing g exc)).bind fun r =>
        (result r.1).run r.2 := by
  by_cases hs : (w.generator g).state = .running
  · have hinject : (e.inject c g exc (w.context c).options.hostTraces).run w =
        some (.failed (w.faulted .alreadyExecuting),
          { w with identities := w.identities + 1, links := w.links.add .none }) := by
      simp [inject, hs, failed, fault_run]
    simp [throw, thrown, World.throwing, hs, hinject, fault_run, result]
  · have hthrown : (e.thrown c g exc.value none none).run w = some (.ok exc, w.unlinked exc) := by
      simp [thrown, hs, givenTraceback, prepareException, Value.isExceptionClass, Exc.value,
        Value.asExc, World.unlinked]
    simp only [throw, StateT.run_bind, hthrown, World.throwing, hs, if_false]
    rfl

theorem throwAside_run (c : Ref .context) (g : Ref .generator) (exc : Exc) (hostTrace : Bool)
    (w : World σ) : (throwAside c g exc hostTrace).run w = some (.raised ⟨exc, hostTrace⟩,
      (w.finishedAside c g).placed exc ((w.finishedAside c g).generator g).entrySnapshot) := by
  unfold throwAside finishAside World.finishedAside
  by_cases h : (w.generator g).state = .finished
  · simp [h, Exec.pushTraceback_run]
  · simp [h, Exec.pushTraceback_run, Exec.emit]

theorem inject_aside (h : (w.generator g).state = .created ∨ (w.generator g).state = .finished)
    (c : Ref .context) (exc : Exc) (hostTrace : Bool) :
    (e.inject c g exc hostTrace).run w = some (.failed (.raised ⟨exc, hostTrace⟩),
      (w.finishedAside c g).placed exc ((w.finishedAside c g).generator g).entrySnapshot) := by
  rcases h with h | h <;> simp [inject, h, throwAside_run]

theorem inject_limited (hs : (w.generator g).state = .suspended)
    (he : (w.context c).enter.1 = .error cause) (exc : Exc) (hostTrace : Bool) :
    (e.inject c g exc hostTrace).run w = some (.failed (w.faulted (.limit cause)),
      { w.modifyContext c fun _ => (w.context c).enter.2 with
        identities := w.identities + 1, links := w.links.add .none }) := by
  rw [inject_suspended hs]
  simp [inward, Exec.enter, he, fault_run, World.faulted]
  exact ⟨rfl, rfl, rfl⟩

theorem inject_barred (h : w.Barred c g) (exc : Exc) (hostTrace : Bool) : ∃ f w',
    (e.inject c g exc hostTrace).run w = some (.failed f, w') ∧
    (e.inject c g exc hostTrace).run (w.unlinked exc) = some (.failed f, w'.unlinked exc) ∧
    (w.links.Valid exc.ref → w'.links.Valid exc.ref ∧
      (w'.linksOf exc).context = (w.linksOf exc).context) := by
  cases h with
  | aside h =>
    refine ⟨_, _, inject_aside h c exc hostTrace, ?_, fun hv => ⟨?_, ?_⟩⟩
    · rw [inject_aside (w := w.unlinked exc) h, World.finishedAside_unlinked,
        World.placed_unlinked]
      rfl
    · simpa [World.placed, World.modifyLinks] using hv
    · have hv' : (w.finishedAside c g).links.Valid exc.ref := by simpa using hv
      rw [World.linksOf_placed hv', World.linksOf, World.links_finishedAside]
      rfl
  | limited hs he =>
    refine ⟨_, _, inject_limited hs he exc hostTrace, ?_, fun hv => ⟨?_, ?_⟩⟩
    · rw [inject_limited (w := w.unlinked exc) hs he]
      simp only [World.unlinked, World.modifyLinks, World.faulted, Store.next_modify,
        Store.modify_add w.links exc.ref (f := ({ · with context := none })) (a := .none) rfl]
      rfl
    · simpa using .inl hv
    · exact congrArg Links.context (Store.get_add_of_valid w.links _ hv)

theorem runBody_returned (h : (e.perform c (e.host.body (w.generator g).target)).run
      (w.begun c g p k) = some (.ok (.returns v), x))
    (hx : x.activation?.any (·.hasPendingThrow) = false) : ∃ u,
    (e.runBody c g p k).run w = some (.returned v, u) ∧ u.links = x.links := by
  have hheeded : (heeded (.ok (.returns v))).run x = some (.ok (.returns v), x) := by
    simp [heeded, hx]
  rw [runBody_run, h, Option.bind_some, StateT.run_bind, hheeded]
  exact ⟨_, rfl, World.links_setActivity (w := x.record _) _⟩

end Engine

-- ---------------------------------------------------------------------------
-- Runs
-- ---------------------------------------------------------------------------

namespace Host

variable {w : World σ}

theorem run_throw_instance (host : Host σ) (n : Nat) (c : Ref .context) (g : Ref .generator)
    (exc : Exc) (w : World σ) :
    (host.run n c (Action.throwInto g exc.value none none).run).run w =
      (host.run n c (Action.throwException g exc).run).run (w.throwing g exc) := by
  cases n with
  | zero => rfl
  | succ n =>
    have hcontext : (w.throwing g exc).context c = w.context c := by
      unfold World.throwing
      split <;> rfl
    have hresult : ∀ o : Outcome, (Engine.result o : Exec σ _) =
        host.run (n + 1) c (Action.ofOutcome o).run := by
      rintro (_ | _ | _) <;> rfl
    rw [run_throwInto, Engine.throw_instance, run_eq_of_resumes (.throwException exc), hcontext]
    simp only [hresult]
    rfl

theorem run_inject_barred (host : Host σ) (n : Nat) (h : w.Barred c g) (exc : Exc) : ∃ f w',
    (host.run (n + 1) c (Action.throwException g exc).run).run w = some (.error f, w') ∧
    (host.run (n + 1) c (Action.throwException g exc).run).run (w.unlinked exc) =
      some (.error f, w'.unlinked exc) ∧
    (w.links.Valid exc.ref → w'.links.Valid exc.ref ∧
      (w'.linksOf exc).context = (w.linksOf exc).context) := by
  obtain ⟨f, w', hrun, hcut, hlink⟩ := Engine.inject_barred (e := ⟨host, host.answer n⟩) h exc
    (w.context c).options.hostTraces
  refine ⟨f, w', ?_, ?_, hlink⟩
  · rw [run_eq_of_resumes (.throwException exc)]
    exact congrArg (Option.bind · _) hrun
  · rw [run_eq_of_resumes (.throwException exc)]
    exact congrArg (Option.bind · _) hcut

/-- The host whose bodies take the exception that is thrown in and return whether it is linked to
another. -/
def telling (host : Host σ) (exc : Exc) : Host σ :=
  { host with
    body _ := .ask .take fun _ => .ask (.look fun w => (w.linksOf exc).context.isSome) fun linked =>
      .done (.ok (.returns (.bool linked))) }

theorem body_telling (host : Host σ) (n : Nat) (exc : Exc) (t : Target)
    (ha : w.activation? = some a) (hp : a.arguments.payload = some (.throw exc' hostTrace)) : ∃ x,
    ((host.telling exc).run (n + 1) c ((host.telling exc).body t)).run w =
      some (.ok (.returns (.bool (w.linksOf exc).context.isSome)), x) ∧
    x.links = w.links ∧ x.activation?.any (·.hasPendingThrow) = false := by
  let b : Activation := { a with arguments := { a.arguments with payload := none } }
  have htake : ((host.telling exc).answer (n + 1) c .take).run w =
      some (.error (.raised ⟨exc', hostTrace⟩), w.setActivity (.running b)) := by
    change Exec.takePayload.run w = _
    simp [Exec.takePayload, ha, hp, b]
  have hlinks : (w.setActivity (.running b)).links = w.links := World.links_setActivity _
  refine ⟨w.setActivity (.running b), ?_, hlinks, ?_⟩
  · change Option.bind (((host.telling exc).answer (n + 1) c .take).run w) _ = _
    rw [htake, World.linksOf, ← hlinks]
    rfl
  · rw [World.activation?_setActivity ha]
    rfl

theorem run_telling (host : Host σ) (n : Nat) (hs : (w.generator g).state = .suspended)
    (hd : (w.generator g).delegate = none) (hk : (w.context c).Admits 1) (exc : Exc) :
    ∃ w', ((host.telling exc).run (n + 2) c (Action.throwException g exc).run).run w =
      some (.error (.ofExc (.stop w.links.next (.bool (w.linksOf exc).context.isSome))), w') := by
  let e : Engine σ := ⟨host.telling exc, (host.telling exc).answer (n + 1)⟩
  let p : Payload := .throw exc (w.context c).options.hostTraces
  let start := (w.inward c g).begun c g (some p) .throw
  have hlinks : start.links = w.links := World.links_begun
  obtain ⟨x, hbody, hxlinks, hx⟩ := host.body_telling (c := c) n exc
    ((w.inward c g).generator g).target (World.activation?_begun (w := w.inward c g) rfl) rfl
  obtain ⟨u, hu, hulinks⟩ :=
    Engine.runBody_returned (e := e) (p := some p) (k := .throw) hbody hx
  have hanswer : ((host.telling exc).answer (n + 2) c (.resume g (some p))).run w =
      some (.returned (.bool (start.linksOf exc).context.isSome), u.outward c) := by
    change (e.resume c g (some p)).run w = _
    rw [Engine.resume_undelegated hs hd, Engine.inward_run hk]
    exact congrArg (Option.bind · _) hu
  have hnext : (u.outward c).links.next = w.links.next :=
    congrArg Store.next (hulinks.trans (hxlinks.trans hlinks))
  have hlink : start.linksOf exc = w.linksOf exc := congrArg (Store.get · exc.ref) hlinks
  rw [run_eq_of_resumes (.throwException exc), hanswer, ← hnext, ← hlink]
  exact ⟨_, rfl⟩

end Host

/-- Throwing an exception as a value and injecting it as it is come to the same, from any world, if
the exception is linked to no other, or the generator runs. What is linked loses the link first if
it is thrown as a value, and that is the only difference there is. It shows in the exception
wherever no body is entered, and to any body that looks. -/
theorem injections_agree_but_for_link (host : Host σ) :
    (∀ (n : Nat) (c : Ref .context) (g : Ref .generator) (exc : Exc) (w : World σ),
      (host.run n c (Action.throwInto g exc.value none none).run).run w =
        (host.run n c (Action.throwException g exc).run).run (w.throwing g exc)) ∧
    (∀ (n : Nat) (c : Ref .context) (g : Ref .generator) (exc : Exc) (w : World σ),
      (w.generator g).state = .running ∨ (w.linksOf exc).context = none →
      (host.run n c (Action.throwInto g exc.value none none).run).run w =
        (host.run n c (Action.throwException g exc).run).run w) ∧
    (∀ (n : Nat) (c : Ref .context) (g : Ref .generator) (exc : Exc) (w : World σ),
      w.Barred c g → w.links.Valid exc.ref → ∃ f w',
      (host.run (n + 1) c (Action.throwException g exc).run).run w = some (.error f, w') ∧
      (host.run (n + 1) c (Action.throwInto g exc.value none none).run).run w =
        some (.error f, w'.unlinked exc) ∧
      (w'.linksOf exc).context = (w.linksOf exc).context ∧
      ((w'.unlinked exc).linksOf exc).context = none) ∧
    ∀ (n : Nat) (c : Ref .context) (g : Ref .generator) (exc : Exc) (w : World σ),
      (w.generator g).state = .suspended → (w.generator g).delegate = none →
      (w.context c).Admits 1 → w.links.Valid exc.ref → ∃ w' w'',
      ((host.telling exc).run (n + 2) c (Action.throwException g exc).run).run w = some
        (.error (.ofExc (.stop w.links.next (.bool (w.linksOf exc).context.isSome))), w') ∧
      ((host.telling exc).run (n + 2) c (Action.throwInto g exc.value none none).run).run w = some
        (.error (.ofExc (.stop w.links.next (.bool false))), w'') := by
  refine ⟨host.run_throw_instance, ?_, ?_, ?_⟩
  · intro n c g exc w h
    rw [host.run_throw_instance, World.throwing]
    rcases h with h | h
    · rw [if_pos h]
    · rw [World.unlinked_of_context_none h, ite_self]
  · intro n c g exc w hb hv
    obtain ⟨f, w', hrun, hcut, hlink⟩ := host.run_inject_barred n hb exc
    obtain ⟨hv', hcontext⟩ := hlink hv
    refine ⟨f, w', hrun, ?_, hcontext, World.context_unlinked hv'⟩
    rw [host.run_throw_instance, World.throwing, if_neg hb.not_running, hcut]
  · intro n c g exc w hs hd hk hv
    obtain ⟨w', hrun⟩ := host.run_telling n hs hd hk exc
    obtain ⟨w'', hcut⟩ := host.run_telling (w := w.unlinked exc) n hs hd hk exc
    refine ⟨w', w'', hrun, ?_⟩
    have hnot : (w.generator g).state ≠ .running := by
      rw [hs]
      nofun
    rw [Host.run_throw_instance, World.throwing, if_neg hnot, hcut, World.context_unlinked hv]
    simp [World.unlinked, World.modifyLinks]

def chainedExc : Exc := ⟨⟨0⟩, .keyError, none, []⟩

def chained : World Unit :=
  { (World.initial ()).generating default [] with
    links := (Store.empty.add ⟨none, some ⟨⟨1⟩, .valueError, none, []⟩, none⟩).add .none }

/-- A fresh generator lets the exception go with its link, or without it. A relay that has started
takes an exception that is linked to none in both ways alike, and bodies that look tell one that is
linked. -/
theorem chained_thrown :
    (∃ f w', (relay.run 1 ⟨0⟩ (Action.throwException ⟨0⟩ chainedExc).run).run chained =
        some (.error f, w') ∧
      (relay.run 1 ⟨0⟩ (Action.throwInto ⟨0⟩ chainedExc.value none none).run).run chained =
        some (.error f, w'.unlinked chainedExc) ∧
      (w'.linksOf chainedExc).context = some ⟨⟨1⟩, .valueError, none, []⟩ ∧
      ((w'.unlinked chainedExc).linksOf chainedExc).context = none) ∧
    (relay.run 8 ⟨0⟩ (Action.throwInto ⟨2⟩ startedRelay.1.value none none).run).run
        startedRelay.2 =
      (relay.run 8 ⟨0⟩ (Action.throwException ⟨2⟩ startedRelay.1).run).run startedRelay.2 ∧
    let linked := startedRelay.2.modifyLinks startedRelay.1 ({ · with context := some chainedExc })
    ∃ w' w'' ref, ((relay.telling startedRelay.1).run 2 ⟨0⟩
        (Action.throwException ⟨2⟩ startedRelay.1).run).run linked =
        some (.error (.ofExc (.stop ref (.bool true))), w') ∧
      ((relay.telling startedRelay.1).run 2 ⟨0⟩
        (Action.throwInto ⟨2⟩ startedRelay.1.value none none).run).run linked =
        some (.error (.ofExc (.stop ref (.bool false))), w'') := by
  obtain ⟨-, halike, hbarred, htold⟩ := injections_agree_but_for_link relay
  have hrelay := relay_started
  refine ⟨?_, halike 8 ⟨0⟩ ⟨2⟩ _ _ (.inr (by decide +kernel)), ?_⟩
  · exact hbarred 0 ⟨0⟩ ⟨0⟩ chainedExc chained (.aside (.inl rfl)) (by decide)
  · intro linked
    obtain ⟨w', w'', hrun, hcut⟩ := htold 0 ⟨0⟩ ⟨2⟩ startedRelay.1 linked hrelay.suspended
      hrelay.last hrelay.admits.pred.pred (by decide +kernel)
    have hlinked : (linked.linksOf startedRelay.1).context.isSome = true := by decide +kernel
    rw [hlinked] at hrun
    exact ⟨w', w'', _, hrun, hcut⟩

end Resumable
