import Resumable.Proofs.Generator.Chains
import Resumable.Proofs.Generator.StopIteration

/-!
# Finished generators

A generator that is finished stays as it is, whatever runs afterwards. Operations on it report that
at once and do nothing besides, except that a class that is thrown is called first.
-/

namespace Resumable

open Exec (Alike)

variable {σ : Type}

-- ---------------------------------------------------------------------------
-- For good
-- ---------------------------------------------------------------------------

theorem latest_append_of_none {f : Happening → Option β} {later : List Happening}
    (h : ∀ x ∈ later, x.generator = g → f x = none) :
    latest f g (later ++ earlier) = latest f g earlier := by
  induction later with
  | nil => rfl
  | cons x xs ih =>
    have hxs := ih fun y hy => h y (List.mem_cons_of_mem _ hy)
    by_cases hg : x.generator = g
    · have hx := h x (List.mem_cons_self ..) hg
      subst hg
      rw [List.cons_append, latest_cons_self, hx, hxs, Option.none_or]
    · rw [List.cons_append, latest_cons_of_ne hg, hxs]

theorem Course.ofHistory_of_finished {later : List Happening} (h : Lawful (later ++ hist))
    (hf : standing g hist = .finished) : ofHistory g (later ++ hist) = ofHistory g hist := by
  have hafter := h.after_finished hf
  simp only [ofHistory, (h.of_finished hf).1, hf]
  rw [latest_append_of_none, latest_append_of_none]
  all_goals
    intro x hx hg
    obtain ⟨c, name, reason, rfl⟩ := hafter x hx hg
    rfl

namespace World

variable {w w' u v : World σ}

/-- Since any generator was finished its body has not been entered, and it is what it was then. -/
def Lasting (w : World σ) : Prop :=
  ∀ g before later, w.history = later ++ before → standing g before = .finished →
    (w.generator g).course = .ofHistory g before ∧ ∀ p, .entered g p ∉ later

theorem Settled.lasting (hw : w.Settled) : w.Lasting := by
  intro g before later hl hf
  have hlawful := hl ▸ hw.lawful
  refine ⟨?_, (hlawful.of_finished hf).2⟩
  rw [hw.course, hl, Course.ofHistory_of_finished hlawful hf]

/-- A finished generator has been left alone. -/
structure Rests (g : Ref .generator) (w w' : World σ) : Prop where
  course : (w'.generator g).course = (w.generator g).course
  delegate : (w'.generator g).delegate = none
  follows : ∃ later, w'.history = later ++ w.history ∧ ∀ p, .entered g p ∉ later

theorem Kept.rests (h : w.Kept w') (hw : w.Settled) (hv : w.generators.Valid g)
    (hs : (w.generator g).state = .finished) : w.Rests g w' := by
  have hf := hw.standing_of_finished hv hs
  obtain ⟨later, hl, -⟩ := h.follows
  obtain ⟨hcourse, hentered⟩ := h.settled.lasting g w.history later hl hf
  refine ⟨hcourse.trans (hw.course g).symm, ?_, later, hl, hentered⟩
  have hlawful : Lawful (later ++ w.history) := hl ▸ h.settled.lawful
  rw [h.settled.delegate_eq, hl, (hlawful.of_finished hf).1]
  rfl

theorem Rests.finished (h : w.Rests g w') (hs : (w.generator g).state = .finished) :
    (w'.generator g).state = .finished := (congrArg Course.state h.course).trans hs

-- ---------------------------------------------------------------------------
-- What operations change
-- ---------------------------------------------------------------------------

def OnlyLinks (w w' : World σ) : Prop := ∃ identities links, w' = { w with identities, links }

theorem OnlyLinks.refl (w : World σ) : w.OnlyLinks w := ⟨_, _, rfl⟩

theorem OnlyLinks.trans (h : w.OnlyLinks v) (h' : v.OnlyLinks w') : w.OnlyLinks w' := by
  obtain ⟨_, _, rfl⟩ := h
  obtain ⟨_, _, rfl⟩ := h'
  exact ⟨_, _, rfl⟩

structure Places (e : Exc) (place : Snapshot) (w w' : World σ) : Prop where
  onlyLinks : w.OnlyLinks w'
  links : w.links.Valid e.ref → ∃ entry : TracebackEntry, entry.snapshot = place ∧
    w'.linksOf e = (w.linksOf e).pushTraceback entry
  others : ∀ e' : Exc, e'.ref ≠ e.ref → w'.linksOf e' = w.linksOf e'

theorem places (e : Exc) (place : Snapshot) (w : World σ) : w.Places e place (w.placed e place) where
  onlyLinks := ⟨_, _, rfl⟩
  links hv := ⟨_, rfl, linksOf_placed hv place⟩
  others _ he := Store.get_modify_of_ne _ _ he

end World

namespace Engine

variable {e : Engine σ} {w u v w' : World σ}

-- ---------------------------------------------------------------------------
-- Operations on finished generators
-- ---------------------------------------------------------------------------

section

variable (hs : (w.generator g).state = .finished)
include hs

theorem resume_finished {p : Option Payload} (hp : p.bind (·.thrown?) = none) (c : Ref .context) :
    (e.resume c g p).run w = some (.failed (.ofExc (.stop w.links.next .none)),
      { w with links := w.links.add .none }) := by
  have hstop : (Exec.stopIteration (σ := σ) .none).run w =
      some (.stop w.links.next .none, { w with links := w.links.add .none }) := rfl
  rcases p with _ | v | _
  · simp [resume, advance, hs, hstop]
  · simp [resume, advance, hs, hstop]
  · cases hp

theorem inject_finished (c : Ref .context) (exc : Exc) (hostTrace : Bool) :
    (e.inject c g exc hostTrace).run w = some (.failed (.raised ⟨exc, hostTrace⟩),
      w.placed exc (w.generator g).entrySnapshot) := by
  simp [inject, hs, throwAside, finishAside, Exec.pushTraceback_run]

theorem close_finished (c : Ref .context) : (e.close c g).run w = some (.ok (), w) := by
  simp [close, hs]

end

theorem throw_of_thrown (h : (e.thrown c g type value traceback).run w = some (.ok exc, v))
    (hs : (v.generator g).state = .finished) :
    (e.throw c g type value traceback).run w =
      some (.error (.raised ⟨exc, (v.context c).options.hostTraces⟩),
        v.placed exc (v.generator g).entrySnapshot) := by
  simp [throw, h, inject_finished hs, result]

theorem throw_of_not_thrown (h : (e.thrown c g type value traceback).run w = some (.error f, v)) :
    (e.throw c g type value traceback).run w = some (.error f, v) := by
  simp [throw, h]

-- ---------------------------------------------------------------------------
-- What is thrown
-- ---------------------------------------------------------------------------

def Links (x : Exec σ α) : Prop := ∀ w, Alike x x w fun _ w' => w.OnlyLinks w'

namespace Links

theorem pure (a : α) : Links (Pure.pure a : Exec σ α) := fun w => .pure (.refl w)

theorem of_get : Links (get : Exec σ (World σ)) := fun w => .of_run rfl (.refl w)

theorem bind {x : Exec σ α} {f : α → Exec σ β} (hx : Links x) (hf : ∀ a, Links (f a)) :
    Links (x >>= f) := fun w =>
  .bind (hx w) fun a v h => (hf a v).mono fun _ _ h' => h.trans h'

theorem ite {c : Prop} [Decidable c] {x y : Exec σ α} (hx : Links x) (hy : Links y) :
    Links (if c then x else y) := fun w => .ite (hx w) (hy w)

theorem newText (text : String) : Links (Exec.newText text : Exec σ TextRef) :=
  fun _ => .of_run rfl ⟨_, _, rfl⟩

theorem newExc (type : ExcType) (class? : Option Class) (args : List Value) :
    Links (Exec.newExc type class? args : Exec σ Exc) := fun _ => .of_run rfl ⟨_, _, rfl⟩

theorem fault (f : Fault) : Links (Exec.fault f : Exec σ Failure) :=
  bind (newText _) fun _ => bind (newExc _ _ _) fun _ => pure _

theorem modifyLinks (e : Exc) (f : World σ → Resumable.Links → Resumable.Links) :
    Links (modify fun w => w.modifyLinks e (f w) : Exec σ Unit) := fun _ => .of_run rfl ⟨_, _, rfl⟩

end Links

/-- A class may have been called, and exceptions made and linked. -/
def Prepares (e : Engine σ) (c : Ref .context) (type : Value) (w v : World σ) : Prop :=
  ∃ u, (u = w ∨ type.isExceptionClass = true ∧ ∃ args r, (e.call c type args).run w = some (r, u)) ∧
    u.OnlyLinks v

theorem Prepares.trans (h : e.Prepares c type w v) (h' : v.OnlyLinks w') :
    e.Prepares c type w w' := by
  obtain ⟨u, hu, hv⟩ := h
  exact ⟨u, hu, hv.trans h'⟩

theorem Links.prepares {x : Exec σ α} (h : Links x) (w : World σ) :
    Alike x x w fun _ v => e.Prepares c type w v :=
  (h w).mono fun _ _ h => ⟨w, .inl rfl, h⟩

theorem madeException_links (cls made : Value) : Links (madeException cls made : Exec σ Exc) := by
  unfold madeException
  split
  · exact .pure _
  · exact .bind .of_get fun _ => .bind (.newText _) fun _ => .newExc _ _ _

theorem prepareException_prepares (c : Ref .context) (type : Value) (value : Option Value)
    (w : World σ) :
    Alike (e.prepareException c type value) (e.prepareException c type value) w
      fun _ v => e.Prepares c type w v := by
  have hfault : ∀ f, Links (do return .error (← Exec.fault f) : Exec σ (Except Failure Exc)) :=
    fun f => .bind (.fault f) fun _ => .pure _
  unfold prepareException
  dsimp only
  split
  · next hclass =>
    split
    · exact (Links.pure _).prepares w
    · refine .bind .ran fun r u hu => ?_
      have hcall : e.Prepares c type w u := ⟨u, .inr ⟨hclass, _, r, hu⟩, .refl u⟩
      cases r with
      | error f => exact .pure hcall
      | ok made =>
        exact (Links.bind (madeException_links type made) (fun _ => .pure _) u).mono
          fun _ _ h => hcall.trans h
  · split
    · exact (hfault _).prepares w
    · exact (Links.pure _).prepares w
    · exact (hfault _).prepares w

theorem givenTraceback_links (t : Option Value) :
    Alike (givenTraceback t : Exec σ (Except Failure (Option Traceback))) (givenTraceback t) w
      fun r v => match r with
        | .ok _ => v = w
        | .error _ => w.OnlyLinks v := by
  unfold givenTraceback
  split
  · exact .pure rfl
  · exact .pure rfl
  · exact .pure rfl
  · exact .bind (Links.fault _ w) fun _ _ h => .pure h

theorem thrown_prepares (c : Ref .context) (g : Ref .generator) (type : Value)
    (value traceback : Option Value) (w : World σ) :
    Alike (e.thrown c g type value traceback) (e.thrown c g type value traceback) w
      fun _ v => e.Prepares c type w v := by
  refine .step (x := get) (a := w) rfl (.ite ?_ ?_)
  · exact (Links.bind (.fault _) fun _ => .pure _).prepares w
  · refine .bind (givenTraceback_links traceback) fun t v hv => ?_
    cases t with
    | error f => exact .pure ⟨w, .inl rfl, hv⟩
    | ok t =>
      obtain rfl : v = w := hv
      refine .bind (prepareException_prepares c type value v) fun r u hu => ?_
      cases r with
      | error f => exact .pure hu
      | ok exc =>
        have hend : Links (do
            modify fun w => w.modifyLinks exc ({ · with context := none })
            return Except.ok exc : Exec σ (Except Failure Exc)) :=
          .bind (.modifyLinks exc _) fun _ => .pure _
        refine (Links.ite ?_ hend u).mono fun _ _ h => hu.trans h
        exact .bind (.modifyLinks exc _) fun _ => hend

inductive Gives (exc : Exc) : Value → Option Value → Prop
  | itself : value.filter (!·.isNone) = none → Gives exc exc.value value
  | value : type.isExceptionClass = true → exc.isInstanceOf type = true →
      Gives exc type (some exc.value)

inductive GivesTraceback : Option Value → Option Traceback → Prop
  | nothing : GivesTraceback none none
  | none : GivesTraceback (some .none) none
  | given (t : Traceback) : GivesTraceback (some (.traceback t)) (some t)

/-- An exception that is given is thrown, with the traceback that is given or its own. -/
theorem thrown_given (hs : (w.generator g).state ≠ .running) (hexc : Gives exc type value)
    (ht : GivesTraceback traceback t?) (c : Ref .context) :
    ∃ v, (e.thrown c g type value traceback).run w = some (.ok exc, v) ∧ w.OnlyLinks v ∧
      (∀ r, w.links.Valid r → v.links.Valid r) ∧
      (w.links.Valid exc.ref → v.linksOf exc =
        ⟨t?.or (w.linksOf exc).traceback, none, (w.linksOf exc).cause⟩) := by
  have hprepare : (e.prepareException c type value).run w = some (.ok exc, w) := by
    cases hexc with
    | itself hvalue => simp [prepareException, hvalue, Value.isExceptionClass, Exc.value, Value.asExc]
    | value hclass hinstance =>
      simp [prepareException, hclass, hinstance, Exc.value, Value.asExc, Option.filter, Value.isNone]
  have hback : (givenTraceback traceback).run w = some (.ok t?, w) := by cases ht <;> rfl
  let v := if t?.isSome then w.modifyLinks exc ({ · with traceback := t? }) else w
  have hrun : (e.thrown c g type value traceback).run w =
      some (.ok exc, v.modifyLinks exc ({ · with context := none })) := by
    cases t? <;> simp [thrown, hs, hback, hprepare, v]
  have hv : w.OnlyLinks v ∧ (∀ r, w.links.Valid r → v.links.Valid r) ∧
      (w.links.Valid exc.ref → v.linksOf exc =
        { w.linksOf exc with traceback := t?.or (w.linksOf exc).traceback }) := by
    cases t? with
    | none => exact ⟨.refl w, fun _ h => h, fun _ => rfl⟩
    | some t =>
      exact ⟨⟨_, _, rfl⟩, fun _ h => (Store.valid_modify ..).mpr h, fun h =>
        Store.get_modify_self _ _ h⟩
  refine ⟨_, hrun, hv.1.trans ⟨_, _, rfl⟩, fun r h => (Store.valid_modify ..).mpr (hv.2.1 r h),
    fun h => ?_⟩
  refine (Store.get_modify_self _ _ (hv.2.1 _ h)).trans ?_
  exact congrArg (fun l : Resumable.Links => { l with context := none }) (hv.2.2 h)

end Engine

-- ---------------------------------------------------------------------------
-- Runs
-- ---------------------------------------------------------------------------

namespace Host

def absorbing : Rule σ := fun _ _ _ _ w _ w' =>
  w.Lasting ∧ w'.Lasting ∧
    ∀ g, w.generators.Valid g → (w.generator g).state = .finished → w.Rests g w'

/-- What operations on a finished generator come to. -/
structure Inert (host : Host σ) (n : Nat) (c : Ref .context) (g : Ref .generator)
    (w : World σ) : Prop where
  resume : ∀ p : Option Payload, p.bind (·.thrown?) = none →
    (host.answer (n + 1) c (.resume g p)).run w =
      some (.failed (.raised ⟨⟨w.links.next, .stopIteration, none, []⟩, false⟩),
        { w with links := w.links.add .none })
  next : ∀ (op : Action σ Value) (p : Option Payload), op.Resumes g (w.context c) p →
    p.bind (·.thrown?) = none → (host.run (n + 1) c op.run).run w =
      some (.error (.raised ⟨⟨w.links.next, .stopIteration, none, []⟩, false⟩),
        { w with links := w.links.add .none })
  close : (host.run (n + 1) c (Action.close g).run).run w = some (.ok (), w)
  throwException : ∀ exc, ∃ w', (host.run (n + 1) c (Action.throwException g exc).run).run w =
      some (.error (.raised ⟨exc, (w.context c).options.hostTraces⟩), w') ∧
    w.Places exc (w.generator g).entrySnapshot w'
  /-- An exception that is given has the traceback that is given, or its own, and one entry more. -/
  throwInto : ∀ exc type value traceback t?, Engine.Gives exc type value →
    Engine.GivesTraceback traceback t? →
    ∃ w', (host.run (n + 1) c (Action.throwInto g type value traceback).run).run w =
        some (.error (.raised ⟨exc, (w.context c).options.hostTraces⟩), w') ∧ w.OnlyLinks w' ∧
      (w.links.Valid exc.ref → ∃ entry : TracebackEntry,
        entry.snapshot = (w.generator g).entrySnapshot ∧
        w'.linksOf exc = ⟨some (.push entry (t?.or (w.linksOf exc).traceback)), none,
          (w.linksOf exc).cause⟩)

def ThrowsMade (host : Host σ) (n : Nat) (c : Ref .context) (g : Ref .generator) (type : Value)
    (value traceback : Option Value) (w v : World σ) : Except Failure Exc → Prop
  | .error f => (host.run (n + 1) c (Action.throwInto g type value traceback).run).run w =
      some (.error f, v)
  | .ok exc => ∃ w', (host.run (n + 1) c (Action.throwInto g type value traceback).run).run w =
      some (.error (.raised ⟨exc, (v.context c).options.hostTraces⟩), w') ∧
    v.Places exc (v.generator g).entrySnapshot w'

variable {host : Host σ} {w v : World σ}

theorem run_close (host : Host σ) (n : Nat) (c : Ref .context) (g : Ref .generator) :
    host.run (n + 1) c (Action.close g).run = Engine.close ⟨host, host.answer n⟩ c g :=
  Prog.run_request ..

theorem inert_of_finished (hs : (w.generator g).state = .finished) (n : Nat) (c : Ref .context) :
    host.Inert n c g w where
  resume p hp := Engine.resume_finished (e := ⟨host, host.answer n⟩) hs hp c
  next op p hop hp := by
    have h : (host.answer (n + 1) c (.resume g p)).run w = _ :=
      Engine.resume_finished (e := ⟨host, host.answer n⟩) hs hp c
    rw [run_eq_of_resumes hop, h]
    rfl
  close := by
    rw [run_close]
    exact Engine.close_finished hs c
  throwException exc := by
    have h : (host.answer (n + 1) c (.resume g (some (.throw exc
        (w.context c).options.hostTraces)))).run w = _ :=
      Engine.inject_finished (e := ⟨host, host.answer n⟩) hs c exc (w.context c).options.hostTraces
    refine ⟨_, ?_, w.places exc _⟩
    rw [run_eq_of_resumes (.throwException exc), h]
    rfl
  throwInto exc type value traceback t? hexc ht := by
    have hrunning : (w.generator g).state ≠ .running := by simp [hs]
    obtain ⟨v, hv, ⟨_, _, honly⟩, hvalid, hlinks⟩ :=
      Engine.thrown_given (e := ⟨host, host.answer n⟩) hrunning hexc ht c
    have hgen : v.generator g = w.generator g := by rw [honly]; rfl
    have hcontext : v.context c = w.context c := by rw [honly]; rfl
    have hplaces := v.places exc (v.generator g).entrySnapshot
    refine ⟨_, ?_, .trans ⟨_, _, honly⟩ hplaces.onlyLinks, fun hexc => ?_⟩
    · rw [run_throwInto, Engine.throw_of_thrown hv (hgen ▸ hs), hcontext]
    · obtain ⟨entry, hentry, h⟩ := hplaces.links (hvalid _ hexc)
      exact ⟨entry, hentry.trans (by rw [hgen]), by rw [h, hlinks hexc]; rfl⟩

theorem throwsMade (hw : w.Settled) (hg : w.generators.Valid g)
    (hs : (w.generator g).state = .finished)
    (h : (Engine.thrown ⟨host, host.answer n⟩ c g type value traceback).run w = some (r, v)) :
    Engine.Prepares ⟨host, host.answer n⟩ c type w v ∧ w.Rests g v ∧
      host.ThrowsMade n c g type value traceback w v r := by
  have hrests := ((Engine.thrown_follows (host.trusts n) c g type value traceback w hw).2 _ _ h).rests
    hw hg hs
  refine ⟨(Engine.thrown_prepares c g type value traceback w).2 _ _ h, hrests, ?_⟩
  cases r with
  | error f =>
    rw [ThrowsMade, run_throwInto]
    exact Engine.throw_of_not_thrown h
  | ok exc =>
    refine ⟨_, ?_, v.places exc _⟩
    rw [run_throwInto]
    exact Engine.throw_of_thrown h (hrests.finished hs)

theorem framed (h : (host.run n c p).run (.initial s) = some (a, w)) : w.Framed :=
  ((run_trails host n c p _).2 _ _ h).grown.framed fun g hg => absurd hg (by
    simp [World.initial, Store.Valid, Store.empty])

theorem frame_eq {f : Ref .frame} (hf : w.memory.frames.Valid f)
    (hedits : (host.runWatched (edits (¬ ·.Writes f)) n c p).run w = (host.run n c p).run w)
    (h : (host.run n c p).run w = some (a, v)) : v.memory.frame f = w.memory.frame f :=
  have htrails : Exec.Trails (fun _ x => ¬ x.Writes f) false
      (host.runWatched (edits (¬ ·.Writes f)) n c p) :=
    runWatched_trails (fun _ _ _ _ _ _ _ h => h) host n c p
  ((htrails w).2 _ _ (hedits.trans h)).frame_eq (fun _ _ hx => hx) hf

end Host

/-- In any run, a generator that is finished stays so, its body is not entered again, and nothing of
it changes. Its frame is written to by programs only, and operations on it report that it is finished
without doing anything else, but for a class that is called for an exception to throw. -/
theorem finished_inert (host : Host σ) :
    (∀ s : σ, host.Upholds Host.absorbing (.initial s)) ∧
    (∀ (α : Type) (n : Nat) (c : Ref .context) (p : Prog σ α) (s : σ) (a : α) (w : World σ),
      (host.run n c p).run (.initial s) = some (a, w) → w.Framed) ∧
    (∀ (α : Type) (n : Nat) (c : Ref .context) (p : Prog σ α) (w w' : World σ) (a : α)
      (g : Ref .generator), w.Framed → w.generators.Valid g →
      (host.runWatched (Host.edits (¬ ·.Writes (w.generator g).frame)) n c p).run w =
        (host.run n c p).run w →
      (host.run n c p).run w = some (a, w') →
      w'.memory.frame (w.generator g).frame = w.memory.frame (w.generator g).frame) ∧
    ∀ (n : Nat) (c : Ref .context) (g : Ref .generator) (w : World σ),
      (w.generator g).state = .finished → host.Inert n c g w ∧
      ∀ (type : Value) (value traceback : Option Value) (r : Except Failure Exc) (v : World σ),
        w.Settled → w.generators.Valid g →
        (Engine.thrown ⟨host, host.answer n⟩ c g type value traceback).run w = some (r, v) →
        Engine.Prepares ⟨host, host.answer n⟩ c type w v ∧ w.Rests g v ∧
          host.ThrowsMade n c g type value traceback w v r := by
  refine ⟨fun s => ?_, fun _ _ _ _ _ _ _ => Host.framed, ?_, ?_⟩
  · refine Host.upholds_of_regime (r := .settled) Engine.answer_keeps (fun hw h => ?_) (.initial s)
    have hkept := (Engine.answer_keeps (host.trusts _) _ _ _ hw).2 _ _ h
    exact ⟨hw.lasting, hkept.settled.lasting, fun g hg hs => hkept.rests hw hg hs⟩
  · intro α n c p w w' a g hw hg hedits h
    exact Host.frame_eq (hw g hg) hedits h
  · intro n c g w hs
    exact ⟨Host.inert_of_finished hs n c,
      fun type value traceback r v hw hg => Host.throwsMade hw hg hs⟩

theorem relay_rests : ∃ a w b w',
    (relay.run 8 ⟨0⟩ (startRelay (.request (.close ⟨2⟩)))).run (.initial ()) = some (a, w) ∧
      (w.generator ⟨1⟩).delegate = some ⟨2⟩ ∧ relay.Inert 8 ⟨0⟩ ⟨2⟩ w ∧
      (relay.run 8 ⟨0⟩ (.request (.resume ⟨1⟩ none))).run w = some (b, w') ∧
      w'.memory.frame (w.generator ⟨2⟩).frame = w.memory.frame (w.generator ⟨2⟩).frame := by
  have hruns : ((relay.run 8 ⟨0⟩ (startRelay (.request (.close ⟨2⟩)))).run (.initial ())).any
      fun r => (r.2.generator ⟨2⟩).state = .finished ∧ r.2.generators.Valid ⟨2⟩ ∧
        (r.2.generator ⟨1⟩).delegate = some ⟨2⟩ ∧
        ((relay.run 8 ⟨0⟩ (.request (.resume ⟨1⟩ none))).run r.2).isSome := by decide +kernel
  obtain ⟨⟨a, w⟩, hclosed, hw⟩ := (Option.any_eq_true _ _).mp hruns
  obtain ⟨hfinished, hvalid, hdelegate, hresumed⟩ := of_decide_eq_true hw
  obtain ⟨⟨b, w'⟩, hresumed⟩ := Option.isSome_iff_exists.mp hresumed
  have hprogram (P : Edit → Prop) :
      (Prog.request (.resume ⟨1⟩ none) : Prog Unit Outcome).Asks fun q => q.Only P :=
    Prog.asks_request trivial
  obtain ⟨-, hframed, hframe, hinert⟩ := finished_inert relay
  refine ⟨a, w, b, w', hclosed, hdelegate, (hinert 8 ⟨0⟩ ⟨2⟩ w hfinished).1, hresumed, ?_⟩
  refine hframe _ 8 ⟨0⟩ _ w w' b ⟨2⟩ (hframed _ 8 ⟨0⟩ _ () a w hclosed) hvalid ?_ hresumed
  rw [Host.runWatched_eq_of_asks (relay_asks _) Request.Only.of_operates (hprogram _)]

end Resumable
