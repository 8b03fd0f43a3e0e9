import Resumable.Proofs.Generator.Crossing
import Resumable.Proofs.Generator.Refusals

/-!
# What closing comes to

A generator that is closed is finished, however its body takes that. What the closing reports
depends on whether the body took what was thrown into it, and on how its run ended; failures that
keep the body from running are reported as they are.
-/

namespace Resumable

open Exec (Alike)

variable {σ : Type}

theorem ExcType.not_exit_of_stop {t : ExcType} (h : t.isSubtypeOf .stopIteration = true) :
    t.isSubtypeOf .generatorExit = false := by
  cases t <;> revert h <;> decide

theorem Failure.not_caught {f : Failure} (h : ∀ r, f ≠ .raised r) (type : ExcType) :
    f.isCaughtBy type = false := by
  cases f with
  | raised r => exact absurd rfl (h r)
  | _ => rfl

-- ---------------------------------------------------------------------------
-- Computations that return
-- ---------------------------------------------------------------------------

namespace Exec

/-- It has a result in every world. -/
def Returns (x : Exec σ α) : Prop := ∀ w, (x.run w).isSome

namespace Returns

theorem pure (a : α) : Returns (Pure.pure a : Exec σ α) := fun _ => rfl

theorem bind {x : Exec σ α} {f : α → Exec σ β} (hx : Returns x) (hf : ∀ a, Returns (f a)) :
    Returns (x >>= f) := fun w => by
  obtain ⟨⟨a, v⟩, hv⟩ := Option.isSome_iff_exists.mp (hx w)
  simpa only [StateT.run_bind, hv, Option.bind_eq_bind, Option.bind_some] using hf a v

theorem ite {c : Prop} [Decidable c] {x y : Exec σ α} (hx : Returns x) (hy : Returns y) :
    Returns (if c then x else y) := by
  split
  · exact hx
  · exact hy

theorem step {x : Exec σ α} {f : α → Exec σ β} {w v : World σ} {a : α} (h : x.run w = some (a, v))
    (hf : ((f a).run v).isSome) : ((x >>= f).run w).isSome := by
  simpa only [StateT.run_bind, h, Option.bind_eq_bind, Option.bind_some] using hf

end Returns

end Exec

open Exec (Returns)

-- ---------------------------------------------------------------------------
-- Runs of bodies
-- ---------------------------------------------------------------------------

namespace World

variable {w w' u u' v v' : World σ}

def HasTaken (u : World σ) : Prop := u.activation?.any (·.hasPendingThrow) = false

structure Replaces (s wrapper : Exc) (u v : World σ) : Prop where
  type : wrapper.type = .runtimeError
  message : ∃ t : TextRef, wrapper.args = [.text t] ∧ t.text = "generator raised StopIteration"
  wraps : u.links.Valid s.ref → v.Wraps s wrapper

/-- What leaves a body that failed: an error in place of the end of an iteration, and any other
failure as it is. -/
inductive Escapes (u v : World σ) : Failure → Failure → Prop
  | replaced : r.exc.isCaughtBy .stopIteration = true → u.Replaces r.exc wrapper v →
      Escapes u v (.raised r) (.raised ⟨wrapper, r.hostTrace⟩)
  | asIs : f.isCaughtBy .stopIteration = false → Escapes u v f f

/-- What the one that resumed a body is told, by how its run ended in `u`. -/
inductive Concludes (u v : World σ) : Except Failure BodyResult → Outcome → Prop
  | yielded : u.HasTaken → Concludes u v (.ok (.yields s)) (.yielded s.value)
  | returned : u.HasTaken → Concludes u v (.ok (.returns x)) (.returned x)
  | ignored : ¬ u.HasTaken →
      Concludes u v (.ok b) (.failed (.internal "call target ignored a thrown exception"))
  | failed : u.Escapes v f f' → Concludes u v (.error f) (.failed f')

theorem Replaces.congr (h : u.Replaces s wrapper v) (hu : u'.links = u.links)
    (hv : v'.links = v.links) : u'.Replaces s wrapper v' where
  type := h.type
  message := h.message
  wraps hs := by
    obtain ⟨htype, hclass, hmessage, hlinks⟩ := h.wraps (hu ▸ hs)
    exact ⟨htype, hclass, hmessage, by simpa only [linksOf, hv] using hlinks⟩

theorem Escapes.congr (h : u.Escapes v f f') (hu : u'.links = u.links) (hv : v'.links = v.links) :
    u'.Escapes v' f f' := by
  cases h with
  | replaced hs h => exact .replaced hs (h.congr hu hv)
  | asIs hs => exact .asIs hs

end World

namespace Engine

variable {e : Engine σ} {w : World σ}

theorem escape_replaces {r : Raise} (hs : r.exc.isCaughtBy .stopIteration = true) (c : Ref .context)
    (g : Ref .generator) (thrown : Option Exc) (w : World σ) :
    Alike (escape c g thrown (.raised r)) (escape c g thrown (.raised r)) w fun f v =>
      ∃ wrapper, f = .raised ⟨wrapper, r.hostTrace⟩ ∧ w.Replaces r.exc wrapper v := by
  have hmade : Alike (escape c g thrown (.raised r)) (escape c g thrown (.raised r)) w fun f _ =>
      ∃ wrapper, f = .raised ⟨wrapper, r.hostTrace⟩ ∧ wrapper.type = .runtimeError ∧
        ∃ t : TextRef, wrapper.args = [.text t] ∧ t.text = "generator raised StopIteration" := by
    unfold escape
    refine .ite ?_ (.bind .any fun _ _ _ => ?_)
    all_goals
      refine .bind .any fun _ _ _ => .bind .any fun _ _ _ => ?_
      rw [hs]
      exact .step rfl (.step rfl (.step rfl (.pure ⟨_, rfl, rfl, _, rfl, rfl⟩)))
  refine (hmade.and .ran).mono ?_
  rintro _ v ⟨⟨wrapper, rfl, htype, hmessage⟩, hrun⟩
  refine ⟨wrapper, rfl, htype, hmessage, fun hv => ?_⟩
  obtain ⟨_, _, _, hrun', hwraps, -⟩ := escape_stop hs hv c g thrown
  cases hrun.symm.trans hrun'
  exact hwraps

def BodyRan (e : Engine σ) (c : Ref .context) (g : Ref .generator) (p : Payload) (kind : ResumeKind)
    (w : World σ) (r : Except Failure BodyResult) (u : World σ) : Prop :=
  (e.perform c (e.host.body (w.generator g).target)).run (w.begun c g (some p) kind) = some (r, u)

theorem escape_escapes (c : Ref .context) (g : Ref .generator) (thrown : Option Exc) (f : Failure)
    (u : World σ) :
    Alike (escape c g thrown f) (escape c g thrown f) u fun f' v => u.Escapes v f f' := by
  cases f with
  | raised r =>
    cases hs : r.exc.isCaughtBy .stopIteration with
    | true =>
      refine (escape_replaces hs c g thrown u).mono ?_
      rintro _ v ⟨wrapper, rfl, h⟩
      exact .replaced hs h
    | false =>
      obtain ⟨v, hrun, -⟩ := escape_raised hs c g thrown u
      exact .of_run hrun (.asIs hs)
  | _ => exact .pure (.asIs rfl)

theorem conclude_leaves (c : Ref .context) (g : Ref .generator) (name : String)
    (thrown : Option Exc) (r : Except Failure BodyResult) (u : World σ) :
    Alike (heeded r >>= conclude c g name thrown) (heeded r >>= conclude c g name thrown) u
      fun o v => u.Concludes v r o := by
  have hfailed : ∀ f, Alike (conclude c g name thrown (.error f))
      (conclude c g name thrown (.error f)) u fun o v => ∃ f', o = .failed f' ∧
        u.Escapes v f f' := fun f => by
    refine .step rfl (.step rfl (.bind (escape_escapes c g thrown f (u.failing g f)) ?_))
    intro f' v h
    exact .step rfl (.step rfl (.pure ⟨f', rfl, h.congr rfl World.links_leftFailing⟩))
  cases r with
  | error f =>
    refine .step (a := .error f) rfl ((hfailed f).mono ?_)
    rintro _ v ⟨f', rfl, h⟩
    exact .failed h
  | ok b =>
    by_cases ht : u.HasTaken
    · have htaken : u.activation?.any (·.hasPendingThrow) = false := ht
      have hrun : (heeded (.ok b)).run u = some (.ok b, u) := by simp [heeded, htaken]
      refine .step hrun ?_
      cases b with
      | yields s => exact .step rfl (.step rfl (.step rfl (.pure (.yielded ht))))
      | returns x => exact .step rfl (.step rfl (.step rfl (.pure (.returned ht))))
    · have hpending : u.activation?.any (·.hasPendingThrow) = true := by
        simpa [World.HasTaken] using ht
      have hrun : (heeded (.ok b)).run u =
          some (.error (.internal "call target ignored a thrown exception"), u) := by
        simp [heeded, hpending]
      refine .step hrun ((hfailed _).mono ?_)
      rintro _ v ⟨f', rfl, h⟩
      cases h
      exact .ignored ht

theorem runBody_leaves (c : Ref .context) (g : Ref .generator) (p : Payload) (kind : ResumeKind)
    (w : World σ) :
    Alike (e.runBody c g (some p) kind) (e.runBody c g (some p) kind) w fun o v =>
      ∃ r u, e.BodyRan c g p kind w r u ∧ u.Concludes v r o := by
  refine .self fun o v h => ?_
  rw [runBody_run] at h
  obtain ⟨⟨r, u⟩, hrun, h⟩ := Option.bind_eq_some_iff.mp h
  exact ⟨r, u, hrun, (conclude_leaves c g _ _ r u).2 o v h⟩

-- ---------------------------------------------------------------------------
-- What is thrown into a body that is closed
-- ---------------------------------------------------------------------------

/-- The exception that closing throws into the body, and the world in which the body begins: the
exception that asks it to exit, or what the closing of its delegate raised instead. -/
inductive Delivers (e : Engine σ) (c : Ref .context) (g : Ref .generator) (w : World σ) :
    Exc → World σ → Prop
  | directly : (w.generator g).delegate = none → Delivers e c g w w.exitExc (w.readied c g)
  | closed : (w.generator g).delegate = some sub →
      (e.ask c (.close sub)).run ((w.readied c g).passedOn g sub) = some (a, u) →
      exitDelivered? w.exitExc false a = some (.throw x false) →
      Delivers e c g w x (u.givenUp (.exited g sub w.exitExc false a))

theorem Delivers.unique (h : e.Delivers c g w x v) (h' : e.Delivers c g w x' v') :
    x = x' ∧ v = v' := by
  cases h with
  | directly hd =>
    cases h' with
    | directly => exact ⟨rfl, rfl⟩
    | closed hd' => cases hd.symm.trans hd'
  | closed hd hu hx =>
    cases h' with
    | directly hd' => cases hd.symm.trans hd'
    | closed hd' hu' hx' =>
      cases hd.symm.trans hd'
      cases hu.symm.trans hu'
      cases hx.symm.trans hx'
      exact ⟨rfl, rfl⟩

/-- The closing of the delegate failed in a way that bodies are not told of. -/
inductive Withholds (e : Engine σ) (c : Ref .context) (g : Ref .generator) (w : World σ)
    (f : Failure) : Prop
  | mk : (w.generator g).delegate = some sub →
      (e.ask c (.close sub)).run ((w.readied c g).passedOn g sub) = some (.error f, u) →
      (∀ r, f ≠ .raised r) → Withholds e c g w f

theorem Delivers.not_withholds (h : e.Delivers c g w x v) : ¬ e.Withholds c g w f := by
  rintro ⟨hd, hu, hf⟩
  cases h with
  | directly hd' => cases hd.symm.trans hd'
  | closed hd' hu' hx =>
    cases hd.symm.trans hd'
    cases hu.symm.trans hu'
    cases f with
    | raised r => exact hf r rfl
    | _ => cases hx

/-- What a generator that is closed one level in is left with. -/
inductive Exited (e : Engine σ) (c : Ref .context) (g : Ref .generator) (w : World σ) :
    Outcome → World σ → Prop
  | withheld : e.Withholds c g w f → Exited e c g w (.failed f) v
  | ran : e.Delivers c g w x v → (v.generator g).target = (w.generator g).target →
      e.BodyRan c g (.throw x false) .close v r u → u.Concludes w' r o → Exited e c g w o w'

theorem exitBody_exited (he : e.Trusts e) (hw : w.Settled)
    (hs : (w.generator g).state = .suspended) (c : Ref .context) :
    Alike (e.exitBody c g) (e.exitBody c g) (w.inward c g) fun o v => e.Exited c g w o v := by
  have hgen : (w.inward c g).generator g = w.generator g := rfl
  have hexit : (Exec.newExc .generatorExit none []).run (w.inward c g) =
      some (w.exitExc, w.readied c g) := rfl
  refine .step (x := get) (a := w.inward c g) rfl (.step hexit ?_)
  rw [hgen]
  cases hd : (w.generator g).delegate with
  | none =>
    refine (runBody_leaves c g _ _ _).mono ?_
    rintro o v ⟨r, u, hran, hleaves⟩
    exact .ran (.directly hd) rfl hran hleaves
  | some sub =>
    have hstands : standing g (w.readied c g).history = .suspended (some sub) :=
      (hw.standing_of_suspended hs).trans (congrArg Standing.suspended hd)
    have hsettled := hw.readied c g
    have hcalls : (w.readied c g).calls = .level ⟨g, c, .between⟩ :: w.calls := rfl
    refine .bind (closeDelegate_ran c g sub w.exitExc false (w.readied c g)) ?_
    rintro a _ ⟨u, hu, rfl⟩
    have hkept := (he.ask c (.close sub) _ (hsettled.passedOn hcalls hstands)).2 _ _ hu
    let v := u.givenUp (.exited g sub w.exitExc false a)
    have hduty : dutyIn g ((w.readied c g).passedOn g sub).calls ≠ none := by
      rw [World.calls_passedOn hcalls]
      exact World.dutyIn_ne_none (by simp [Activity.duty?])
    have htarget : (v.generator g).target = (w.generator g).target := calc
      _ = (u.generator g).target := Generator.target_eq (World.site_givenUp _ u g)
      _ = _ := congrArg Course.target (hkept.course_eq (hsettled.passedOn hcalls hstands) hduty)
      _ = _ := Generator.target_eq (World.site_passedOn (w.readied c g) g sub g)
    have hrun : ∀ x, exitDelivered? w.exitExc false a = some (.throw x false) →
        Alike (e.runBody c g (some (.throw x false)) .close)
          (e.runBody c g (some (.throw x false)) .close) v fun o v => e.Exited c g w o v := by
      intro x hx
      refine (runBody_leaves c g _ _ _).mono ?_
      rintro o v ⟨r, u, hran, hleaves⟩
      exact .ran (.closed hd hu hx) htarget hran hleaves
    refine .step rfl ?_
    change Alike _ _ v _
    rcases a with f | _
    · cases f with
      | raised r => exact hrun _ rfl
      | _ => exact .pure (.withheld ⟨hd, hu, fun _ h => by cases h⟩)
    · exact hrun _ rfl

-- ---------------------------------------------------------------------------
-- What closing reports
-- ---------------------------------------------------------------------------

/-- What closing reports of a run of the body that ended in `u`. A body that takes what is thrown in
and returns has exited, and so has one that lets an exception escape that asks it to exit. -/
inductive Exits (u w' : World σ) : Except Failure BodyResult → Except Failure Unit → Prop
  | returned : u.HasTaken → Exits u w' (.ok (.returns x)) (.ok ())
  | escaped : f.isCaughtBy .generatorExit = true → Exits u w' (.error f) (.ok ())
  | yielded : u.HasTaken → message.text = "generator ignored GeneratorExit" →
      Exits u w' (.ok (.yields s)) (.error (.ofExc ⟨ref, .runtimeError, none, [.text message]⟩))
  | ignored : ¬ u.HasTaken →
      Exits u w' (.ok b) (.error (.internal "call target ignored a thrown exception"))
  | failed : f.isCaughtBy .generatorExit = false → u.Escapes w' f f' →
      Exits u w' (.error f) (.error f')

/-- How closing a generator that does not run comes to its result. -/
inductive Closes (e : Engine σ) (c : Ref .context) (g : Ref .generator) (w w' : World σ) :
    Except Failure Unit → Prop
  | created : (w.generator g).state = .created → Closes e c g w w' (.ok ())
  | finished : (w.generator g).state = .finished → Closes e c g w w' (.ok ())
  | refused : (w.generator g).state = .suspended → (w.context c).enter.1 = .error cause →
      Closes e c g w w' (.error (w.faulted (.limit cause)))
  | withheld : (w.generator g).state = .suspended → (w.context c).enter.1 = .ok () →
      e.Withholds c g w f → Closes e c g w w' (.error f)
  | ran : (w.generator g).state = .suspended → (w.context c).enter.1 = .ok () →
      e.Delivers c g w x v → (v.generator g).target = (w.generator g).target →
      e.BodyRan c g (.throw x false) .close v r u → Exits u w' r a → Closes e c g w w' a

inductive ExitsWell (e : Engine σ) (c : Ref .context) (g : Ref .generator) (w : World σ) : Prop
  | returned : e.Delivers c g w x v → e.BodyRan c g (.throw x false) .close v (.ok (.returns y)) u →
      u.HasTaken → ExitsWell e c g w
  | escaped : e.Delivers c g w x v → e.BodyRan c g (.throw x false) .close v (.error f) u →
      f.isCaughtBy .generatorExit = true → ExitsWell e c g w

theorem Closes.ok_iff (h : e.Closes c g w w' a) : a = .ok () ↔
    (w.generator g).state = .created ∨ (w.generator g).state = .finished ∨
      (w.generator g).state = .suspended ∧ (w.context c).enter.1 = .ok () ∧ e.ExitsWell c g w := by
  constructor
  · rintro rfl
    cases h with
    | created hs => exact .inl hs
    | finished hs => exact .inr (.inl hs)
    | ran hs hk hx _ hran hexits =>
      refine .inr (.inr ⟨hs, hk, ?_⟩)
      cases hexits with
      | returned ht => exact .returned hx hran ht
      | escaped hf => exact .escaped hx hran hf
  · intro hwell
    cases h with
    | created | finished => rfl
    | refused hs hcause => simp [hs, hcause] at hwell
    | withheld hs _ hf =>
      obtain ⟨-, -, hwell⟩ := (hwell.resolve_left (by simp [hs])).resolve_left (by simp [hs])
      cases hwell with
      | returned hx => exact absurd hf hx.not_withholds
      | escaped hx => exact absurd hf hx.not_withholds
    | ran hs hk hx _ hran hexits =>
      obtain ⟨-, -, hwell⟩ := (hwell.resolve_left (by simp [hs])).resolve_left (by simp [hs])
      cases hwell with
      | returned hx' hran' ht =>
        obtain ⟨rfl, rfl⟩ := hx.unique hx'
        cases hran.symm.trans hran'
        cases hexits with
        | returned => rfl
        | ignored hn => exact absurd ht hn
      | escaped hx' hran' hf =>
        obtain ⟨rfl, rfl⟩ := hx.unique hx'
        cases hran.symm.trans hran'
        cases hexits with
        | escaped => rfl
        | failed hf' => cases hf.symm.trans hf'

theorem closeResult_exit (h : f.isCaughtBy .generatorExit = true) (w : World σ) :
    (closeResult (.failed f)).run w = some (.ok (), w) := by
  simp [closeResult, h]

theorem closeResult_failed (h : f.isCaughtBy .generatorExit = false)
    (h' : f.isCaughtBy .stopIteration = false) (w : World σ) :
    (closeResult (.failed f)).run w = some (.error f, w) := by
  simp [closeResult, h, h']

theorem closeResult_exits (h : u.Concludes v r o) (hx : x.links = v.links) :
    Alike (closeResult o) (closeResult o) x fun a w' => Exits u w' r a := by
  cases h with
  | yielded ht => exact .step rfl (.pure (.yielded ht rfl))
  | returned ht => exact .pure (.returned ht)
  | ignored ht => exact .of_run (closeResult_failed rfl rfl x) (.ignored ht)
  | failed h =>
    cases h with
    | @replaced wrapper r hs hreplaces =>
      have hcaught : ∀ type, ExcType.runtimeError.isSubtypeOf type = false →
          (Failure.raised ⟨wrapper, r.hostTrace⟩).isCaughtBy type = false := fun type h => by
        simpa only [Failure.isCaughtBy, Exc.isCaughtBy, hreplaces.type] using h
      refine .of_run (closeResult_failed (hcaught _ rfl) (hcaught _ rfl) x) (.failed ?_ ?_)
      · exact ExcType.not_exit_of_stop hs
      · exact .replaced hs (hreplaces.congr rfl hx)
    | asIs hs =>
      cases hf : Failure.isCaughtBy _ .generatorExit with
      | true => exact .of_run (closeResult_exit hf x) (.escaped hf)
      | false => exact .of_run (closeResult_failed hf hs x) (.failed hf (.asIs hs))

theorem finishAnyway_links (c : Ref .context) (g : Ref .generator) (w : World σ) :
    Alike (finishAnyway c g) (finishAnyway c g) w fun _ w' => w'.links = w.links :=
  .step (x := get) (a := w) rfl (.ite (.pure rfl) (.step rfl (.of_run rfl rfl)))

theorem enter_admitted (h : (w.context c).enter.1 = .ok ()) (g : Ref .generator) :
    (Exec.enter c g).run w = some (.ok (), w.inward c g) := by
  obtain ⟨_, _, he⟩ | ⟨_, _, _, he, _⟩ | ⟨he, _⟩ := (w.context c).enter_cases
  · rw [he] at h
    cases h
  · rw [he] at h
    cases h
  · simp [Exec.enter, he, World.inward]

theorem close_closes (he : e.Trusts e) (hw : w.Settled) (hr : (w.generator g).state ≠ .running)
    (c : Ref .context) :
    Alike (e.close c g) (e.close c g) w fun a w' => e.Closes c g w w' a := by
  refine .step (x := get) (a := w) rfl ?_
  cases hs : (w.generator g).state with
  | running => exact absurd hs hr
  | finished => exact .pure (.finished hs)
  | created => exact .bind .any fun _ _ _ => .pure (.created hs)
  | suspended =>
    cases hk : (w.context c).enter.1 with
    | error cause =>
      obtain ⟨v, hv, -⟩ := enter_refused hk g
      exact .step hv (.bind .any fun _ _ _ => .bind .any fun _ _ _ => .pure (.refused hs hk))
    | ok _ =>
      refine .step (enter_admitted hk g) (.bind (exitBody_exited he hw hs c) fun o v hv => ?_)
      refine .step rfl (.bind (finishAnyway_links c g _) fun _ x hx => ?_)
      have hlinks : x.links = v.links := hx
      cases hv with
      | withheld hf =>
        obtain ⟨hd, hu, hnot⟩ := hf
        refine .of_run (closeResult_failed ?_ ?_ x) (.withheld hs hk ⟨hd, hu, hnot⟩)
        · exact Failure.not_caught hnot _
        · exact Failure.not_caught hnot _
      | ran hdelivers htarget hran hleaves =>
        exact (closeResult_exits hleaves hlinks).mono fun _ _ h =>
          .ran hs hk hdelivers htarget hran h

-- ---------------------------------------------------------------------------
-- When closing returns
-- ---------------------------------------------------------------------------

inductive Stalls (e : Engine σ) (c : Ref .context) (g : Ref .generator) (w : World σ) : Prop
  | delegate : (w.generator g).delegate = some sub →
      (e.ask c (.close sub)).run ((w.readied c g).passedOn g sub) = none → Stalls e c g w
  | body : e.Delivers c g w x v → (e.perform c (e.host.body (v.generator g).target)).run
      (v.begun c g (some (.throw x false)) .close) = none → Stalls e c g w

theorem heeded_returns (r : Except Failure BodyResult) :
    Returns (heeded r : Exec σ (Except Failure BodyResult)) := fun w => by
  obtain ⟨_, h⟩ := heeded_run r w
  simp [h]

theorem escape_returns (c : Ref .context) (g : Ref .generator) (thrown : Option Exc) (f : Failure) :
    Returns (escape c g thrown f : Exec σ Failure) := by
  cases f with
  | raised r =>
    have hchain : Returns (Exec.chainCaller c r.exc : Exec σ Unit) := fun w => by
      obtain ⟨_, h, -⟩ := Exec.chainCaller_run c r.exc w
      simp [h]
    unfold escape
    refine .ite ?_ (.bind hchain fun _ => ?_)
    all_goals
      refine .bind (fun _ => rfl) fun _ => .bind (fun _ => rfl) fun _ => .ite ?_ (.pure _)
      exact .bind (fun _ => rfl) fun _ => .bind (fun _ => rfl) fun _ => .bind (fun _ => rfl) fun _ =>
        .pure _
  | _ => exact .pure _

theorem conclude_returns (c : Ref .context) (g : Ref .generator) (name : String)
    (thrown : Option Exc) (r : Except Failure BodyResult) :
    Returns (conclude c g name thrown r : Exec σ Outcome) := by
  refine .bind (fun _ => rfl) fun _ => ?_
  rcases r with f | s | v
  · refine .bind (fun _ => rfl) fun _ => .bind (escape_returns c g thrown f) fun _ => ?_
    exact .bind (fun _ => rfl) fun _ => .bind (fun _ => rfl) fun _ => .pure _
  · exact .bind (fun _ => rfl) fun _ => .bind (fun _ => rfl) fun _ => .pure _
  · exact .bind (fun _ => rfl) fun _ => .bind (fun _ => rfl) fun _ => .pure _

theorem runBody_returns (h : ((e.perform c (e.host.body (w.generator g).target)).run
    (w.begun c g p kind)).isSome) : ((e.runBody c g p kind).run w).isSome := by
  obtain ⟨⟨r, u⟩, hrun⟩ := Option.isSome_iff_exists.mp h
  rw [runBody_run, hrun]
  exact Returns.bind (heeded_returns r) (fun r => conclude_returns c g _ _ r) u

theorem finishAnyway_returns (c : Ref .context) (g : Ref .generator) :
    Returns (finishAnyway c g : Exec σ Unit) :=
  .bind (fun _ => rfl) fun _ => .ite (.pure _) (.bind (fun _ => rfl) fun _ => fun _ => rfl)

theorem finishAside_returns (c : Ref .context) (g : Ref .generator) :
    Returns (finishAside c g : Exec σ Unit) :=
  .bind (fun _ => rfl) fun _ => .ite (.pure _) (.bind (fun _ => rfl) fun _ => fun _ => rfl)

theorem closeResult_returns (o : Outcome) :
    Returns (closeResult o : Exec σ (Except Failure Unit)) := by
  cases o with
  | failed f => exact .ite (.pure _) (.pure _)
  | _ => exact fun _ => rfl

theorem closeDelegate_run (c : Ref .context) (g sub : Ref .generator) (exit : Exc)
    (hostTrace : Bool) (w : World σ) :
    (e.closeDelegate c g sub exit hostTrace).run w =
      ((e.ask c (.close sub)).run (w.passedOn g sub)).bind fun r =>
        some (r.1, r.2.heard (.exited g sub exit hostTrace r.1)) := by
  change Option.bind (Option.bind _ _) _ = _
  rw [Option.bind_assoc]
  rfl

theorem exitBody_returns (h : ¬ e.Stalls c g w) : ((e.exitBody c g).run (w.inward c g)).isSome := by
  have hgen : (w.inward c g).generator g = w.generator g := rfl
  have hexit : (Exec.newExc .generatorExit none []).run (w.inward c g) =
      some (w.exitExc, w.readied c g) := rfl
  have hbody : ∀ x v, e.Delivers c g w x v →
      ((e.runBody c g (some (.throw x false)) .close).run v).isSome := fun x v hx =>
    runBody_returns (Option.isSome_iff_ne_none.mpr fun hnone => h (.body hx hnone))
  refine Returns.step (x := get) (a := w.inward c g) rfl (Returns.step hexit ?_)
  rw [hgen]
  cases hd : (w.generator g).delegate with
  | none => exact hbody _ _ (.directly hd)
  | some sub =>
    cases ha : (e.ask c (.close sub)).run ((w.readied c g).passedOn g sub) with
    | none => exact absurd (.delegate hd ha) h
    | some r =>
      obtain ⟨a, u⟩ := r
      have hclosed : (e.closeDelegate c g sub w.exitExc false).run (w.readied c g) =
          some (a, u.heard (.exited g sub w.exitExc false a)) := by
        rw [closeDelegate_run, ha]
        rfl
      have hexits : w.exitExc.isCaughtBy .generatorExit = true := rfl
      simp only [forwardThrow, hexits, if_true]
      refine Returns.step hclosed (Returns.step rfl ?_)
      rcases a with f | _
      · cases f with
        | raised r => exact hbody _ _ (.closed hd ha rfl)
        | _ => exact Returns.pure _ _
      · exact hbody _ _ (.closed hd ha rfl)

theorem close_returns (h : (w.generator g).state = .suspended → (w.context c).enter.1 = .ok () →
    ¬ e.Stalls c g w) : ((e.close c g).run w).isSome := by
  refine Returns.step (x := get) (a := w) rfl ?_
  cases hs : (w.generator g).state with
  | running => exact Returns.bind (fun _ => rfl) (fun _ => .pure _) w
  | finished => exact Returns.pure _ w
  | created => exact Returns.bind (finishAside_returns c g) (fun _ => .pure _) w
  | suspended =>
    cases hk : (w.context c).enter.1 with
    | error cause =>
      obtain ⟨v, hv, -⟩ := enter_refused hk g
      refine Returns.step hv (Returns.step rfl ?_)
      exact Returns.bind (finishAside_returns c g) (fun _ => .pure _) _
    | ok _ =>
      obtain ⟨⟨o, v⟩, hv⟩ := Option.isSome_iff_exists.mp (exitBody_returns (h hs hk))
      refine Returns.step (enter_admitted hk g) (Returns.step hv (Returns.step rfl ?_))
      exact Returns.bind (finishAnyway_returns c g) (fun _ => closeResult_returns o) _

end Engine

-- ---------------------------------------------------------------------------
-- Runs
-- ---------------------------------------------------------------------------

/-- A generator delegates to none and has no place any more, and closing it once more does
nothing. -/
structure World.Over (g : Ref .generator) (w : World σ) : Prop where
  state : (w.generator g).state = .finished
  delegate : (w.generator g).delegate = none
  snapshot : (w.generator g).snapshot? = none
  close : ∀ (host : Host σ) (n : Nat) (c : Ref .context),
    (host.run (n + 1) c (Action.close g).run).run w = some (.ok (), w)

theorem World.Settled.over_of_finished {w : World σ} (hw : w.Settled)
    (hs : (w.generator g).state = .finished) : w.Over g where
  state := hs
  delegate := by
    rw [hw.state_eq] at hs
    rw [hw.delegate_eq]
    cases h : standing g w.history with
    | absent | finished => rfl
    | _ =>
      rw [h] at hs
      cases hs
  snapshot := if_pos hs
  close host n c := by
    rw [Host.run_close]
    exact Engine.close_finished hs c

namespace Engine

variable {e : Engine σ} {w : World σ}

/-- What comes of closing a generator that does not run. -/
structure ClosedBy (e : Engine σ) (c : Ref .context) (g : Ref .generator) (w : World σ)
    (a : Except Failure Unit) (w' : World σ) : Prop where
  finished : w'.Over g
  closes : e.Closes c g w w' a
  ok_iff : a = .ok () ↔ (w.generator g).state = .created ∨ (w.generator g).state = .finished ∨
    (w.generator g).state = .suspended ∧ (w.context c).enter.1 = .ok () ∧ e.ExitsWell c g w

theorem close_closedBy (he : e.Trusts e) (hw : w.Settled) (hr : (w.generator g).state ≠ .running)
    (h : (e.close c g).run w = some (a, w')) : e.ClosedBy c g w a w' := by
  obtain ⟨hkept, hfinished⟩ := (close_alike he hw c g).2 a w' h
  have hcloses := (close_closes he hw hr c).2 a w' h
  exact ⟨hkept.settled.over_of_finished (hfinished hr), hcloses, hcloses.ok_iff⟩

def ClosesTo (e : Engine σ) (c : Ref .context) :
    {α : Type} → Request σ α → World σ → α → World σ → Prop
  | _, .close g, w, a, w' => (w.generator g).state ≠ .running → e.ClosedBy c g w a w'
  | _, _, _, _, _ => True

end Engine

def Host.closings : Host.Rule σ := fun _ e c q w a w' => e.ClosesTo c q w a w'

/-- In any run, a generator that does not run is over once it is closed, whatever its body and its
delegates do and whatever the limits refuse. The closing returns if the closing of the delegate and
the body do, and succeeds exactly if there was no body to run or the body exited as it was asked
to. -/
theorem closing_finishes (host : Host σ) :
    (∀ s : σ, host.Upholds Host.closings (.initial s)) ∧
    ∀ (n : Nat) (c : Ref .context) (g : Ref .generator) (w : World σ), w.Settled →
      (w.generator g).state ≠ .running →
      (((w.generator g).state = .suspended → (w.context c).enter.1 = .ok () →
          ¬ Engine.Stalls ⟨host, host.answer n⟩ c g w) →
        ((host.run (n + 1) c (Action.close g).run).run w).isSome) ∧
      ∀ a w', (host.run (n + 1) c (Action.close g).run).run w = some (a, w') →
        Engine.ClosedBy ⟨host, host.answer n⟩ c g w a w' := by
  refine ⟨fun s => ?_, fun n c g w hw hr => ⟨fun h => ?_, fun a w' h => ?_⟩⟩
  · refine Host.upholds_of_regime (r := .settled) Engine.answer_keeps ?_ (.initial s)
    intro α n c q w a w' hw h
    cases q with
    | close g => exact fun hr => Engine.close_closedBy (host.trusts n) hw hr h
    | _ => trivial
  · rw [Host.run_close]
    exact Engine.close_returns h
  · rw [Host.run_close] at h
    exact Engine.close_closedBy (host.trusts n) hw hr h

def startNested : Prog Unit Unit :=
  .ask (.create (.context default)) fun c =>
  .ask (.newGenerator ⟨0, default⟩ []) fun _ =>
  .ask (.newGenerator ⟨1, default⟩ []) fun _ =>
  .ask (.newGenerator ⟨2, default⟩ []) fun _ =>
  .within c (.ask (.resume ⟨2⟩ none) .done) fun _ =>
  .within c (.ask (.resume ⟨1⟩ none) .done) fun _ =>
  .within c (.ask (.resume ⟨0⟩ none) .done) fun _ => .done ()

theorem nested_closed : ∃ b w w' f v,
    (nested.run 6 ⟨0⟩ startNested).run (.initial ()) = some (b, w) ∧
      (w.generator ⟨1⟩).delegate = some ⟨2⟩ ∧
      (nested.run 6 ⟨0⟩ (Action.close ⟨1⟩).run).run w = some (.ok (), w') ∧
      Engine.ClosedBy ⟨nested, nested.answer 5⟩ ⟨0⟩ ⟨1⟩ w (.ok ()) w' ∧
      (nested.run 6 ⟨0⟩ (Action.close ⟨2⟩).run).run w = some (.error f, v) ∧
      Engine.ClosedBy ⟨nested, nested.answer 5⟩ ⟨0⟩ ⟨2⟩ w (.error f) v := by
  have hruns : ((nested.run 6 ⟨0⟩ startNested).run (.initial ())).any fun r =>
      (r.2.generator ⟨1⟩).state = .suspended ∧ (r.2.generator ⟨2⟩).state = .suspended ∧
        (r.2.generator ⟨1⟩).delegate = some ⟨2⟩ ∧
        ((nested.run 6 ⟨0⟩ (Action.close ⟨1⟩).run).run r.2).any (·.1.isOk) ∧
        ((nested.run 6 ⟨0⟩ (Action.close ⟨2⟩).run).run r.2).any (!·.1.isOk) := by decide +kernel
  obtain ⟨⟨b, w⟩, hstarted, hw⟩ := (Option.any_eq_true _ _).mp hruns
  obtain ⟨hs, hs', hdelegate, hclose, hclose'⟩ := of_decide_eq_true hw
  obtain ⟨⟨a, w'⟩, hclosed, hok⟩ := (Option.any_eq_true _ _).mp hclose
  obtain ⟨⟨a', v⟩, hclosed', hok'⟩ := (Option.any_eq_true _ _).mp hclose'
  have hsettled : w.Settled :=
    ((Engine.perform_keeps (nested.trusts 6) ⟨0⟩ _ _ (.initial ())).2 _ _ hstarted).settled
  obtain ⟨-, hfinishes⟩ := closing_finishes nested
  cases a with
  | error f => cases hok
  | ok _ =>
    cases a' with
    | ok _ => cases hok'
    | error f =>
      refine ⟨b, w, w', f, v, hstarted, hdelegate, hclosed, ?_, hclosed', ?_⟩
      · exact (hfinishes 5 ⟨0⟩ ⟨1⟩ w hsettled (by simp [show _ = _ from hs])).2 _ w' hclosed
      · exact (hfinishes 5 ⟨0⟩ ⟨2⟩ w hsettled (by simp [show _ = _ from hs'])).2 _ v hclosed'

end Resumable
