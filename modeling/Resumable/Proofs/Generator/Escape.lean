import Resumable.Proofs.Generator.Lifecycle

/-!
# The end of an iteration that escapes

A body that lets the end of an iteration escape would end its own. What leaves is an error that has
the escaped exception for its cause and context, and its traceback.
-/

namespace Resumable

variable {σ : Type}

namespace World

variable {w : World σ}

/-- `wrapper` was raised in place of the end of an iteration `s`, and has its traceback. -/
structure Wraps (s wrapper : Exc) (w : World σ) : Prop where
  type : wrapper.type = .runtimeError
  class? : wrapper.class? = none
  message : ∃ t : TextRef, wrapper.args = [.text t] ∧ t.text = "generator raised StopIteration"
  links : w.linksOf wrapper = ⟨(w.linksOf s).traceback, some s, some s⟩

theorem exitSnapshot_finish (g : Ref .generator) :
    ((w.modifyGenerator g (·.finish)).generator g).exitSnapshot = (w.generator g).exitSnapshot :=
  part_modifyGenerator (f := (·.finish)) (fun _ => rfl) w g g

def placed (e : Exc) (place : Snapshot) (w : World σ) : World σ :=
  ({ w with identities := w.identities + 1 } : World σ).modifyLinks e
    (.pushTraceback ⟨w.identities, place, place.line⟩)

theorem linksOf_placed {e : Exc} (hv : w.links.Valid e.ref) (place : Snapshot) :
    (w.placed e place).linksOf e =
      (w.linksOf e).pushTraceback ⟨w.identities, place, place.line⟩ :=
  Store.get_modify_self _ _ hv

end World

namespace Exec

theorem pushTraceback_run (e : Exc) (place : Snapshot) (w : World σ) :
    (pushTraceback e place).run w = some ((), w.placed e place) := rfl

structure Chained (w v : World σ) : Prop where
  generators : v.generators = w.generators
  valid : ∀ r, v.links.Valid r ↔ w.links.Valid r
  traceback : ∀ e, (v.linksOf e).traceback = (w.linksOf e).traceback

theorem callerException_run (c : Ref .context) (w : World σ) :
    ∃ found v, (callerException c).run w = some (found, v) ∧ v.generators = w.generators ∧
      v.links = w.links := by
  cases ha : w.activation? with
  | none => exact ⟨none, w, by simp [callerException, ha], rfl, rfl⟩
  | some a =>
    cases hk : a.arguments.caller with
    | some known => exact ⟨known, w, by simp [callerException, ha, hk], rfl, rfl⟩
    | none =>
      let found := (w.context c).currentException?
      refine ⟨found, w.setActivity (.running { a with
        arguments := { a.arguments with caller := some found } }), ?_, by simp, by simp⟩
      simp [callerException, ha, hk, found]

theorem traceback_chain (w : World σ) (e e' handled : Exc) :
    ((w.modifyLinks e (.chain e handled)).linksOf e').traceback = (w.linksOf e').traceback := by
  have hchain : ∀ l : Links, (l.chain e handled).traceback = l.traceback := by
    intro l
    unfold Links.chain
    split
    · rfl
    · split <;> rfl
  by_cases he : e'.ref = e.ref
  · by_cases hv : w.links.Valid e'.ref
    · refine .trans ?_ (hchain (w.linksOf e'))
      refine congrArg Links.traceback ?_
      simp only [World.linksOf, World.modifyLinks, ← he]
      exact Store.get_modify_self _ _ hv
    · simp only [World.linksOf, World.modifyLinks]
      rw [Store.get_of_not_valid _ hv, Store.get_of_not_valid]
      simpa using hv
  · simp only [World.linksOf, World.modifyLinks]
    rw [Store.get_modify_of_ne _ _ he]

theorem chainCaller_run (c : Ref .context) (e : Exc) (w : World σ) :
    ∃ v, (chainCaller c e).run w = some ((), v) ∧ Chained w v := by
  obtain ⟨found, v, hrun, hg, hl⟩ := callerException_run c w
  cases hs : (w.linksOf e).context.isSome with
  | true => exact ⟨w, by simp [chainCaller, hs], rfl, fun _ => .rfl, fun _ => rfl⟩
  | false =>
    have hv : Chained w v := ⟨hg, by simp [hl], by simp [World.linksOf, hl]⟩
    cases found with
    | none => exact ⟨v, by simp [chainCaller, hs, hrun], hv⟩
    | some handled =>
      refine ⟨v.modifyLinks e (.chain e handled), by simp [chainCaller, hs, hrun], hg, ?_, ?_⟩
      · exact fun r => (Store.valid_modify ..).trans (hv.valid r)
      · exact fun e' => (traceback_chain v e e' handled).trans (hv.traceback e')

end Exec

namespace Engine

variable {e : Engine σ} {w u : World σ} {r : Raise}

theorem escape_raised (hs : r.exc.isCaughtBy .stopIteration = false) (c : Ref .context)
    (g : Ref .generator) (thrown : Option Exc) (w : World σ) :
    ∃ v, (escape c g thrown (.raised r)).run w =
        some (.raised r, v.placed r.exc (w.generator g).exitSnapshot) ∧
      Exec.Chained w v ∧ (thrown.any (·.same r.exc) = true → v = w) := by
  cases ht : thrown.any (·.same r.exc) with
  | true =>
    refine ⟨w, ?_, ⟨rfl, fun _ => .rfl, fun _ => rfl⟩, fun _ => rfl⟩
    simp [escape, ht, hs, Exec.pushTraceback_run]
  | false =>
    obtain ⟨v, hv, hchained⟩ := Exec.chainCaller_run c r.exc w
    refine ⟨v, ?_, hchained, nofun⟩
    have hgen : v.generator g = w.generator g := by simp only [World.generator, hchained.generators]
    simp [escape, ht, hs, hv, hgen, Exec.pushTraceback_run]

/-- What replaces the end of an iteration has a traceback that passes the body. -/
theorem escape_stop (hs : r.exc.isCaughtBy .stopIteration = true) (hv : w.links.Valid r.exc.ref)
    (c : Ref .context) (g : Ref .generator) (thrown : Option Exc) :
    ∃ wrapper id w', (escape c g thrown (.raised r)).run w =
        some (.raised ⟨wrapper, r.hostTrace⟩, w') ∧
      w'.Wraps r.exc wrapper ∧
      (w'.linksOf r.exc).traceback = some (.push
        ⟨id, (w.generator g).exitSnapshot, (w.generator g).exitSnapshot.line⟩
        (w.linksOf r.exc).traceback) := by
  obtain ⟨v, hrun, hchained⟩ : ∃ v, (escape c g thrown (.raised r)).run w = (do
      Exec.pushTraceback r.exc ((← get).generator g).exitSnapshot
      let message ← Exec.newText Fault.escapedStop.message
      let wrapper ← Exec.newExc Fault.escapedStop.type none [.text message]
      modify fun w => w.modifyLinks wrapper fun _ =>
        { traceback := (w.linksOf r.exc).traceback, context := some r.exc, cause := some r.exc }
      return .raised { r with exc := wrapper } : Exec σ Failure).run v ∧ Exec.Chained w v := by
    cases ht : thrown.any (·.same r.exc) with
    | true => exact ⟨w, by simp [escape, ht, hs], rfl, fun _ => .rfl, fun _ => rfl⟩
    | false =>
      obtain ⟨v, hv, hchained⟩ := Exec.chainCaller_run c r.exc w
      exact ⟨v, by simp [escape, ht, hs, hv], hchained⟩
  let place := (v.generator g).exitSnapshot
  let entry : TracebackEntry := ⟨v.identities, place, place.line⟩
  let pushed := v.links.modify r.exc.ref (.pushTraceback entry)
  have hvv : pushed.Valid r.exc.ref := (Store.valid_modify ..).mpr ((hchained.valid _).mpr hv)
  have hne : r.exc.ref ≠ pushed.next := fun he => pushed.not_valid_next (he ▸ hvv)
  let wrapper : Exc := ⟨pushed.next, .runtimeError, none,
    [.text ⟨v.identities + 1, Fault.escapedStop.message⟩]⟩
  let wrapping : Links :=
    ⟨((pushed.add .none).get r.exc.ref).traceback, some r.exc, some r.exc⟩
  have hself : ((pushed.add .none).modify wrapper.ref fun _ => wrapping).get r.exc.ref =
      (pushed.add .none).get r.exc.ref := Store.get_modify_of_ne _ _ hne
  have hpushed : (pushed.add .none).get r.exc.ref = (v.linksOf r.exc).pushTraceback entry :=
    (Store.get_add_of_valid _ _ hvv).trans
      (Store.get_modify_self _ _ ((hchained.valid _).mpr hv))
  have hwrapper : ((pushed.add .none).modify wrapper.ref fun _ => wrapping).get wrapper.ref =
      wrapping := Store.get_modify_self _ _ ((Store.valid_add ..).mpr (.inr rfl))
  have hplace : place = (w.generator g).exitSnapshot := by
    simp only [place, World.generator, hchained.generators]
  rw [hrun]
  refine ⟨wrapper, v.identities, { v with
    identities := v.identities + 1 + 1
    links := (pushed.add .none).modify wrapper.ref fun _ => wrapping }, rfl,
    ⟨rfl, rfl, ⟨_, rfl, rfl⟩, ?_⟩, ?_⟩
  · refine hwrapper.trans ?_
    exact congrArg (fun l : Links => (⟨l.traceback, r.exc, r.exc⟩ : Links)) hself.symm
  · refine (congrArg Links.traceback (hself.trans hpushed)).trans ?_
    rw [Links.pushTraceback, hchained.traceback, ← hplace]

end Engine

namespace World

variable {w u v : World σ}

def failing (g : Ref .generator) (f : Failure) (u : World σ) : World σ :=
  (u.record (.left g (.error f))).modifyGenerator g (·.finish)

@[simp] theorem links_failing : (u.failing g f).links = u.links := rfl

def leftFailing (c : Ref .context) (g : Ref .generator) (name : String) (v : World σ) : World σ :=
  ((v.setActivity .between).modifyGenerator g id).told c g (.finish name .raised)

@[simp] theorem links_leftFailing : (v.leftFailing c g name).links = v.links := by
  simp [leftFailing, told, record, modifyContext, modifyGenerator]

@[simp] theorem history_leftFailing : (v.leftFailing c g name).history =
    .traced c g (.finish name .raised) :: v.history := by
  simp [leftFailing]

theorem exitSnapshot_failing (g : Ref .generator) (f : Failure) :
    ((u.failing g f).generator g).exitSnapshot = (u.generator g).exitSnapshot :=
  exitSnapshot_finish (w := u.record _) g

end World

namespace Engine

variable {e : Engine σ} {w u : World σ} {r : Raise}

theorem runBody_failed (hr : (e.perform c (e.host.body (w.generator g).target)).run
      (w.begun c g p kind) = some (.error f, u)) :
    (e.runBody c g p kind).run w =
      ((escape c g (p.bind (·.thrown?)) f).run (u.failing g f)).bind fun x =>
        some (.failed x.1, x.2.leftFailing c g (w.generator g).qualifiedName) := by
  rw [runBody_run, hr]
  rfl

theorem runBody_stop (hr : (e.perform c (e.host.body (w.generator g).target)).run
      (w.begun c g p kind) = some (.error (.raised r), u))
    (hs : r.exc.isCaughtBy .stopIteration = true) (hv : u.links.Valid r.exc.ref) :
    ∃ wrapper id w', (e.runBody c g p kind).run w =
        some (.failed (.raised ⟨wrapper, r.hostTrace⟩), w') ∧
      w'.Wraps r.exc wrapper ∧
      (w'.linksOf r.exc).traceback = some (.push
        ⟨id, (u.generator g).exitSnapshot, (u.generator g).exitSnapshot.line⟩
        (u.linksOf r.exc).traceback) := by
  obtain ⟨wrapper, entryId, v, hescape, hwraps, htraceback⟩ :=
    escape_stop (w := u.failing g (.raised r)) hs hv c g (p.bind (·.thrown?))
  rw [runBody_failed hr, hescape]
  refine ⟨wrapper, entryId, _, rfl, ⟨hwraps.type, hwraps.class?, hwraps.message, ?_⟩, ?_⟩
  · simpa [World.linksOf] using hwraps.links
  · rw [World.exitSnapshot_failing] at htraceback
    simpa [World.linksOf] using htraceback

end Engine

end Resumable
