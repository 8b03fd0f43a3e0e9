import Resumable.Proofs.Generator.Refusals
import Resumable.Proofs.Run.Ancestors
import Resumable.Proofs.Run.Confined
import Resumable.Run.Operations

/-!
# Loops of contexts

What a body raises, or lets escape, is linked to what its resumer is handling if it has no context.
All that is looked at is whether the two are one exception; so where what is raised comes after
what is handled, the link closes a loop. Nothing else in a run closes one.
-/

namespace Resumable

open Exec (Alike)

variable {σ : Type}

-- ---------------------------------------------------------------------------
-- The link
-- ---------------------------------------------------------------------------

namespace World

def Made (c : Ref .context) (e : Exc) (w : World σ) : Prop :=
  w.links.Valid e.ref ∧ ∀ handled ∈ w.callerIn c, w.links.Valid handled.ref

/-- What is raised has no context, and comes after what its resumer is handling. -/
def Tangles (c : Ref .context) (e : Exc) (w : World σ) : Prop :=
  (w.linksOf e).context.isNone ∧
    ∃ handled ∈ w.callerIn c, handled.same e = false ∧ w.links.LeadsTo handled.ref e.ref

instance (c : Ref .context) (e : Exc) (w : World σ) : Decidable (w.Made c e) :=
  inferInstanceAs (Decidable (_ ∧ _))

instance (c : Ref .context) (e : Exc) (w : World σ) : Decidable (w.Tangles c e) :=
  inferInstanceAs (Decidable (_ ∧ _))

variable {w : World σ} {c : Ref .context} {e : Exc}

/-- To raise an exception closes a loop exactly if it tangles. -/
theorem chainCaller_acyclic_iff (hw : w.links.Acyclic) (hmade : w.Made c e) :
    ∃ v, (Exec.chainCaller c e).run w = some ((), v) ∧ (v.links.Acyclic ↔ ¬ w.Tangles c e) := by
  cases he : (w.linksOf e).context with
  | some other =>
    have hrun : (Exec.chainCaller c e).run w = some ((), w) := by simp [Exec.chainCaller, he]
    exact ⟨w, hrun, iff_of_true hw (by simp [Tangles, he])⟩
  | none =>
    obtain ⟨found, v, hfound, -, hlinks⟩ := Exec.callerException_run c w
    have hcaller : found = w.callerIn c :=
      ((Exec.callerException_trails (P := fun _ _ => True) (Q := .any) c w).2 _ _ hfound).1
    cases found with
    | none =>
      refine ⟨v, by simp [Exec.chainCaller, he, hfound], iff_of_true (hlinks ▸ hw) ?_⟩
      simp [Tangles, ← hcaller]
    | some handled =>
      refine ⟨v.modifyLinks e (.chain e handled), by simp [Exec.chainCaller, he, hfound], ?_⟩
      have htangles : w.Tangles c e ↔ handled.same e = false ∧
          w.links.LeadsTo handled.ref e.ref := by simp [Tangles, he, ← hcaller]
      rw [modifyLinks, hlinks, htangles]
      cases hsame : handled.same e with
      | true =>
        refine iff_of_true (hw.modify _ fun _ => .inl ?_) (by simp)
        exact Links.context_chain_same hsame _
      | false =>
        have hjoins : Store.Joins w.links (w.links.modify e.ref (.chain e handled)) e.ref
            handled.ref := .chain (Option.map_eq_none_iff.mpr he) hmade.1 hsame
        refine ⟨fun h ht => hjoins.not_acyclic ht.2 h, fun h => ?_⟩
        exact hjoins.acyclic hw (hmade.2 handled hcaller.symm) fun ht => h ⟨rfl, ht⟩

end World

-- ---------------------------------------------------------------------------
-- Trails that close no loop
-- ---------------------------------------------------------------------------

/-- Only to exceptions that were made and do not lead back. -/
def Linking.apart : Linking := fun links r e =>
  links.Acyclic → links.Valid e.ref ∧ ¬ links.LeadsTo e.ref r

def Edit.SetsContext : Edit → Prop
  | .context _ _ => True
  | _ => False

namespace World

variable {w w' : World σ} {c : Ref .context} {e : Exc}

theorem MayRaise.apart (hmade : w.Made c e) (h : ¬ w.Tangles c e) : w.MayRaise .apart c e :=
  fun he handled hcaller hsame _ =>
    ⟨hmade.2 handled hcaller, fun hl => h ⟨by simp [he], handled, hcaller, hsame, hl⟩⟩

theorem Step.acyclic (h : w.Step w') (hw : w.links.Acyclic) : w'.links.Acyclic := by
  cases h with
  | exception => exact hw.add_none
  | links e f hf => exact hw.modify e.ref fun _ => hf _
  | generator h =>
    obtain ⟨-, rfl⟩ := Exec.call_run h
    exact hw
  | _ => exact hw

theorem acyclic_edit {x : Edit} (hx : ¬ x.SetsContext) (c : Ref .context) (hw : w.links.Acyclic) :
    (x.apply c w).links.Acyclic := by
  cases x with
  | traceback e t => exact hw.modify e.ref fun _ => .inl rfl
  | cause e other => exact hw.modify e.ref fun _ => .inl rfl
  | context e other => exact absurd trivial hx
  | _ => exact hw

theorem acyclic_chained {handled : Exc} (h : Linking.apart w.links e.ref handled)
    (hw : w.links.Acyclic) : (w.modifyLinks e (.chain e handled)).links.Acyclic := by
  by_cases hj : w.links.Valid e.ref ∧ (w.linksOf e).context = none ∧ handled.same e = false
  · obtain ⟨hv, he, hsame⟩ := hj
    obtain ⟨hmade, hleads⟩ := h hw
    exact (Store.Joins.chain (Option.map_eq_none_iff.mpr he) hv hsame).acyclic hw hmade hleads
  · refine hw.modify e.ref fun hv => .inl ?_
    cases he : (w.linksOf e).context with
    | some other => exact Links.context_chain_linked (he ▸ rfl) e handled
    | none => exact Links.context_chain_same (by simpa [hv, he] using hj) _

theorem Trail.acyclic {P : Ref .context → Edit → Prop} {own : Bool}
    (h : w.Trail P .apart own w') (hP : ∀ c x, P c x → ¬ x.SetsContext) (hw : w.links.Acyclic) :
    w'.links.Acyclic := by
  induction h with
  | refl => exact hw
  | trans _ _ ih ih' => exact ih' (ih hw)
  | step h => exact h.acyclic hw
  | edit c hx => exact acyclic_edit (hP c _ hx) c hw
  | chained h => exact acyclic_chained h hw
  | wrapped x t h => exact hw.add rfl (h hw).1
  | seen | activity => rwa [links_setActivity]
  | within x _ ih => exact ih hw

end World

-- ---------------------------------------------------------------------------
-- Bodies that look first
-- ---------------------------------------------------------------------------

namespace World

variable {w : World σ}

def thrownIn (w : World σ) : Option Exc :=
  w.activation?.bind fun a => a.arguments.payload.bind (·.thrown?)

/-- Nothing escapes that tangles; what was thrown in by the same resumption is not linked. -/
def LetsGo (c : Ref .context) (thrown : Option Exc) (w : World σ) :
    Except Failure BodyResult → Prop
  | .error (.raised r) =>
    w.Made c r.exc ∧ (thrown.any (·.same r.exc) = true ∨ ¬ w.Tangles c r.exc)
  | _ => True

instance (c : Ref .context) (thrown : Option Exc) (w : World σ) (r : Except Failure BodyResult) :
    Decidable (w.LetsGo c thrown r) := by
  unfold LetsGo
  split <;> infer_instance

theorem thrownIn_begun (c : Ref .context) (g : Ref .generator) (p : Option Payload)
    (kind : ResumeKind) (w : World σ) : (w.begun c g p kind).thrownIn = none ∨
      (w.begun c g p kind).thrownIn = p.bind (·.thrown?) := by
  let a : Activation := ⟨(w.generator g).template.forResumption p, (w.generator g).offset⟩
  have hcalls : (w.begun c g p kind).calls = (w.setActivity (.running a)).calls := by
    unfold begun setActivity
    split <;> simp_all [modifyGenerator, a]
  cases hc : w.calls with
  | nil => exact .inl (by simp [thrownIn, activation?, hcalls, setActivity, hc])
  | cons call rest =>
    cases call with
    | hook => exact .inl (by simp [thrownIn, activation?, hcalls, setActivity, hc])
    | level l =>
      exact .inr (by simp [thrownIn, activation?, hcalls, setActivity, hc, a,
        Arguments.forResumption])

theorem LetsGo.mayEscape {thrown thrown' : Option Exc} {f : Failure}
    (h : w.LetsGo c thrown (.error f)) (ht : thrown = none ∨ thrown = thrown') :
    w.MayEscape .apart c thrown' f := by
  cases f with
  | raised r =>
    obtain ⟨hmade, hraise⟩ := h
    refine ⟨fun hnot => .apart hmade (hraise.resolve_left ?_), fun _ links hvalid hac => ?_⟩
    · rcases ht with rfl | rfl
      · simp
      · simp [hnot]
    · have hv := (hvalid _).mpr hmade.1
      exact ⟨hv, fun hl => links.not_valid_next (hl.valid hac hv)⟩
  | _ => trivial

end World

/-- A body that looks before it lets an exception escape, and fails in another way if its link would
close a loop. -/
def Prog.wary (body : Prog σ (Except Failure BodyResult)) :
    Prog σ (Except Failure BodyResult) := do
  let c ← .request .here
  let thrown ← Prog.look (·.thrownIn)
  let result ← body
  if ← Prog.look fun w => decide (w.LetsGo c thrown result) then return result
  else return .error (.internal "a loop of contexts")

namespace Host

def wary (host : Host σ) : Host σ := { host with body := fun t => (host.body t).wary }

section

variable {host : Host σ} {rule : Rule σ} {n : Nat} {c : Ref .context} {w : World σ}

theorem watched_run {q : Request σ α} {a : α} {v : World σ}
    (h : (host.watched rule n c q).run w = some (a, v)) :
    ∃ m, (Engine.answer ⟨host, host.watched rule m⟩ c q).run w = some (a, v) := by
  cases n with
  | zero => cases h
  | succ n => exact ⟨n, (Option.filter_eq_some_iff.mp h).1⟩

theorem watched_here : Alike (host.watched rule n c .here) (host.watched rule n c .here) w
    fun a v => c = a ∧ w = v := .self fun a v h => by
  obtain ⟨_, hrun⟩ := watched_run h
  cases hrun
  exact ⟨rfl, rfl⟩

theorem watched_look {f : World σ → α} :
    Alike (host.watched rule n c (.look f)) (host.watched rule n c (.look f)) w
      fun a v => f w = a ∧ w = v := .self fun a v h => by
  obtain ⟨_, hrun⟩ := watched_run h
  cases hrun
  exact ⟨rfl, rfl⟩

theorem wary_run (body : Prog σ (Except Failure BodyResult)) :
    Alike (host.runWatched rule n c body.wary) (host.runWatched rule n c body.wary) w
      fun r u => ∀ f, r = .error f → u.LetsGo c w.thrownIn (.error f) := by
  refine .bind watched_here ?_
  rintro _ _ ⟨rfl, rfl⟩
  refine .bind watched_look ?_
  rintro _ _ ⟨rfl, rfl⟩
  change Alike (Prog.run _ _ (body.bind _)) (Prog.run _ _ (body.bind _)) _ _
  rw [Prog.run_bind]
  refine .bind .any fun r u _ => .bind watched_look ?_
  rintro _ _ ⟨rfl, rfl⟩
  change Alike (Prog.run _ c (if decide (u.LetsGo c w.thrownIn r) then _ else _))
    (Prog.run _ c (if decide (u.LetsGo c w.thrownIn r) then _ else _)) u _
  split
  · next h => exact .pure (by rintro f rfl; exact of_decide_eq_true h)
  · exact .pure (by rintro _ ⟨⟩; trivial)

/-- To look first makes no difference where nothing is held back. -/
theorem wary_run_of_letsGo {body : Prog σ (Except Failure BodyResult)} {u : World σ}
    {r : Except Failure BodyResult} (h : (host.run (n + 1) c body).run w = some (r, u))
    (hr : u.LetsGo c w.thrownIn r) : (host.run (n + 1) c body.wary).run w = some (r, u) := by
  change (Prog.run (host.answer (n + 1)) c (body.bind _)).run w = some (r, u)
  rw [Prog.run_bind, StateT.run_bind, show (body.run (host.answer (n + 1)) c).run w = _ from h]
  change (Prog.run _ c (if decide (u.LetsGo c w.thrownIn r) then _ else _)).run u = some (r, u)
  rw [if_pos (decide_eq_true hr)]
  rfl

end

theorem wary_escapes (host : Host σ) (rule : Rule σ) (n : Nat) :
    Engine.EscapesBy .apart ⟨host.wary, host.wary.watched rule n⟩ := by
  intro c g p kind w f u h
  exact ((wary_run _).2 _ _ h f rfl).mayEscape (w.thrownIn_begun c g p kind)

def untangled : Rule σ := fun _ _ c q w _ _ => match q with
  | .edit x => ¬ x.SetsContext
  | .chain e => w.Made c e ∧ ¬ w.Tangles c e
  | _ => True

theorem untangled_allowed {q : Request σ α}
    (h : untangled α e c q w a w') : q.Allowed (fun _ x => ¬ x.SetsContext) .apart c w := by
  cases q with
  | edit x => exact h
  | chain e => exact .apart h.1 h.2
  | _ => trivial

theorem runWatched_acyclic {host : Host σ} {m : Nat} {c : Ref .context} {p : Prog σ α}
    {w w' : World σ} {a : α} (hw : w.links.Acyclic)
    (hrun : (host.wary.runWatched untangled m c p).run w = some (a, w')) : w'.links.Acyclic := by
  have htracked := watched_tracked (fun _ _ _ _ _ _ _ => untangled_allowed)
    (wary_escapes host untangled) m
  have htrail := (Engine.perform_trails htracked c p w).2 a w' hrun
  exact htrail.acyclic (fun _ _ hx => hx) hw

end Host

/-- A link that raising makes closes a loop exactly if what is raised comes after what is handled.
Where that never happens, so that a run in which it is looked at first is the run, no loop is
closed, and every walk along the contexts ends. -/
theorem contexts_stay_acyclic (host : Host σ) :
    (∀ (c : Ref .context) (e : Exc) (w : World σ), w.links.Acyclic → w.Made c e →
      ∃ v, (Exec.chainCaller c e).run w = some ((), v) ∧ (v.links.Acyclic ↔ ¬ w.Tangles c e)) ∧
    ∀ (α : Type) (n m : Nat) (c : Ref .context) (p : Prog σ α) (w w' : World σ) (a : α),
      w.links.Acyclic →
      (host.wary.runWatched Host.untangled m c p).run w = (host.run n c p).run w →
      (host.run n c p).run w = some (a, w') →
      w'.links.Acyclic ∧ ∀ r, ∃ k, w'.links.ancestor k r = none := by
  refine ⟨fun c e w => World.chainCaller_acyclic_iff, fun α n m c p w w' a hw hsame hrun => ?_⟩
  have hacyclic := Host.runWatched_acyclic hw (hsame.trans hrun)
  exact ⟨hacyclic, fun r => ⟨_, hacyclic.ends r⟩⟩

def keyError : Exc := ⟨⟨0⟩, .keyError, none, []⟩

def valueError : Exc := ⟨⟨1⟩, .valueError, none, []⟩

def raiser : Host Unit where
  body _ := .done (.error (.ofExc keyError))
  hash _ _ := .done (.ok 0)
  compare _ _ _ := .done (.ok false)
  construct _ _ _ := .done (.ok .none)

/-- A generator has been made, and an exception is being handled that has the given context. -/
def unwinding (context : Option Exc) : World Unit :=
  { (World.initial ()).generating default [] with
    links := (Store.empty.add .none).add { Links.none with context }
    contexts := Store.empty.add ((default : Context).handling valueError) }

/-- Two exceptions come to be the contexts of each other. -/
theorem escaping_closes_loop : (unwinding (some keyError)).links.Acyclic ∧
    (raiser.Asks fun q => q.Only (¬ ·.SetsContext)) ∧
    ∃ a w', (raiser.run 2 ⟨0⟩ (.request (.resume ⟨0⟩ none))).run (unwinding (some keyError)) =
      some (a, w') ∧ ¬ w'.links.Acyclic := by
  refine ⟨Store.acyclic_empty.add_none.add rfl (by decide), ?_, ?_⟩
  · exact ⟨fun _ => trivial, fun _ _ => trivial, fun _ _ _ => trivial, fun _ _ _ => trivial⟩
  · have hruns : ((raiser.run 2 ⟨0⟩ (.request (.resume ⟨0⟩ none))).run
        (unwinding (some keyError))).any fun r => r.2.links.ancestor 2 ⟨0⟩ = some ⟨0⟩ := by
      decide +kernel
    obtain ⟨⟨a, w'⟩, hrun, hloop⟩ := (Option.any_eq_true _ _).mp hruns
    exact ⟨a, w', hrun, fun h => h.apart 1 ⟨0⟩ (of_decide_eq_true hloop)⟩

def raising : World Unit := ((unwinding none).inward ⟨0⟩ ⟨0⟩).begun ⟨0⟩ ⟨0⟩ none .next

theorem raiser_asks : raiser.wary.Asks fun {β} q =>
    ∀ (e : Engine Unit) (c : Ref .context) (w : World Unit) (a : β) (w' : World Unit),
      Host.untangled β e c q w a w' where
  body _ := ⟨fun _ _ _ _ _ => trivial, fun _ => ⟨fun _ _ _ _ _ => trivial, fun _ =>
    ⟨fun _ _ _ _ _ => trivial, fun b => by cases b <;> trivial⟩⟩⟩
  hash _ _ := trivial
  compare _ _ _ := trivial
  construct _ _ _ := trivial

theorem raiser_wary_run : (raiser.wary.run 3 ⟨0⟩ (.request (.resume ⟨0⟩ none))).run
      (unwinding none) =
    (raiser.run 3 ⟨0⟩ (.request (.resume ⟨0⟩ none))).run (unwinding none) := by
  have hs : ((unwinding none).generator ⟨0⟩).state = .created := rfl
  have hd : ((unwinding none).generator ⟨0⟩).delegate = none := rfl
  have hk : ((unwinding none).context ⟨0⟩).Admits 1 := ⟨by decide +kernel, by decide +kernel⟩
  have hwary : (raiser.wary.run 2 ⟨0⟩ (raiser.body default).wary).run raising =
      some (.error (.ofExc keyError), raising) :=
    Host.wary_run_of_letsGo rfl (by decide +kernel)
  have hbody : (Engine.runBody ⟨raiser.wary, raiser.wary.answer 2⟩ ⟨0⟩ ⟨0⟩ none .next).run
        ((unwinding none).inward ⟨0⟩ ⟨0⟩) =
      (Engine.runBody ⟨raiser, raiser.answer 2⟩ ⟨0⟩ ⟨0⟩ none .next).run
        ((unwinding none).inward ⟨0⟩ ⟨0⟩) := by
    rw [Engine.runBody_run, Engine.runBody_run]
    exact congrArg (Option.bind · _) hwary
  rw [Host.run, Host.run, Prog.run_request, Prog.run_request]
  change (Engine.advance ⟨raiser.wary, raiser.wary.answer 2⟩ ⟨0⟩ ⟨0⟩ none).run _ =
    (Engine.advance ⟨raiser, raiser.answer 2⟩ ⟨0⟩ ⟨0⟩ none).run _
  rw [Engine.advance_created hs rfl, Engine.advance_created hs rfl, hd, Engine.inward_run hk,
    Engine.inward_run hk]
  exact congrArg (Option.bind · _) hbody

theorem escaping_stays_acyclic :
    (∃ v, (Exec.chainCaller ⟨0⟩ keyError).run raising = some ((), v) ∧ v.links.Acyclic) ∧
    ∃ a w', (raiser.run 3 ⟨0⟩ (.request (.resume ⟨0⟩ none))).run (unwinding none) =
      some (a, w') ∧ w'.links.contextOf ⟨0⟩ = some ⟨1⟩ ∧ w'.links.Acyclic ∧
      ∀ r, ∃ k, w'.links.ancestor k r = none := by
  have hacyclic : (unwinding none).links.Acyclic := Store.acyclic_empty.add_none.add_none
  obtain ⟨hlink, hstay⟩ := contexts_stay_acyclic raiser
  refine ⟨?_, ?_⟩
  · obtain ⟨v, hrun, hiff⟩ := hlink ⟨0⟩ keyError raising hacyclic (by decide +kernel)
    exact ⟨v, hrun, hiff.mpr (by decide +kernel)⟩
  · have hruns : ((raiser.run 3 ⟨0⟩ (.request (.resume ⟨0⟩ none))).run (unwinding none)).any
        fun r => r.2.links.contextOf ⟨0⟩ = some ⟨1⟩ := by decide +kernel
    obtain ⟨⟨a, w'⟩, hrun, hcontext⟩ := (Option.any_eq_true _ _).mp hruns
    refine ⟨a, w', hrun, of_decide_eq_true hcontext, ?_⟩
    refine hstay _ 3 3 ⟨0⟩ _ _ w' a hacyclic ?_ hrun
    rw [Host.runWatched_eq_of_asks raiser_asks (fun {α e q w a w'} h => ?_)
      (Prog.asks_request (q := .resume ⟨0⟩ none) fun _ _ _ _ _ => trivial), raiser_wary_run]
    rcases h with h | h
    · cases q <;> trivial
    · exact h e ⟨0⟩ w a w'

end Resumable
