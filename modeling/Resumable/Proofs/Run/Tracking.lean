import Resumable.Proofs.Run.Trail
import Resumable.Proofs.Run.Watched

/-!
# Runs leave trails

Every answer leads to its world by a trail, whatever the programs do. Where they make only some
edits, so does the trail; and where what is raised may be linked as it then is, the trail makes only
such links.
-/

namespace Resumable

open Exec (Alike)

variable {σ : Type}

theorem Exc.any_same (e : Exc) : (some e).any (·.same e) = true := by simp [same]

def Request.Only (P : Edit → Prop) : {α : Type} → Request σ α → Prop
  | _, .edit x => P x
  | _, _ => True

theorem Request.only_any (q : Request σ α) : q.Only fun _ => True := by cases q <;> trivial

-- ---------------------------------------------------------------------------
-- What is raised
-- ---------------------------------------------------------------------------

namespace World

variable {w : World σ}

def callerIn (c : Ref .context) (w : World σ) : Option Exc :=
  w.activation?.bind fun a => a.arguments.caller.getD (w.context c).currentException?

/-- An exception that is raised now is linked only as it may be. -/
def MayRaise (Q : Linking) (c : Ref .context) (e : Exc) (w : World σ) : Prop :=
  (w.linksOf e).context = none → ∀ handled, w.callerIn c = some handled →
    handled.same e = false → Q w.links e.ref handled

def MayEscape (Q : Linking) (c : Ref .context) (thrown : Option Exc) (w : World σ) : Failure → Prop
  | .raised r => (thrown.any (·.same r.exc) = false → w.MayRaise Q c r.exc) ∧
      (r.exc.isCaughtBy .stopIteration = true →
        ∀ links : Store .exception Links, (∀ q, links.Valid q ↔ w.links.Valid q) →
          Q links links.next r.exc)
  | _ => True

theorem mayRaise_any (c : Ref .context) (e : Exc) (w : World σ) : w.MayRaise .any c e :=
  fun _ _ _ _ => trivial

theorem mayEscape_any (c : Ref .context) (thrown : Option Exc) (w : World σ) (f : Failure) :
    w.MayEscape .any c thrown f := by
  cases f with
  | raised r => exact ⟨fun _ => w.mayRaise_any c r.exc, fun _ _ _ => trivial⟩
  | _ => trivial

end World

/-- The request edits nothing but as it may, and raises nothing but what may be raised. -/
def Request.Allowed (P : Ref .context → Edit → Prop) (Q : Linking) (c : Ref .context)
    (w : World σ) : {α : Type} → Request σ α → Prop
  | _, .edit x => P c x
  | _, .chain e => w.MayRaise Q c e
  | _, _ => True

theorem Request.Only.allowed {P : Ref .context → Edit → Prop} {q : Request σ α}
    (h : q.Only (P c)) (w : World σ) : q.Allowed P .any c w := by
  cases q with
  | edit x => exact h
  | chain e => exact w.mayRaise_any c e
  | _ => trivial

-- ---------------------------------------------------------------------------
-- Computations that leave trails
-- ---------------------------------------------------------------------------

namespace Exec

/-- It leaves a trail wherever it runs, with only some edits and links. -/
def TrailsBy (P : Ref .context → Edit → Prop) (Q : Linking) (own : Bool) (x : Exec σ α) : Prop :=
  ∀ w, Alike x x w fun _ w' => w.Trail P Q own w'

abbrev Trails (P : Ref .context → Edit → Prop) (own : Bool) (x : Exec σ α) : Prop :=
  TrailsBy P .any own x

namespace TrailsBy

variable {P : Ref .context → Edit → Prop} {Q : Linking} {own : Bool}

theorem owned {x : Exec σ α} (h : TrailsBy P Q false x) : TrailsBy P Q own x := fun w =>
  (h w).mono fun _ _ h => h.owned

theorem pure (a : α) : TrailsBy P Q own (Pure.pure a : Exec σ α) := fun _ => .pure .refl

theorem of_get : TrailsBy P Q own (get : Exec σ (World σ)) := fun _ => .of_run rfl .refl

theorem of_modify {f : World σ → World σ} (hf : ∀ w : World σ, w.Trail P Q own (f w)) :
    TrailsBy P Q own (modify f : Exec σ Unit) := fun w => .of_run rfl (hf w)

theorem of_modifyGet {f : World σ → α × World σ} (hf : ∀ w : World σ, w.Step (f w).2) :
    TrailsBy P Q own (modifyGet f : Exec σ α) := fun w => .of_run rfl (.step (hf w))

theorem bind {x : Exec σ α} {f : α → Exec σ β} (hx : TrailsBy P Q own x)
    (hf : ∀ a, TrailsBy P Q own (f a)) : TrailsBy P Q own (x >>= f) := fun w =>
  .bind (hx w) fun a w' h => (hf a w').mono fun _ _ h' => h.trans h'

theorem ite {c : Prop} [Decidable c] {x y : Exec σ α} (hx : TrailsBy P Q own x)
    (hy : TrailsBy P Q own y) : TrailsBy P Q own (if c then x else y) := fun w => .ite (hx w) (hy w)

theorem congruence (P : Ref .context → Edit → Prop) (Q : Linking) :
    Congruence (Exec σ) fun x y => x = y ∧ TrailsBy P Q false x where
  pure a := ⟨rfl, .pure a⟩
  bind hx hf := ⟨by rw [hx.1, funext fun a => (hf a).1], .bind hx.2 fun a => (hf a).2⟩

-- What the world offers.

theorem newIdentity : TrailsBy P Q own (newIdentity : Exec σ Identity) :=
  of_modifyGet fun _ => .identity

theorem newText (text : String) : TrailsBy P Q own (newText text : Exec σ TextRef) :=
  bind newIdentity fun _ => pure _

theorem newExc (type : ExcType) (class? : Option Class) (args : List Value) :
    TrailsBy P Q own (newExc type class? args : Exec σ Exc) := of_modifyGet fun _ => .exception

theorem fault (f : Fault) : TrailsBy P Q own (fault f : Exec σ Failure) :=
  bind (newText _) fun _ => bind (newExc _ _ _) fun _ => pure _

theorem stopIteration (v : Value) : TrailsBy P Q own (stopIteration v : Exec σ Exc) := newExc _ _ _

theorem modifyLinks (e : Exc) {f : World σ → Links → Links}
    (hf : ∀ w l, (f w l).context = l.context ∨ (f w l).context = none) :
    TrailsBy P Q own (modify fun w => w.modifyLinks e (f w) : Exec σ Unit) :=
  of_modify fun w => .step (.links e _ (hf w))

theorem modifyGenerator (g : Ref .generator) {f : Generator → Generator}
    (hf : ∀ x, (f x).fixed = x.fixed) :
    TrailsBy P Q own (modify fun w => w.modifyGenerator g f : Exec σ Unit) :=
  of_modify fun _ => .step (.course g f hf)

theorem pushTraceback (e : Exc) (place : Snapshot) :
    TrailsBy P Q own (pushTraceback e place : Exec σ Unit) :=
  bind newIdentity fun _ => modifyLinks _ fun _ _ => .inl rfl

theorem record {h : Happening} (hh : ∀ c g e, h ≠ .traced c g e) :
    TrailsBy P Q own (record h : Exec σ Unit) := of_modify fun _ => .step (.record h hh)

theorem emit {e : TraceEvent} (he : e.isLookup = false) (c : Ref .context) (g : Ref .generator) :
    TrailsBy P Q own (emit c g e : Exec σ Unit) := of_modify fun _ => .step (.told c g e he)

theorem takePayload : TrailsBy P Q own (takePayload : Exec σ (Except Failure Value)) := by
  intro w
  refine .step rfl ?_
  split
  · exact pure _ w
  · next a ha =>
    obtain ⟨g, c, rest, hc⟩ := World.calls_of_activation? ha
    refine .step rfl ?_
    split <;> exact .pure (.seen hc (.inr rfl))

end TrailsBy

variable {P : Ref .context → Edit → Prop} {Q : Linking} {w : World σ}

theorem callerException_trails (c : Ref .context) (w : World σ) :
    Alike (callerException c) (callerException c) w fun found v =>
      found = w.callerIn c ∧ v.links = w.links ∧ w.Trail P Q false v := by
  unfold World.callerIn
  refine .step rfl ?_
  cases ha : w.activation? with
  | none => exact .pure ⟨rfl, rfl, .refl⟩
  | some a =>
    obtain ⟨g, c', rest, hc⟩ := World.calls_of_activation? ha
    dsimp only [Option.bind_some]
    cases hk : a.arguments.caller with
    | some known => exact .pure ⟨rfl, rfl, .refl⟩
    | none =>
      refine .step rfl (.step rfl (.pure ⟨rfl, w.links_setActivity _, ?_⟩))
      exact .seen hc (.inl rfl)

theorem chainCaller_trails {c : Ref .context} {e : Exc} (h : w.MayRaise Q c e) :
    Alike (chainCaller c e) (chainCaller c e) w fun _ v =>
      (∀ q, v.links.Valid q ↔ w.links.Valid q) ∧ w.Trail P Q false v := by
  refine .step rfl ?_
  cases he : (w.linksOf e).context with
  | some other => exact .pure ⟨fun _ => .rfl, .refl⟩
  | none =>
    refine .bind (callerException_trails (P := P) (Q := Q) c w) ?_
    rintro found v ⟨hfound, hlinks, hv⟩
    cases found with
    | none => exact .pure ⟨by simp [hlinks], hv⟩
    | some handled =>
      refine .of_run rfl ⟨by simp [World.modifyLinks, hlinks], hv.trans ?_⟩
      cases hsame : handled.same e with
      | true => exact .step (.links e _ fun l => .inl (l.context_chain_same hsame))
      | false => exact .chained (hlinks ▸ h he handled hfound.symm hsame)

end Exec

namespace Engine

open Exec (Trails TrailsBy)

variable {P : Ref .context → Edit → Prop} {Q : Linking} {own : Bool} {e : Engine σ}

/-- Only what may escape does, from any body. -/
def EscapesBy (Q : Linking) (e : Engine σ) : Prop :=
  ∀ (c : Ref .context) (g : Ref .generator) (p : Option Payload) (kind : ResumeKind)
    (w : World σ) (f : Failure) (u : World σ),
    (e.perform c (e.host.body (w.generator g).target)).run (w.begun c g p kind) =
      some (.error f, u) → u.MayEscape Q c (p.bind (·.thrown?)) f

theorem escapesBy_any (e : Engine σ) : e.EscapesBy .any := fun c _ _ _ _ f u _ =>
  u.mayEscape_any c _ f

/-- An engine whose levels below leave trails. -/
structure Tracked (P : Ref .context → Edit → Prop) (Q : Linking) (e : Engine σ) : Prop where
  ask : ∀ {α : Type} (c : Ref .context) (q : Request σ α), TrailsBy P Q false (e.ask c q)
  escapes : e.EscapesBy Q

theorem perform_trails (he : e.Tracked P Q) (c : Ref .context) (p : Prog σ α) :
    TrailsBy P Q false (e.perform c p) := by
  unfold perform
  induction p generalizing c with
  | done a => exact .pure a
  | ask q k ih => exact .bind (he.ask c q) fun b => ih b c
  | handling exc inner k ihi ihk =>
    refine .bind (.of_modify fun w => .step (.meter c _ rfl)) fun _ => .bind (ihi c) fun b => ?_
    exact .bind (.of_modify fun w => .step (.meter c _ rfl)) fun _ => ihk b c
  | within c' inner k ihi ihk => exact .bind (ihi c') fun b => ihk b c

theorem performHook_trails (he : e.Tracked P Q) (c : Ref .context) (p : Prog σ α) :
    TrailsBy P Q false (e.performHook c p) := fun _ =>
  .step rfl (.bind (perform_trails he c p _) fun _ _ h =>
    .step rfl (.pure (.within .hook h.owned)))

theorem hooks_trails (he : e.Tracked P Q) (c : Ref .context) :
    (e.hooks c).Related (fun x y => x = y ∧ TrailsBy P Q false x) (e.hooks c) where
  hash _ _ := ⟨rfl, performHook_trails he c _⟩
  compare _ _ _ := ⟨rfl, performHook_trails he c _⟩
  construct _ _ _ := ⟨rfl, performHook_trails he c _⟩
  newExc _ _ _ := ⟨rfl, .newExc _ _ _⟩
  newText _ := ⟨rfl, .newText _⟩
  newIdentity := ⟨rfl, .newIdentity⟩

-- ---------------------------------------------------------------------------
-- The run of a body
-- ---------------------------------------------------------------------------

theorem escape_of_thrown {r : Raise} {thrown : Option Exc} (h : thrown.any (·.same r.exc) = true)
    (c : Ref .context) (g : Ref .generator) :
    (escape c g thrown (.raised r) : Exec σ Failure) = escape c g (some r.exc) (.raised r) := by
  simp only [escape, h, Exc.any_same]

theorem escape_of_not_thrown {r : Raise} {thrown : Option Exc}
    (h : thrown.any (·.same r.exc) = false) (c : Ref .context) (g : Ref .generator) :
    (escape c g thrown (.raised r) : Exec σ Failure) =
      Exec.chainCaller c r.exc >>= fun _ => escape c g (some r.exc) (.raised r) := by
  simp only [escape, h, Exc.any_same]
  rfl

theorem escape_thrown_trails {r : Raise} {w : World σ}
    (h : r.exc.isCaughtBy .stopIteration = true → ∀ links : Store .exception Links,
      (∀ q, links.Valid q ↔ w.links.Valid q) → Q links links.next r.exc)
    (c : Ref .context) (g : Ref .generator) :
    Alike (escape c g (some r.exc) (.raised r)) (escape c g (some r.exc) (.raised r)) w
      fun _ v => w.Trail P Q false v := by
  simp only [escape, r.exc.any_same, if_true]
  let pushed := ({ w with identities := w.identities + 1 } : World σ).modifyLinks r.exc
    (.pushTraceback ⟨w.identities, (w.generator g).exitSnapshot, (w.generator g).exitSnapshot.line⟩)
  have hpushed : w.Trail P Q false pushed :=
    .trans (.step .identity) (.step (.links r.exc _ fun _ => .inl rfl))
  have hpush : (Exec.pushTraceback r.exc (w.generator g).exitSnapshot).run w =
      some ((), pushed) := rfl
  refine .step (x := get) (a := w) rfl (.step hpush ?_)
  cases hs : r.exc.isCaughtBy .stopIteration with
  | false => exact .pure hpushed
  | true =>
    let u : World σ := { pushed with identities := pushed.identities + 1 }
    let l : Links :=
      ⟨((pushed.links.add .none).get r.exc.ref).traceback, some r.exc, some r.exc⟩
    have hmade : u.links.add l = (pushed.links.add .none).modify pushed.links.next fun _ => l :=
      (pushed.links.modify_next_add .none fun _ => l).symm
    have hwrapped : u.Trail P Q false { u with links := u.links.add l } :=
      .wrapped r.exc _ (h hs u.links fun q => Store.valid_modify ..)
    rw [hmade] at hwrapped
    refine .step rfl (.step rfl (.step rfl (.pure ?_)))
    exact hpushed.trans (.trans (.step .identity) hwrapped)

theorem escape_trails {c : Ref .context} {thrown : Option Exc} {f : Failure} {w : World σ}
    (h : w.MayEscape Q c thrown f) (g : Ref .generator) :
    Alike (escape c g thrown f) (escape c g thrown f) w fun _ v => w.Trail P Q false v := by
  cases f with
  | raised r =>
    obtain ⟨hraise, hwrap⟩ := h
    cases ht : thrown.any (·.same r.exc) with
    | true =>
      rw [escape_of_thrown ht]
      exact escape_thrown_trails hwrap c g
    | false =>
      rw [escape_of_not_thrown ht]
      refine .bind (Exec.chainCaller_trails (P := P) (hraise ht)) ?_
      rintro - v ⟨hvalid, hv⟩
      refine (escape_thrown_trails (P := P) (fun hs links hlinks => ?_) c g).mono
        fun _ u hu => hv.trans hu
      exact hwrap hs links fun q => (hlinks q).trans (hvalid q)
  | _ => exact .pure .refl

theorem setCourse_trails (g : Ref .generator) {f : Generator → Generator} (a : World σ → Activity)
    (hf : ∀ x, (f x).fixed = x.fixed) :
    TrailsBy P Q true (modify fun w => (w.modifyGenerator g f).setActivity (a w) : Exec σ Unit) :=
  .of_modify fun _ => .trans (.step (.course g f hf)) (.activity _)

theorem endActivity_trails (g : Ref .generator) {f : Generator → Generator}
    (hf : ∀ x, (f x).fixed = x.fixed) : TrailsBy P Q true (endActivity g f : Exec σ Unit) :=
  .of_modify fun _ => .trans (.activity _) (.step (.course g f hf))

theorem conclude_trails {c : Ref .context} {thrown : Option Exc} {r : Except Failure BodyResult}
    {w : World σ} (h : ∀ f, r = .error f → w.MayEscape Q c thrown f) (g : Ref .generator)
    (name : String) :
    Alike (conclude c g name thrown r) (conclude c g name thrown r) w
      fun _ v => w.Trail P Q true v := by
  have hend : ∀ {f : Generator → Generator} {event : TraceEvent} (o : Outcome) {u : World σ},
      w.Trail P Q true u → (∀ x, (f x).fixed = x.fixed) → event.isLookup = false →
      Alike (do endActivity g f; Exec.emit c g event; return o)
        (do endActivity g f; Exec.emit c g event; return o) u fun _ v => w.Trail P Q true v :=
    fun o _ hu hf he => ((endActivity_trails g hf).bind fun _ => .bind (.emit he c g) fun _ =>
      .pure o : TrailsBy P Q true _) _ |>.mono fun _ _ h => hu.trans h
  have hleft : w.Trail P Q true (w.record (.left g r)) := .step (.record _ (by simp))
  rcases r with f | s | v
  · let v := (w.record (.left g (.error f))).modifyGenerator g (·.finish)
    have hv : w.Trail P Q true v := hleft.trans (.step (.course g _ fun _ => rfl))
    have hescape : v.MayEscape Q c thrown f := by cases f <;> exact h _ rfl
    refine .step rfl (.step rfl (.bind (escape_trails (P := P) hescape g) fun f' u hu => ?_))
    exact hend _ (hv.trans hu.owned) (fun _ => rfl) rfl
  · exact .step rfl (hend _ hleft (fun _ => rfl) rfl)
  · exact .step rfl (hend _ hleft (fun _ => rfl) rfl)

theorem heeded_mayEscape {c : Ref .context} {thrown : Option Exc} {r : Except Failure BodyResult}
    {u : World σ} (h : ∀ f, r = .error f → u.MayEscape Q c thrown f) :
    ∃ r', (heeded r).run u = some (r', u) ∧ ∀ f, r' = .error f → u.MayEscape Q c thrown f := by
  cases r with
  | error f => exact ⟨_, rfl, h⟩
  | ok b =>
    cases ht : u.activation?.any (·.hasPendingThrow) with
    | true =>
      refine ⟨.error (.internal "call target ignored a thrown exception"), by simp [heeded, ht], ?_⟩
      rintro _ ⟨⟩
      trivial
    | false =>
      refine ⟨.ok b, by simp [heeded, ht], ?_⟩
      rintro _ ⟨⟩

theorem begun_trail (c : Ref .context) (g : Ref .generator) (p : Option Payload)
    (kind : ResumeKind) (w : World σ) : w.Trail P Q true (w.begun c g p kind) :=
  let a : Activation := ⟨(w.generator g).template.forResumption p, (w.generator g).offset⟩
  .trans (.step (.course g ({ · with state := .running }) fun _ => rfl)) <|
    .trans (.activity (.running a)) <|
    .trans (.step (.record (.entered g p) (by simp))) (.step (.told c g _ rfl))

theorem runBody_trails (he : e.Tracked P Q) (c : Ref .context) (g : Ref .generator)
    (p : Option Payload) (kind : ResumeKind) : TrailsBy P Q true (e.runBody c g p kind) := by
  intro w
  refine .step rfl (.step rfl (.step rfl (.step rfl (.step rfl ?_))))
  change Alike _ _ (w.begun c g p kind) _
  refine .bind ((perform_trails he c _ _).and .ran) fun r u ⟨hu, hrun⟩ => ?_
  have hmay : ∀ f, r = .error f → u.MayEscape Q c (p.bind (·.thrown?)) f := fun f hf =>
    he.escapes c g p kind w f u (hf ▸ hrun)
  obtain ⟨r', hr, hescape⟩ := heeded_mayEscape hmay
  refine .step hr ((conclude_trails (P := P) hescape g _).mono fun _ _ h => ?_)
  exact ((begun_trail c g p kind w).trans hu.owned).trans h

-- ---------------------------------------------------------------------------
-- Delegation
-- ---------------------------------------------------------------------------

theorem result_trails (o : Outcome) :
    TrailsBy P Q own (result o : Exec σ (Except Failure Value)) := by
  cases o with
  | returned v => exact .bind (.stopIteration v) fun _ => .pure _
  | _ => exact .pure _

theorem whileForwarding_trails (g sub : Ref .generator) {x : Exec σ α} (hx : TrailsBy P Q false x) :
    TrailsBy P Q true (whileForwarding g sub x) := by
  refine .bind (setCourse_trails g (fun _ => _) fun _ => rfl) fun _ => ?_
  refine .bind (.record nofun) fun _ => .bind hx.owned fun a => ?_
  exact .bind (setCourse_trails g (fun _ => _) fun _ => rfl) fun _ => .pure a

theorem resumeDelegate_trails (he : e.Tracked P Q) (c : Ref .context) (g sub : Ref .generator)
    (p : Payload) : TrailsBy P Q true (e.resumeDelegate c g sub p) := by
  refine .bind (whileForwarding_trails g sub ?_) fun a => .bind (.record nofun) fun _ => .pure a
  exact .bind (he.ask c _) fun o => result_trails o

theorem closeDelegate_trails (he : e.Tracked P Q) (c : Ref .context) (g sub : Ref .generator)
    (exit : Exc) (hostTrace : Bool) : TrailsBy P Q true (e.closeDelegate c g sub exit hostTrace) :=
  .bind (whileForwarding_trails g sub (he.ask c _)) fun a =>
    .bind (.record nofun) fun _ => .pure a

theorem dropDelegate_trails (g : Ref .generator) :
    TrailsBy P Q own (dropDelegate g : Exec σ Unit) := .modifyGenerator g fun _ => rfl

theorem settle_trails (he : e.Tracked P Q) (c : Ref .context) (g : Ref .generator)
    (a : Except Failure Value) : TrailsBy P Q true (e.settle c g a) := by
  cases a with
  | ok v => exact .bind .of_get fun _ => .bind (.emit rfl c g) fun _ => .pure _
  | error f =>
    refine .bind (dropDelegate_trails g) fun _ => ?_
    cases f.stopValue? with
    | some v => exact runBody_trails he c g _ _
    | none =>
      cases f with
      | raised r => exact runBody_trails he c g _ _
      | _ => exact .pure _

theorem forward_trails (he : e.Tracked P Q) (c : Ref .context) (g sub : Ref .generator)
    (v : Value) : TrailsBy P Q true (e.forward c g sub v) :=
  .bind (resumeDelegate_trails he c g sub _) fun a => settle_trails he c g a

theorem forwardThrow_trails (he : e.Tracked P Q) (c : Ref .context) (g sub : Ref .generator)
    (exc : Exc) (hostTrace : Bool) (kind : ResumeKind) :
    TrailsBy P Q true (e.forwardThrow c g sub exc hostTrace kind) := by
  refine .ite ?_ (.bind (resumeDelegate_trails he c g sub _) fun a => settle_trails he c g a)
  refine .bind (closeDelegate_trails he c g sub exc hostTrace) fun closed =>
    .bind (dropDelegate_trails g) fun _ => ?_
  rcases closed with f | _
  · cases f with
    | raised r => exact runBody_trails he c g _ _
    | _ => exact .pure _
  · exact runBody_trails he c g _ _

-- ---------------------------------------------------------------------------
-- Resumptions
-- ---------------------------------------------------------------------------

theorem enter_trails (P : Ref .context → Edit → Prop) (Q : Linking) (own : Bool) (c : Ref .context)
    (g : Ref .generator) (w : World σ) :
    Alike (Exec.enter c g) (Exec.enter c g) w fun a v => match a with
      | .error _ => w.Trail P Q own v
      | .ok () => ∀ u, v.Trail P Q true u → w.Trail P Q own (u.modifyContext c (·.leave)).pop := by
  unfold Exec.enter
  refine .step (x := get) (a := w) rfl ?_
  have hmeter : (w.context c).enter.2.tracer = (w.context c).tracer := by
    obtain ⟨_, _, he⟩ | ⟨_, _, _, he, _⟩ | ⟨he, _⟩ := (w.context c).enter_cases <;>
      simp [he, Context.entered]
  have hentered : w.Trail P Q own (w.modifyContext c fun _ => (w.context c).enter.2) :=
    .step (.meter c _ hmeter)
  cases hk : (w.context c).enter with
  | mk admitted entered =>
    rw [hk] at hentered
    refine .step rfl ?_
    cases admitted with
    | error cause =>
      exact .bind (TrailsBy.fault (.limit cause) _) fun f v hv => .pure (hentered.trans hv)
    | ok _ =>
      refine .step rfl (.pure fun u hu => hentered.trans ?_)
      exact .within (v := u.modifyContext c (·.leave)) _ (hu.trans (.step (.meter c _ rfl)))

theorem inward_trails (c : Ref .context) (g : Ref .generator) {x : Exec σ Outcome}
    (hx : TrailsBy P Q true x) : TrailsBy P Q own (inward c g x) := fun w => by
  refine .bind (enter_trails P Q own c g w) fun a v hv => ?_
  cases a with
  | error f => exact .pure hv
  | ok _ => exact .bind (hx v) fun o u hu => .step rfl (.pure (hv u hu))

theorem failed_trails (f : Fault) : TrailsBy P Q own (failed f : Exec σ Outcome) :=
  .bind (.fault f) fun _ => .pure _

theorem advance_trails (he : e.Tracked P Q) (c : Ref .context) (g : Ref .generator)
    (sent : Option Value) : TrailsBy P Q own (e.advance c g sent) := by
  refine .bind .of_get fun before => ?_
  dsimp only
  cases (before.generator g).state with
  | running => exact failed_trails _
  | finished => exact .bind (.stopIteration _) fun _ => .pure _
  | created | suspended =>
    refine .ite (failed_trails _) ?_
    cases (before.generator g).delegate with
    | some sub => exact inward_trails c g (forward_trails he c g sub _)
    | none => exact inward_trails c g (runBody_trails he c g _ _)

theorem finishAside_trails (c : Ref .context) (g : Ref .generator) :
    TrailsBy P Q own (finishAside c g : Exec σ Unit) :=
  .bind .of_get fun _ => .ite (.pure _) <|
    .bind (.modifyGenerator g fun _ => rfl) fun _ => .emit rfl c g

theorem throwAside_trails (c : Ref .context) (g : Ref .generator) (exc : Exc) (hostTrace : Bool) :
    TrailsBy P Q own (throwAside c g exc hostTrace : Exec σ Failure) :=
  .bind (finishAside_trails c g) fun _ => .bind .of_get fun _ =>
    .bind (.pushTraceback _ _) fun _ => .pure _

theorem inject_trails (he : e.Tracked P Q) (c : Ref .context) (g : Ref .generator) (exc : Exc)
    (hostTrace : Bool) : TrailsBy P Q own (e.inject c g exc hostTrace) := by
  refine .bind .of_get fun before => ?_
  dsimp only
  cases (before.generator g).state with
  | running => exact failed_trails _
  | created | finished => exact .bind (throwAside_trails c g exc hostTrace) fun _ => .pure _
  | suspended =>
    cases (before.generator g).delegate with
    | some sub => exact inward_trails c g (forwardThrow_trails he c g sub exc hostTrace _)
    | none => exact inward_trails c g (runBody_trails he c g _ _)

theorem resume_trails (he : e.Tracked P Q) (c : Ref .context) (g : Ref .generator)
    (p : Option Payload) : TrailsBy P Q own (e.resume c g p) := by
  rcases p with _ | v | ⟨exc, hostTrace⟩
  · exact advance_trails he c g none
  · exact advance_trails he c g (some v)
  · exact inject_trails he c g exc hostTrace

-- ---------------------------------------------------------------------------
-- Closing and throwing
-- ---------------------------------------------------------------------------

theorem exitBody_trails (he : e.Tracked P Q) (c : Ref .context) (g : Ref .generator) :
    TrailsBy P Q true (e.exitBody c g) := by
  refine .bind .of_get fun before => .bind (.newExc _ _ _) fun exit => ?_
  cases (before.generator g).delegate with
  | some sub => exact forwardThrow_trails he c g sub exit false .close
  | none => exact runBody_trails he c g _ .close

theorem finishAnyway_trails (c : Ref .context) (g : Ref .generator) :
    TrailsBy P Q own (finishAnyway c g : Exec σ Unit) :=
  .bind .of_get fun _ => .ite (.pure _) <|
    .bind (.modifyGenerator g fun _ => rfl) fun _ => .emit rfl c g

theorem closeResult_trails (o : Outcome) :
    TrailsBy P Q own (closeResult o : Exec σ (Except Failure Unit)) := by
  cases o with
  | yielded v => exact .bind (.fault _) fun _ => .pure _
  | returned v => exact .pure _
  | failed f => exact .ite (.pure _) (.pure _)

theorem close_trails (he : e.Tracked P Q) (c : Ref .context) (g : Ref .generator) :
    TrailsBy P Q own (e.close c g) := by
  refine .bind .of_get fun before => ?_
  cases (before.generator g).state with
  | running => exact .bind (.fault _) fun _ => .pure _
  | finished => exact .pure _
  | created => exact .bind (finishAside_trails c g) fun _ => .pure _
  | suspended =>
    intro w
    refine .bind (enter_trails P Q own c g w) fun a v hv => ?_
    cases a with
    | error f =>
      have hrest : TrailsBy P Q own (do
          dropDelegate g
          finishAside c g
          return .error f : Exec σ (Except Failure Unit)) :=
        .bind (dropDelegate_trails g) fun _ => .bind (finishAside_trails c g) fun _ => .pure _
      exact (hrest v).mono fun _ _ h => hv.trans h
    | ok _ =>
      refine .bind (exitBody_trails he c g v) fun o u hu => .step rfl ?_
      have hrest : TrailsBy P Q own (do
          finishAnyway c g
          closeResult o : Exec σ (Except Failure Unit)) :=
        .bind (finishAnyway_trails c g) fun _ => closeResult_trails o
      exact (hrest _).mono fun _ _ h => (hv u hu).trans h

theorem call_trails (he : e.Tracked P Q) (c : Ref .context) (f : Value) (args : List Value) :
    TrailsBy P Q false (e.call c f args) :=
  ((TrailsBy.congruence P Q).call (hooks_trails he c) f args).2

theorem madeException_trails (cls made : Value) :
    TrailsBy P Q own (madeException cls made : Exec σ Exc) := by
  unfold madeException
  split
  · exact .pure _
  · exact .bind .of_get fun _ => .bind (.newText _) fun _ => .newExc _ _ _

theorem prepareException_trails (he : e.Tracked P Q) (c : Ref .context) (type : Value)
    (value : Option Value) : TrailsBy P Q false (e.prepareException c type value) := by
  unfold prepareException
  dsimp only
  split
  · split
    · exact .pure _
    · refine .bind (call_trails he c type _) fun r => ?_
      cases r with
      | ok made => exact .bind (madeException_trails type made) fun _ => .pure _
      | error f => exact .pure _
  · split
    · exact .bind (.fault _) fun _ => .pure _
    · exact .pure _
    · exact .bind (.fault _) fun _ => .pure _

theorem givenTraceback_trails (t : Option Value) :
    TrailsBy P Q own (givenTraceback t : Exec σ (Except Failure (Option Traceback))) := by
  unfold givenTraceback
  split
  · exact .pure _
  · exact .pure _
  · exact .pure _
  · exact .bind (.fault _) fun _ => .pure _

theorem thrown_trails (he : e.Tracked P Q) (c : Ref .context) (g : Ref .generator) (type : Value)
    (value traceback : Option Value) : TrailsBy P Q false (e.thrown c g type value traceback) := by
  refine .bind .of_get fun _ => .ite (.bind (.fault _) fun _ => .pure _) ?_
  refine .bind (givenTraceback_trails traceback) fun t => ?_
  cases t with
  | error f => exact .pure _
  | ok t =>
    refine .bind (prepareException_trails he c type value) fun r => ?_
    cases r with
    | error f => exact .pure _
    | ok exc =>
      have hend : TrailsBy P Q false (do
          modify fun w => w.modifyLinks exc ({ · with context := none })
          return Except.ok exc : Exec σ (Except Failure Exc)) :=
        .bind (.modifyLinks exc fun _ _ => .inr rfl) fun _ => .pure _
      exact .ite (.bind (.modifyLinks exc fun _ _ => .inl rfl) fun _ => hend) hend

theorem throw_trails (he : e.Tracked P Q) (c : Ref .context) (g : Ref .generator) (type : Value)
    (value traceback : Option Value) : TrailsBy P Q false (e.throw c g type value traceback) := by
  refine .bind (thrown_trails he c g type value traceback) fun r => ?_
  cases r with
  | error f => exact .pure _
  | ok exc =>
    exact .bind .of_get fun _ => .bind (inject_trails he c g exc _) fun o => result_trails o

-- ---------------------------------------------------------------------------
-- Answers
-- ---------------------------------------------------------------------------

theorem make_trails (x : Creation α) : TrailsBy P Q own (x.make : Exec σ α) := by
  cases x with
  | identity => exact .newIdentity
  | text s => exact .newText s
  | cell v => exact .of_modifyGet fun _ => .cell v
  | frame layout => exact .of_modifyGet fun _ => .frame layout
  | exc type class? args => exact .newExc type class? args
  | context k => exact .of_modifyGet fun _ => .context k

theorem newGenerator_trails (t : Target) (args : List Value) :
    TrailsBy P Q false (Exec.call t args : Exec σ (Except Failure (Ref .generator))) := by
  intro w
  by_cases hargs : args.length = t.code.argumentCount
  · have hmade : (Exec.call t args).run w = some (.ok w.generators.next, w.generating t args) := by
      simp only [Exec.call, hargs, if_true]
      rfl
    exact .of_run hmade (.step (.generator hmade))
  · have hfault : TrailsBy P Q false (do
        return .error (← Exec.fault (.argumentCount t.code.name t.code.argumentCount args.length)) :
          Exec σ (Except Failure (Ref .generator))) := .bind (.fault _) fun _ => .pure _
    simp only [Exec.call, hargs, if_false]
    exact hfault w

theorem answer_trails (he : e.Tracked P Q) {c : Ref .context} {q : Request σ α} {w : World σ}
    (hq : q.Allowed P Q c w) :
    Alike (e.answer c q) (e.answer c q) w fun _ v => w.Trail P Q false v := by
  cases q with
  | look f => exact .of_run rfl .refl
  | here => exact .pure .refl
  | modifyHost f => exact .of_run rfl (.step (.host f))
  | edit x => exact .of_run rfl (.edit c hq)
  | create x => exact make_trails x w
  | hash v => exact ((TrailsBy.congruence P Q).hash (hooks_trails he c) v).2 w
  | equals a b => exact ((TrailsBy.congruence P Q).equals (hooks_trails he c) a b).2 w
  | call f args => exact call_trails he c f args w
  | newGenerator t args => exact newGenerator_trails t args w
  | resume g p => exact resume_trails he c g p w
  | throw g type value traceback => exact throw_trails he c g type value traceback w
  | close g => exact close_trails he c g w
  | take => exact TrailsBy.takePayload w
  | caller => exact (Exec.callerException_trails c w).mono fun _ _ h => h.2.2
  | chain exc => exact (Exec.chainCaller_trails hq).mono fun _ _ h => h.2

end Engine

namespace Host

def edits (P : Edit → Prop) : Rule σ := fun _ _ _ q _ _ _ => q.Only P

section

variable {rule : Rule σ} {P : Ref .context → Edit → Prop} {Q : Linking}

open Classical in
theorem watched_tracked {host : Host σ}
    (h : ∀ (α : Type) (e : Engine σ) (c : Ref .context) (q : Request σ α) (w : World σ) (a : α)
      (w' : World σ), rule α e c q w a w' → q.Allowed P Q c w)
    (hescapes : ∀ n, Engine.EscapesBy (σ := σ) Q ⟨host, host.watched rule n⟩) (n : Nat) :
    Engine.Tracked (σ := σ) P Q ⟨host, host.watched rule n⟩ := by
  refine ⟨fun {α} c q => ?_, hescapes n⟩
  induction n generalizing α c with
  | zero => exact fun w => ⟨rfl, fun a w' h => nomatch h⟩
  | succ n ih =>
    refine fun w => .self fun a w' hw => ?_
    obtain ⟨hrun, hrule⟩ := Option.filter_eq_some_iff.mp hw
    have hq := h _ _ _ _ _ _ _ (of_decide_eq_true hrule)
    exact (Engine.answer_trails ⟨ih, hescapes n⟩ hq).2 a w' hrun

/-- A run in which programs make only some edits, in some contexts. -/
theorem runWatched_trails
    (h : ∀ (α : Type) (e : Engine σ) (c : Ref .context) (q : Request σ α) (w : World σ) (a : α)
      (w' : World σ), rule α e c q w a w' → q.Only (P c))
    (host : Host σ) (n : Nat) (c : Ref .context) (p : Prog σ α) :
    Exec.Trails P false (host.runWatched rule n c p) :=
  Engine.perform_trails (watched_tracked (fun α e c q w a w' hr => (h α e c q w a w' hr).allowed w)
    (fun _ => Engine.escapesBy_any _) n) c p

end

theorem tracked (host : Host σ) (n : Nat) :
    Engine.Tracked (σ := σ) (fun _ _ => True) .any ⟨host, host.answer n⟩ := by
  refine ⟨fun {α} c q => ?_, Engine.escapesBy_any _⟩
  induction n generalizing α c with
  | zero => exact fun w => ⟨rfl, fun a w' h => nomatch h⟩
  | succ n ih =>
    exact fun w => Engine.answer_trails ⟨ih, Engine.escapesBy_any _⟩ (q.only_any.allowed w)

/-- What a run leads to, it leads to by a trail. -/
theorem run_trails (host : Host σ) (n : Nat) (c : Ref .context) (p : Prog σ α) :
    Exec.Trails (fun _ _ => True) false (host.run n c p) :=
  Engine.perform_trails (tracked host n) c p

end Host

end Resumable
