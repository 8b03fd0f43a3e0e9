import Resumable.Proofs.Run.Story
import Resumable.Proofs.Run.Watched

/-!
# Runs tell stories

While the operations on generators all take place in one context, what befalls generators is a story
that is told in it. An operation enters one level and leaves it again; what its body or its delegate
does in between is a story one level deeper.
-/

namespace Resumable

open Exec (Alike Follows Quiet)

variable {σ : Type}

-- ---------------------------------------------------------------------------
-- What is told between two worlds
-- ---------------------------------------------------------------------------

namespace World

variable {w v u w' : World σ} {c : Ref .context} {d k : Nat}

structure Deep (c : Ref .context) (d : Nat) (w : World σ) : Prop where
  valid : w.contexts.Valid c
  depth : (w.context c).depth = d

theorem Deep.steady (h : w.Deep c d) (hs : w.Steady w') : w'.Deep c d :=
  ⟨hs.valid c h.valid, (congrArg Meter.depth (hs.meter c h.valid)).trans h.depth⟩

theorem Deep.modifyContext {f : Context → Context} (h : w.Deep c d)
    (hf : ∀ x, (f x).depth = x.depth) (c' : Ref .context) :
    (w.modifyContext c' f).Deep c d := by
  refine ⟨(Store.valid_modify ..).mpr h.valid, ?_⟩
  by_cases hc : c = c'
  · subst hc
    exact (congrArg Context.depth (Store.get_modify_self _ f h.valid)).trans ((hf _).trans h.depth)
  · exact (congrArg Context.depth (Store.get_modify_of_ne _ f hc)).trans h.depth

/-- What happened is a story `d` levels deep, and the context is left `k` levels deep. -/
structure Recounts (c : Ref .context) (d k : Nat) (w w' : World σ) : Prop where
  deep : w'.Deep c k
  story : ∃ later, w'.history = later ++ w.history ∧ Story c d later w.history

namespace Recounts

theorem of_eq (h : w'.history = w.history) (hd : w'.Deep c k) : w.Recounts c d k w' :=
  ⟨hd, [], h, .nil⟩

theorem refl (hd : w.Deep c k) : w.Recounts c d k w := of_eq rfl hd

theorem trans (h : w.Recounts c d k v) (h' : v.Recounts c d k' w') : w.Recounts c d k' w' := by
  obtain ⟨mid, hmid, hfirst⟩ := h.story
  obtain ⟨later, hlater, hthen⟩ := h'.story
  rw [hmid] at hlater hthen
  exact ⟨h'.deep, later ++ mid, by rw [hlater, List.append_assoc], hfirst.append hthen⟩

theorem calm (h : w.Recounts c d k v) (hv : v.Calm w') : w.Recounts c d k w' :=
  h.trans (of_eq hv.history (h.deep.steady hv.toSteady))

end Recounts

theorem Kept.idle (h : w.Kept w') (hl : w'.history = later ++ w.history) :
    ∀ x ∈ later, dutyIn x.generator w.calls = none := by
  obtain ⟨later', hl', hd⟩ := h.follows
  obtain rfl : later = later' := List.append_cancel_right (hl.symm.trans hl')
  exact hd

end World

/-- Worlds are settled, the context is there, and what happens is told in it. -/
def Regime.telling (c : Ref .context) : Regime σ where
  Admits w := w.Settled ∧ w.contexts.Valid c
  Leads w w' := w.Kept w' ∧ w.Recounts c (w.context c).depth (w.context c).depth w'
  admits h := ⟨h.1.settled, h.2.deep.valid⟩
  trans h h' := ⟨h.1.trans h'.1, h.2.trans (h.2.deep.depth ▸ h'.2)⟩
  calm hw h := ⟨h.kept hw.1, .calm (.refl ⟨hw.2, rfl⟩) h⟩
  handling hw c' _ := ⟨(hw.1.modifyContext c' _).settled, (Store.valid_modify ..).mpr hw.2⟩
  handled {w c' e w'} hw h := by
    have hpushed : (w.modifyContext c' (·.handling e)).Deep c (w.context c).depth :=
      .modifyContext (f := (·.handling e)) ⟨hw.2, rfl⟩ (fun _ => rfl) c'
    obtain ⟨hkept, hdeep, hstory⟩ := h
    rw [hpushed.depth] at hdeep hstory
    exact ⟨((hw.1.modifyContext _ _).trans hkept).trans (hkept.settled.modifyContext _ _),
      hdeep.modifyContext (f := (·.handledOne)) (fun _ => rfl) c', hstory⟩
  hook hw := ⟨hw.1.push fun _ => rfl, hw.2⟩
  hooked _ h :=
    ⟨h.1.pop (fun _ => rfl) h.1.stack.eq_of_hook, ⟨h.2.deep.valid, h.2.deep.depth⟩, h.2.story⟩

namespace Engine

open World (Recounts)

variable {e : Engine σ} {c : Ref .context} {w v u : World σ} {d : Nat}

-- ---------------------------------------------------------------------------
-- The run of a body
-- ---------------------------------------------------------------------------

section

variable (hr : e.Under (.telling c) e) (hc : w.calls = .level ⟨g, c, .between⟩ :: rest)
  (hd : w.Deep c (d + 1))
include hr hc hd

theorem runBody_tells (hw : w.Coherent) (allows : (standing g w.history).Allows (.entered g p))
    (pays : ∀ g' q, standing g' w.history = .owed q →
      Happening.entered g p = .entered g' (some q)) (kind : ResumeKind) :
    Alike (e.runBody c g p kind) (e.runBody c g p kind) w fun _ w' =>
      w.Recounts c d (d + 1) w' := by
  have hbegun : (w.begun c g p kind).Deep c (d + 1) := hd.steady (.begun c g p kind w)
  refine (runBody_follows hr ⟨hw.begun hc allows pays kind, hbegun.valid⟩).mono ?_
  rintro _ w' ⟨v, b, t, ⟨hkept, hdeep, hstory⟩, hsteady, hhist, ht⟩
  rw [hbegun.depth] at hdeep hstory
  obtain ⟨nested, hnested, hstory⟩ := hstory
  have hne := others_of_begun hc (hkept.idle hnested)
  rw [World.history_begun, hd.depth] at hnested hstory
  refine ⟨hdeep.steady hsteady, _, ?_, .body allows hstory hne ht⟩
  rw [hhist, hnested]
  simp

end

-- ---------------------------------------------------------------------------
-- Delegation
-- ---------------------------------------------------------------------------

theorem deep_passedOn (hd : w.Deep c d) (g sub : Ref .generator) : (w.passedOn g sub).Deep c d :=
  hd.steady (.of_contexts (World.contexts_setActivity (w := w.modifyGenerator g _) _))

theorem steady_heard (h : Happening) (u : World σ) : u.Steady (u.heard h) :=
  .of_contexts (World.contexts_setActivity (w := u.modifyGenerator _ _) _)

section

variable (hc : w.calls = .level ⟨g, c, .between⟩ :: rest) (hd : w.Deep c (d + 1))
  (hu : (Regime.telling c).Leads (w.passedOn g sub) u)
include hc hd hu

theorem recounts_of_heard (last : List Happening) (hsteady : u.Steady w')
    (hhist : w'.history = last ++ u.history)
    (hlast : ∀ nested, Story c (d + 1) nested (.forwarded g sub :: w.history) →
      (∀ x ∈ nested, x.generator ≠ g) →
      Story c d (last ++ (nested ++ [.forwarded g sub])) w.history) :
    w.Recounts c d (d + 1) w' := by
  have hpassed := deep_passedOn hd g sub
  obtain ⟨hkept, hdeep, nested, hnested, hstory⟩ := hu
  have hidle := hkept.idle hnested
  rw [hpassed.depth] at hdeep hstory
  rw [World.history_passedOn] at hnested hstory
  rw [World.calls_passedOn hc] at hidle
  have hne : ∀ x ∈ nested, x.generator ≠ g := fun x hx hg =>
    World.dutyIn_ne_none (by simp [Activity.duty?]) (hg ▸ hidle x hx)
  exact ⟨hdeep.steady hsteady, _, by rw [hhist, hnested]; simp, hlast nested hstory hne⟩

variable (hs : standing g w.history = .suspended (some sub))
include hs

theorem yielded_recounts (v : Value) (name : String) (offset : Int) :
    w.Recounts c d (d + 1)
      ((u.heard (.answered g sub (.ok v))).told c g (.yield name offset)) :=
  recounts_of_heard hc hd hu [.traced c g (.yield name offset), .answered g sub (.ok v)]
    ((steady_heard _ u).trans (.told c g _ _)) (by simp [World.history_heard])
    fun _ hnested hne => .passed hs hnested hne

theorem stopped_recounts (f : Failure) :
    w.Recounts c d (d + 1) (u.givenUp (.answered g sub (.error f))) :=
  recounts_of_heard hc hd hu [.answered g sub (.error f)]
    ((steady_heard _ u).trans (.of_contexts rfl)) World.history_heard
    fun _ hnested hne => .stopped hs hnested hne

theorem exited_recounts (exit : Exc) (hostTrace : Bool) (a : Except Failure Unit) :
    w.Recounts c d (d + 1) (u.givenUp (.exited g sub exit hostTrace a)) :=
  recounts_of_heard hc hd hu [.exited g sub exit hostTrace a]
    ((steady_heard _ u).trans (.of_contexts rfl)) World.history_heard
    fun _ hnested hne => .exited hs hnested hne

variable (hr : e.Under (.telling c) e)
include hr

omit hd hs in
theorem delivered_tells {h : Happening} (hg : h.generator = g)
    (allows : (Standing.forwarding sub).Allows h)
    (hp : h.standing? = some (.ofDelivered (some p)))
    (hstopped : w.Recounts c d (d + 1) (u.givenUp h)) (kind : ResumeKind) :
    Alike (e.runBody c g (some p) kind) (e.runBody c g (some p) kind) (u.givenUp h)
      fun _ w' => w.Recounts c d (d + 1) w' := by
  obtain ⟨hcoh, hallows, hpays⟩ := hu.1.owing hc hg allows hp
  have hcalls : (u.givenUp h).calls = .level ⟨g, c, .between⟩ :: rest :=
    (hu.1.calls_heard hc h).trans hc
  exact (runBody_tells hr hcalls hstopped.deep hcoh hallows hpays kind).mono fun _ _ hrun =>
    hstopped.trans hrun

theorem settle_tells (a : Except Failure Value) :
    Alike (e.settle c g a) (e.settle c g a) (u.heard (.answered g sub a))
      fun _ w' => w.Recounts c d (d + 1) w' := by
  cases a with
  | ok v => exact .step rfl (.step rfl (.pure (yielded_recounts hc hd hu hs v _ _)))
  | error f =>
    refine .step rfl ?_
    change Alike _ _ (u.givenUp (.answered g sub (.error f))) _
    have hstopped := stopped_recounts hc hd hu hs f
    have hrun := fun p (hp : f.delivered? = some p) kind => delivered_tells hc hu hr
      (h := .answered g sub (.error f)) rfl .answered (congrArg (some ∘ Standing.ofDelivered) hp)
      hstopped kind
    unfold Failure.delivered? at hrun
    cases hv : f.stopValue? with
    | some v => exact hrun _ (by rw [hv]) .send
    | none =>
      cases f with
      | raised r => exact hrun _ (by rw [hv]) .throw
      | _ => exact .pure hstopped

end

section

variable (hr : e.Under (.telling c) e) (hw : w.Settled)
  (hc : w.calls = .level ⟨g, c, .between⟩ :: rest) (hd : w.Deep c (d + 1))
  (hs : standing g w.history = .suspended (some sub))
include hr hw hc hd hs

theorem forward_tells (v : Value) :
    Alike (e.forward c g sub v) (e.forward c g sub v) w fun _ w' => w.Recounts c d (d + 1) w' := by
  have hpassed := deep_passedOn hd g sub
  refine .bind (resumeDelegate_follows hr ⟨hw.passedOn hc hs, hpassed.valid⟩ c (.send v)) ?_
  rintro a _ ⟨u, hu, rfl⟩
  exact settle_tells hc hd hu hs hr a

theorem forwardThrow_tells (exc : Exc) (hostTrace : Bool) (kind : ResumeKind) :
    Alike (e.forwardThrow c g sub exc hostTrace kind) (e.forwardThrow c g sub exc hostTrace kind) w
      fun _ w' => w.Recounts c d (d + 1) w' := by
  have hpassed : (Regime.telling c).Admits (w.passedOn g sub) :=
    ⟨hw.passedOn hc hs, (deep_passedOn hd g sub).valid⟩
  unfold forwardThrow
  split
  · refine .bind (closeDelegate_follows hr hpassed c exc hostTrace) ?_
    rintro a _ ⟨u, hu, rfl⟩
    refine .step rfl ?_
    change Alike _ _ (u.givenUp (.exited g sub exc hostTrace a)) _
    have hstopped := exited_recounts hc hd hu hs exc hostTrace a
    have hrun := fun p (hp : exitDelivered? exc hostTrace a = some p) => delivered_tells hc hu hr
      (h := .exited g sub exc hostTrace a) rfl .exited (congrArg (some ∘ Standing.ofDelivered) hp)
      hstopped kind
    rcases a with f | _
    · cases f with
      | raised r => exact hrun _ rfl
      | _ => exact .pure hstopped
    · exact hrun _ rfl
  · refine .bind (resumeDelegate_follows hr hpassed c (.throw exc hostTrace)) ?_
    rintro a _ ⟨u, hu, rfl⟩
    exact settle_tells hc hd hu hs hr a

end

-- ---------------------------------------------------------------------------
-- Operations
-- ---------------------------------------------------------------------------

theorem quiet_tells {x : Exec σ α} (hx : Quiet x) (hd : w.Deep c d) :
    Alike x x w fun _ w' => w.Recounts c d d w' := (hx w).mono fun _ _ h => .calm (.refl hd) h

theorem closed_recounts {f : Generator → Generator} (hs : standing g w.history ≠ .finished)
    (hd : w.Deep c d) (name : String) :
    w.Recounts c d d ((w.modifyGenerator g f).told c g (.finish name .closed)) :=
  have hset : w.Steady (w.modifyGenerator g f) := .of_contexts rfl
  ⟨hd.steady (hset.trans (.told c g _ _)), [_], rfl, .closed hs⟩

theorem not_finished (hw : w.Coherent) (h : (w.generator g).state ≠ .finished) :
    standing g w.history ≠ .finished :=
  fun hs => h ((hw.state_eq g).trans (congrArg Standing.state hs))

section

variable (hs : (w.generator g).state ≠ .finished → standing g w.history ≠ .finished)
  (hd : w.Deep c d)
include hs hd

theorem finishing_tells (f : Generator → Generator) :
    let finishing : Exec σ Unit := do
      let gen := (← get).generator g
      unless gen.state = .finished do
        modify fun w => w.modifyGenerator g f
        Exec.emit c g (.finish gen.qualifiedName .closed)
    Alike finishing finishing w fun _ w' => w.Recounts c d d w' := by
  refine .step (x := get) (a := w) rfl ?_
  dsimp only
  split
  · exact .pure (.refl hd)
  · next h => exact .step rfl (.of_run rfl (closed_recounts (hs h) hd _))

theorem finishAside_tells :
    Alike (finishAside c g) (finishAside c g) w fun _ w' => w.Recounts c d d w' :=
  finishing_tells hs hd _

theorem finishAnyway_tells :
    Alike (finishAnyway c g) (finishAnyway c g) w fun _ w' => w.Recounts c d d w' :=
  finishing_tells hs hd _

end

theorem enter_deep (hd : w.Deep c d) (g : Ref .generator) :
    Alike (Exec.enter c g) (Exec.enter c g) w fun a v => v.history = w.history ∧ match a with
      | .error _ => v.Deep c d
      | .ok () => v.Deep c (d + 1) := by
  unfold Exec.enter
  refine .step (x := get) (a := w) rfl ?_
  have hentered : (w.modifyContext c fun _ => (w.context c).enter.2).Deep c
      (w.context c).enter.2.depth :=
    ⟨(Store.valid_modify ..).mpr hd.valid,
      congrArg Context.depth (Store.get_modify_self _ _ hd.valid)⟩
  cases hk : (w.context c).enter with
  | mk admitted entered =>
    rw [hk] at hentered
    refine .step rfl ?_
    cases admitted with
    | error cause =>
      refine .bind (Quiet.fault (.limit cause) _) fun f v hv => .pure ⟨hv.history, ?_⟩
      have hdepth := Context.depth_enter_of_error (congrArg Prod.fst hk)
      rw [hk, hd.depth] at hdepth
      exact (hdepth ▸ hentered).steady hv.toSteady
    | ok _ =>
      have hdepth := (Context.depth_leave_enter (congrArg Prod.fst hk)).1
      rw [hk, hd.depth] at hdepth
      exact .step rfl (.pure ⟨rfl, (hdepth ▸ hentered).valid, (hdepth ▸ hentered).depth⟩)

theorem enter_tells (hw : w.Settled) (hd : w.Deep c d) (g : Ref .generator) :
    Alike (Exec.enter c g) (Exec.enter c g) w fun a v => v.history = w.history ∧ match a with
      | .error _ => w.Idle v ∧ v.Deep c d
      | .ok () => v.Settled ∧ v.calls = .level ⟨g, c, .between⟩ :: w.calls ∧ v.Deep c (d + 1) := by
  refine ((enter_alike c g w).and (enter_deep hd g)).mono ?_
  rintro a v ⟨hv, hhist, hdeep⟩
  refine ⟨hhist, ?_⟩
  cases a with
  | error f => exact ⟨hv, hdeep⟩
  | ok _ =>
    obtain ⟨u, hu, hcalls, rfl⟩ := hv
    exact ⟨(hu.kept hw).settled.push World.duty?_between, congrArg _ hcalls, hdeep⟩

theorem left_recounts (hhist : v.history = w.history) (h : v.Recounts c d (d + 1) u) :
    w.Recounts c d d (u.modifyContext c (·.leave)).pop := by
  obtain ⟨hdeep, later, hlater, hstory⟩ := h
  refine ⟨⟨(Store.valid_modify ..).mpr hdeep.valid, ?_⟩, later, by rw [← hhist, ← hlater]; rfl,
    hhist ▸ hstory⟩
  refine (congrArg Context.depth (Store.get_modify_self _ _ hdeep.valid)).trans ?_
  exact congrArg (· - 1) hdeep.depth

theorem inward_tells {x : Exec σ Outcome} (hw : w.Settled) (hd : w.Deep c d)
    (hx : ∀ v, v.Settled → v.calls = .level ⟨g, c, .between⟩ :: w.calls → v.Deep c (d + 1) →
      v.history = w.history → Alike x x v fun _ w' => v.Recounts c d (d + 1) w') :
    Alike (inward c g x) (inward c g x) w fun _ w' => w.Recounts c d d w' := by
  refine .bind (enter_tells hw hd g) fun a v ⟨hhist, hv⟩ => ?_
  cases a with
  | error f => exact .pure (.of_eq hhist hv.2)
  | ok _ =>
    obtain ⟨hsettled, hcalls, hdeep⟩ := hv
    refine .bind (hx v hsettled hcalls hdeep hhist) fun o u hu => .step rfl (.pure ?_)
    exact left_recounts hhist hu

section

variable (hr : e.Under (.telling c) e) (hw : w.Settled) (hd : w.Deep c d)
include hr hw hd

theorem runBody_inward_tells (kind : ResumeKind)
    (allows : (standing g w.history).Allows (.entered g p)) :
    Alike (inward c g (e.runBody c g p kind)) (inward c g (e.runBody c g p kind)) w fun _ w' =>
      w.Recounts c d d w' :=
  inward_tells hw hd fun _ hv hcalls hdeep hhist =>
    runBody_tells hr hcalls hdeep hv.toCoherent (hhist ▸ allows)
      (fun g p h => absurd h (hv.paid g p)) kind

theorem advance_tells (g : Ref .generator) (sent : Option Value) :
    Alike (e.advance c g sent) (e.advance c g sent) w fun _ w' => w.Recounts c d d w' :=
  advance_inward hw (fun hx => quiet_tells hx hd)
    (fun _ kind allows => runBody_inward_tells hr hw hd kind allows)
    (fun _ v hs => inward_tells hw hd fun _ hv hcalls hdeep hhist =>
      forward_tells hr hv hcalls hdeep (hhist ▸ hs) v) sent

theorem inject_tells (g : Ref .generator) (exc : Exc) (hostTrace : Bool) :
    Alike (e.inject c g exc hostTrace) (e.inject c g exc hostTrace) w fun _ w' =>
      w.Recounts c d d w' := by
  refine inject_inward hw (fun hx => quiet_tells hx hd) (fun _ _ => ?_)
    (fun _ kind allows => runBody_inward_tells hr hw hd kind allows)
    fun _ kind hs => inward_tells hw hd fun _ hv hcalls hdeep hhist =>
      forwardThrow_tells hr hv hcalls hdeep (hhist ▸ hs) exc hostTrace kind
  refine .bind (finishAside_tells (not_finished hw.toCoherent) hd) fun _ v hv => ?_
  exact (raisedAside_quiet g exc hostTrace v).mono fun _ _ h => hv.calm h

theorem resume_tells (g : Ref .generator) (p : Option Payload) :
    Alike (e.resume c g p) (e.resume c g p) w fun _ w' => w.Recounts c d d w' := by
  rcases p with _ | v | ⟨exc, hostTrace⟩
  · exact advance_tells hr hw hd g none
  · exact advance_tells hr hw hd g (some v)
  · exact inject_tells hr hw hd g exc hostTrace

end

theorem exitBody_tells (hr : e.Under (.telling c) e) (hw : w.Settled)
    (hc : w.calls = .level ⟨g, c, .between⟩ :: rest) (hd : w.Deep c (d + 1))
    (hs : standing g w.history = .suspended sub) :
    Alike (e.exitBody c g) (e.exitBody c g) w fun _ w' => w.Recounts c d (d + 1) w' := by
  have hdelegate : (w.generator g).delegate = sub := by
    rw [hw.delegate_eq, hs]
    rfl
  refine .step (x := get) (a := w) rfl ?_
  dsimp only
  refine .bind (Quiet.newExc .generatorExit none [] w) fun exit v hv => ?_
  have hsettled := (hv.kept hw).settled
  have hcalls := (hc ▸ hv.stack).eq_of_between
  have hmade : w.Recounts c d (d + 1) v := .calm (.refl hd) hv
  rw [← hv.history] at hs
  rw [hdelegate]
  cases sub with
  | none =>
    refine (runBody_tells hr hcalls hmade.deep hsettled.toCoherent ?_
      (fun g p h => absurd h (hsettled.paid g p)) _).mono fun _ _ h => hmade.trans h
    rw [hs]
    exact .resumed
  | some sub =>
    exact (forwardThrow_tells hr hsettled hcalls hmade.deep hs exit false .close).mono fun _ _ h =>
      hmade.trans h

theorem close_tells (he : e.Trusts e) (hr : e.Under (.telling c) e) (hw : w.Settled)
    (hd : w.Deep c d) (g : Ref .generator) :
    Alike (e.close c g) (e.close c g) w fun _ w' => w.Recounts c d d w' := by
  refine .step (x := get) (a := w) rfl ?_
  cases hs : (w.generator g).state with
  | running => exact quiet_tells (.bind (.fault .alreadyExecuting) fun _ => .pure _) hd
  | finished => exact .pure (.refl hd)
  | created =>
    exact .bind (finishAside_tells (not_finished hw.toCoherent) hd) fun _ v hv => .pure hv
  | suspended =>
    have hstands := hw.standing_of_suspended hs
    refine .bind ((enter_alike c g w).and (enter_tells hw hd g)) fun a v ⟨hv, hhist, htells⟩ => ?_
    cases a with
    | error f =>
      have hdropped : (v.modifyGenerator g ({ · with delegate := none })).Deep c d :=
        ⟨htells.2.valid, htells.2.depth⟩
      have hentered : w.Recounts c d d (v.modifyGenerator g ({ · with delegate := none })) :=
        .of_eq hhist hdropped
      refine .step rfl (.bind (finishAside_tells (fun _ => ?_) hdropped) fun _ u hu =>
        .pure (hentered.trans hu))
      rw [World.history_modifyGenerator, hhist, hstands]
      nofun
    | ok _ =>
      obtain ⟨v, hidle, hcalls, rfl⟩ := hv
      obtain ⟨hsettled, htop, hdeep⟩ := htells
      have hexit := (exitBody_alike he hsettled htop (hhist ▸ hstands)).and
        (exitBody_tells hr hsettled htop hdeep (hhist ▸ hstands))
      refine .bind hexit fun o u ⟨hresumed, hu⟩ => .step rfl ?_
      have hleft := left_recounts hhist hu
      have hcoherent := (hresumed.leave (f := (·.leave))).settled.toCoherent
      refine .bind (finishAnyway_tells (not_finished hcoherent) hleft.deep) fun _ x hx => ?_
      exact (closeResult_quiet o x).mono fun _ _ h => (hleft.trans hx).calm h

-- ---------------------------------------------------------------------------
-- Requests
-- ---------------------------------------------------------------------------

theorem answer_telling (he : e.Trusts e) (hr : e.Under (.telling c) e) {q : Request σ α}
    (hq : q.Operates → c' = c) : Follows (.telling c) (e.answer c' q) (e.answer c' q) := by
  refine answer_follows hr c' q (fun t frame args w hw => ?_) (fun hop g p w hw => ?_)
    fun hop g w hw => ?_
  · have habsent : standing w.generators.next w.history = .absent :=
      Classical.not_not.mp fun h => w.generators.not_valid_next ((hw.1.made _).mpr h)
    exact .of_run rfl ⟨hw.1.making t frame args, ⟨hw.2, rfl⟩, [_], rfl, .created habsent⟩
  · obtain rfl := hq hop
    exact ((resume_alike he hw.1 c' g p).and (resume_tells hr hw.1 ⟨hw.2, rfl⟩ g p)).mono
      fun _ _ h => ⟨h.1.kept, h.2⟩
  · obtain rfl := hq hop
    exact ((close_alike he hw.1 c' g).and (close_tells he hr hw.1 ⟨hw.2, rfl⟩ g)).mono
      fun _ _ h => ⟨h.1.1, h.2⟩

end Engine

namespace Host

def operatesIn (c : Ref .context) : Rule σ := fun _ _ c' q _ _ _ => q.Operates → c' = c

open Classical in
theorem watched_telling (host : Host σ) (c : Ref .context) (n : Nat) :
    Engine.Under (σ := σ) (.telling c) ⟨host, host.watched (operatesIn c) n⟩
      ⟨host, host.watched (operatesIn c) n⟩ where
  host := rfl
  ask {α} c' q := by
    induction n generalizing α c' with
    | zero => exact fun w _ => ⟨rfl, fun a w' h => nomatch h⟩
    | succ n ih =>
      refine fun w hw => ⟨rfl, fun a w' h => ?_⟩
      obtain ⟨hrun, hrule⟩ := Option.filter_eq_some_iff.mp h
      have hin := of_decide_eq_true hrule
      have htrusts := watched_under (r := .settled) Engine.answer_keeps host (operatesIn c) n
      exact (Engine.answer_telling htrusts ⟨rfl, ih⟩ hin w hw).2 a w' hrun

/-- A run in which all operations take place in one context tells a story in it. -/
theorem runWatched_tells {host : Host σ} {p : Prog σ α} {w w' : World σ} (hw : w.Settled)
    (hd : w.Deep c d) (h : (host.runWatched (operatesIn c) n c' p).run w = some (a, w')) :
    w.Kept w' ∧ w.Recounts c d d w' := by
  obtain ⟨hvalid, rfl⟩ := hd
  exact (Engine.perform_follows (watched_telling host c n) c' p w ⟨hw, hvalid⟩).2 a w' h

end Host

end Resumable
