import Resumable.Proofs.Run.Balance

/-!
# Depths that are told

What is told of a run of a body says how deep it is. An operation on a generator runs its body one
level in: as deep as the levels on the stack where the operation began, and one more.
-/

namespace Resumable

open Exec (Alike Quiet)

variable {σ : Type}

namespace World

variable {w v u w' : World σ}

/-- Every run of the body of `g` between two worlds was told of in `c`, at the depth `d`. -/
def StartsAt (c : Ref .context) (g : Ref .generator) (d : Nat) (w w' : World σ) : Prop :=
  ∃ later, w'.history = later ++ w.history ∧
    ∀ c' name kind d', .traced c' g (.resume name kind d') ∈ later → c' = c ∧ d' = d

namespace StartsAt

theorem of_eq (h : w'.history = w.history) : w.StartsAt c g d w' := ⟨[], h, by simp⟩

theorem of_other {h : Happening} (hh : w'.history = h :: w.history)
    (hne : ∀ c' name kind d', h ≠ .traced c' g (.resume name kind d')) : w.StartsAt c g d w' :=
  ⟨[h], hh, fun c' name kind d' hx => absurd (List.mem_singleton.mp hx).symm (hne c' name kind d')⟩

theorem trans (h : w.StartsAt c g d v) (h' : v.StartsAt c g d w') : w.StartsAt c g d w' := by
  obtain ⟨xs, hx, hxs⟩ := h
  obtain ⟨ys, hy, hys⟩ := h'
  refine ⟨ys ++ xs, by rw [hy, hx, List.append_assoc], fun c' name kind d' hm => ?_⟩
  rcases List.mem_append.mp hm with hm | hm
  · exact hys c' name kind d' hm
  · exact hxs c' name kind d' hm

theorem of_kept (h : w.Kept w') (hd : dutyIn g w.calls ≠ none) : w.StartsAt c g d w' := by
  obtain ⟨later, hl, hlater⟩ := h.follows
  exact ⟨later, hl, fun _ _ _ _ hx => absurd (hlater _ hx) hd⟩

theorem of_runBody (h : w.RunBody c g p w') : w.StartsAt c g (w.context c).depth w' := by
  obtain ⟨name, kind, e, r, later, hh, he, hne⟩ := h
  refine ⟨.traced c g e :: .left g r :: (later ++
    [.traced c g (.resume name kind (w.context c).depth), .entered g p]), by simp [hh], ?_⟩
  intro c' name' kind' d' hx
  simp only [List.mem_cons, List.mem_append, List.not_mem_nil, or_false, Happening.traced.injEq,
    TraceEvent.resume.injEq, reduceCtorEq, false_or] at hx
  rcases hx with ⟨-, -, rfl⟩ | hx | ⟨rfl, -, -, -, rfl⟩
  · exact absurd rfl (he name' kind' d')
  · exact absurd rfl (hne _ hx)
  · exact ⟨rfl, rfl⟩

theorem heard (hc : w.calls = .level ⟨g, c, .between⟩ :: rest) (hu : (w.passedOn g sub).Kept u)
    {h : Happening} (hne : ∀ c' name kind d', h ≠ .traced c' g (.resume name kind d')) :
    w.StartsAt c g d (u.heard h) := by
  have hpassed : w.StartsAt c g d (w.passedOn g sub) := .of_other history_passedOn nofun
  have hduty : dutyIn g (w.passedOn g sub).calls ≠ none := by
    rw [calls_passedOn hc]
    exact dutyIn_ne_none (by simp [Activity.duty?])
  exact (hpassed.trans (.of_kept hu hduty)).trans (.of_other history_heard hne)

end StartsAt

end World

namespace Engine

variable {k : Context} {c : Ref .context} {e : Engine σ} {w u : World σ}

-- ---------------------------------------------------------------------------
-- Delegation
-- ---------------------------------------------------------------------------

section

variable (he : e.Trusts e) (hc : w.calls = .level ⟨g, c, .between⟩ :: rest)
include he hc

theorem delivered_startsAt (hu : (w.passedOn g sub).Kept u) (hg : h.generator = g)
    (allows : (Standing.forwarding sub).Allows h)
    (hd : h.standing? = some (.ofDelivered (some p))) (hdepth : ((u.heard h).context c).depth = d)
    (kind : ResumeKind) :
    Alike (e.runBody c g (some p) kind) (e.runBody c g (some p) kind) (u.givenUp h)
      fun _ w' => w.StartsAt c g d w' := by
  obtain ⟨hcoh, hallows, hpays⟩ := hu.owing hc hg allows hd
  have hcalls : (u.givenUp h).calls = .level ⟨g, c, .between⟩ :: rest :=
    (hu.calls_heard hc h).trans hc
  have hheard : w.StartsAt c g d (u.heard h) := by
    refine .heard hc hu ?_
    rintro c' name kind d' rfl
    cases allows
  refine (runBody_history he hcoh hcalls hallows hpays kind).mono fun _ w' hr => ?_
  have hrun : (u.givenUp h).StartsAt c g d w' := hdepth ▸ .of_runBody hr
  exact hheard.trans hrun

theorem settle_startsAt (hu : (w.passedOn g sub).Kept u) (a : Except Failure Value)
    (hdepth : ((u.heard (.answered g sub a)).context c).depth = d) :
    Alike (e.settle c g a) (e.settle c g a) (u.heard (.answered g sub a))
      fun _ w' => w.StartsAt c g d w' := by
  have hheard : w.StartsAt c g d (u.heard (.answered g sub a)) := .heard hc hu nofun
  cases a with
  | ok v => exact .step rfl (.step rfl (.pure (hheard.trans (.of_other rfl nofun))))
  | error f =>
    refine .step rfl ?_
    change Alike _ _ (u.givenUp (.answered g sub (.error f))) _
    have hrun := fun p (hp : f.delivered? = some p) kind => delivered_startsAt he hc hu
      (h := .answered g sub (.error f)) rfl .answered (congrArg (some ∘ Standing.ofDelivered) hp)
      hdepth kind
    unfold Failure.delivered? at hrun
    cases hv : f.stopValue? with
    | some v => exact hrun _ (by rw [hv]) .send
    | none =>
      cases f with
      | raised r => exact hrun _ (by rw [hv]) .throw
      | _ => exact .pure hheard

variable (hr : e.Under (.metered k c) e) (hw : w.Settled) (hm : w.Metered k c)
  (hk : w.Solvent k c 0) (hs : standing g w.history = .suspended (some sub))
include hr hw hm hk hs

theorem resumeDelegate_startsAt (p : Payload) :
    Alike (e.resumeDelegate c g sub p) (e.resumeDelegate c g sub p) w fun a v =>
      ∃ u, (w.passedOn g sub).Kept u ∧ v = u.heard (.answered g sub a) ∧
        (v.context c).depth = (w.context c).depth := by
  have hmeters := resumeDelegate_meters hr c g sub p w hm hk
  refine ((resumeDelegate_alike he hw hc hs p).and hmeters).mono ?_
  rintro a v ⟨⟨u, hu, hv⟩, hspends⟩
  exact ⟨u, hu, hv, hspends.depth⟩

theorem forward_startsAt (v : Value) :
    Alike (e.forward c g sub v) (e.forward c g sub v) w fun _ w' =>
      w.StartsAt c g (w.context c).depth w' := by
  refine .bind (resumeDelegate_startsAt he hc hr hw hm hk hs (.send v)) ?_
  rintro a _ ⟨u, hu, rfl, hdepth⟩
  exact settle_startsAt he hc hu a hdepth

theorem forwardThrow_startsAt (exc : Exc) (hostTrace : Bool) (kind : ResumeKind) :
    Alike (e.forwardThrow c g sub exc hostTrace kind) (e.forwardThrow c g sub exc hostTrace kind) w
      fun _ w' => w.StartsAt c g (w.context c).depth w' := by
  unfold forwardThrow
  split
  · refine .bind ((closeDelegate_alike he hw hc hs exc hostTrace).and
      (closeDelegate_meters hr c g sub exc hostTrace w hm hk)) ?_
    rintro a _ ⟨⟨u, hu, rfl⟩, hspends⟩
    refine .step rfl ?_
    change Alike _ _ (u.givenUp (.exited g sub exc hostTrace a)) _
    have hrun := fun p (hp : exitDelivered? exc hostTrace a = some p) => delivered_startsAt he hc hu
      (h := .exited g sub exc hostTrace a) rfl .exited (congrArg (some ∘ Standing.ofDelivered) hp)
      hspends.depth kind
    rcases a with f | _
    · cases f with
      | raised r => exact hrun _ rfl
      | _ => exact .pure (.heard hc hu nofun)
    · exact hrun _ rfl
  · refine .bind (resumeDelegate_startsAt he hc hr hw hm hk hs (.throw exc hostTrace)) ?_
    rintro a _ ⟨u, hu, rfl, hdepth⟩
    exact settle_startsAt he hc hu a hdepth

end

-- ---------------------------------------------------------------------------
-- Operations
-- ---------------------------------------------------------------------------

theorem quiet_startsAt {x : Exec σ α} (hx : Quiet x) (c : Ref .context) (g : Ref .generator)
    (d : Nat) : Alike x x w fun _ w' => w.StartsAt c g d w' :=
  (hx w).mono fun _ _ h => .of_eq h.history

theorem finishAside_startsAt (c : Ref .context) (g : Ref .generator) (d : Nat) (w : World σ) :
    Alike (finishAside c g) (finishAside c g) w fun _ w' => w.StartsAt c g d w' := by
  refine .step (x := get) (a := w) rfl (.ite (.pure (.of_eq rfl)) (.step rfl (.of_run rfl ?_)))
  exact .of_other rfl nofun

/-- One level in it is deeper by one. -/
theorem enter_startsAt (hw : w.Settled) (hm : w.Metered k c) (hk : w.Solvent k c 0)
    (g : Ref .generator) :
    Alike (Exec.enter c g) (Exec.enter c g) w fun a v => v.history = w.history ∧ (a = .ok () →
      v.Settled ∧ v.Metered k c ∧ v.Solvent k c 0 ∧
        v.calls = .level ⟨g, c, .between⟩ :: w.calls ∧
        (v.context c).depth = levelsIn c w.calls + 1) := by
  refine ((enter_alike c g w).and (enter_meters hm hk c g)).mono fun a v ⟨hv, hmeters⟩ => ?_
  cases a with
  | error f => exact ⟨hv.history, nofun⟩
  | ok _ =>
    obtain ⟨u, hu, hcalls, rfl⟩ := hv
    obtain ⟨hmetered, hsolvent, -⟩ := hmeters
    have hstack : (u.push (.level ⟨g, c, .between⟩)).calls = .level ⟨g, c, .between⟩ :: w.calls :=
      congrArg _ hcalls
    refine ⟨hu.history, fun _ => ⟨(hu.kept hw).settled.push World.duty?_between, hmetered,
      hsolvent.mono (Nat.zero_le _), hstack, ?_⟩⟩
    rw [hmetered.depth, hstack, levelsIn_level, fare, if_pos rfl]

theorem inward_startsAt {x : Exec σ Outcome} (hw : w.Settled) (hm : w.Metered k c)
    (hk : w.Solvent k c 0)
    (hx : ∀ v, v.Settled → v.Metered k c → v.Solvent k c 0 →
      v.calls = .level ⟨g, c, .between⟩ :: w.calls → v.history = w.history →
      Alike x x v fun _ w' => v.StartsAt c g (v.context c).depth w') :
    Alike (inward c g x) (inward c g x) w fun _ w' =>
      w.StartsAt c g (levelsIn c w.calls + 1) w' := by
  refine .bind (enter_startsAt hw hm hk g) fun a v ⟨hhist, hv⟩ => ?_
  cases a with
  | error f => exact .pure (.of_eq hhist)
  | ok _ =>
    obtain ⟨hsettled, hmetered, hsolvent, hcalls, hdepth⟩ := hv rfl
    refine .bind (hx v hsettled hmetered hsolvent hcalls hhist) fun o u hu => .step rfl (.pure ?_)
    rw [hdepth] at hu
    exact (World.StartsAt.of_eq hhist).trans (hu.trans (.of_eq rfl))

theorem runBody_startsAt (he : e.Trusts e) (hw : w.Settled)
    (hc : w.calls = .level ⟨g, c, .between⟩ :: rest)
    (allows : (standing g w.history).Allows (.entered g p)) (kind : ResumeKind) :
    Alike (e.runBody c g p kind) (e.runBody c g p kind) w fun _ w' =>
      w.StartsAt c g (w.context c).depth w' :=
  (runBody_history he hw.toCoherent hc allows (fun g p h => absurd h (hw.paid g p)) kind).mono
    fun _ _ h => .of_runBody h

section

variable (he : e.Trusts e) (hr : e.Under (.metered k c) e) (hw : w.Settled) (hm : w.Metered k c)
  (hk : w.Solvent k c 0)
include he hr hw hm hk

omit hr in
theorem runBody_inward_startsAt (kind : ResumeKind)
    (allows : (standing g w.history).Allows (.entered g p)) :
    Alike (inward c g (e.runBody c g p kind)) (inward c g (e.runBody c g p kind)) w fun _ w' =>
      w.StartsAt c g (levelsIn c w.calls + 1) w' :=
  inward_startsAt hw hm hk fun _ hv _ _ hcalls hhist =>
    runBody_startsAt he hv hcalls (hhist ▸ allows) kind

theorem advance_startsAt (g : Ref .generator) (sent : Option Value) :
    Alike (e.advance c g sent) (e.advance c g sent) w fun _ w' =>
      w.StartsAt c g (levelsIn c w.calls + 1) w' :=
  advance_inward hw (fun hx => quiet_startsAt hx c g _)
    (fun _ kind allows => runBody_inward_startsAt he hw hm hk kind allows)
    (fun _ v hs => inward_startsAt hw hm hk fun _ hv hvm hvk hcalls hhist =>
      forward_startsAt he hcalls hr hv hvm hvk (hhist ▸ hs) v) sent

theorem inject_startsAt (g : Ref .generator) (exc : Exc) (hostTrace : Bool) :
    Alike (e.inject c g exc hostTrace) (e.inject c g exc hostTrace) w fun _ w' =>
      w.StartsAt c g (levelsIn c w.calls + 1) w' := by
  refine inject_inward hw (fun hx => quiet_startsAt hx c g _) (fun _ _ => ?_)
    (fun _ kind allows => runBody_inward_startsAt he hw hm hk kind allows)
    fun _ kind hs => inward_startsAt hw hm hk fun _ hv hvm hvk hcalls hhist =>
      forwardThrow_startsAt he hcalls hr hv hvm hvk (hhist ▸ hs) exc hostTrace kind
  refine .bind (finishAside_startsAt c g (levelsIn c w.calls + 1) w) fun _ v hv => ?_
  exact (quiet_startsAt (raisedAside_quiet g exc hostTrace) c g _).mono fun _ _ h => hv.trans h

theorem resume_startsAt (g : Ref .generator) (p : Option Payload) :
    Alike (e.resume c g p) (e.resume c g p) w fun _ w' =>
      w.StartsAt c g (levelsIn c w.calls + 1) w' := by
  rcases p with _ | v | ⟨exc, hostTrace⟩
  · exact advance_startsAt he hr hw hm hk g none
  · exact advance_startsAt he hr hw hm hk g (some v)
  · exact inject_startsAt he hr hw hm hk g exc hostTrace

theorem exitBody_startsAt (hc : w.calls = .level ⟨g, c, .between⟩ :: rest)
    (hs : standing g w.history = .suspended d) :
    Alike (e.exitBody c g) (e.exitBody c g) w fun _ w' =>
      w.StartsAt c g (w.context c).depth w' := by
  have hdelegate : (w.generator g).delegate = d := by
    rw [hw.delegate_eq, hs]
    rfl
  refine .step (x := get) (a := w) rfl ?_
  dsimp only
  refine .bind (Quiet.newExc .generatorExit none [] w) fun exit v hv => ?_
  have hsettled := (hv.kept hw).settled
  have hspends := World.Spends.of_calm hm hv
  have hcalls := (hc ▸ hv.stack).eq_of_between
  rw [← hv.history] at hs
  rw [hdelegate, ← hspends.depth]
  cases d with
  | none =>
    refine (runBody_startsAt he hsettled hcalls ?_ _).mono fun _ w' h =>
      (World.StartsAt.of_eq hv.history).trans h
    rw [hs]
    exact .resumed
  | some sub =>
    exact (forwardThrow_startsAt he hcalls hr hsettled hspends.metered (hspends.solvent hk) hs exit
      false .close).mono fun _ w' h => (World.StartsAt.of_eq hv.history).trans h

theorem close_startsAt (g : Ref .generator) :
    Alike (e.close c g) (e.close c g) w fun _ w' =>
      w.StartsAt c g (levelsIn c w.calls + 1) w' := by
  refine .step (x := get) (a := w) rfl ?_
  cases hs : (w.generator g).state with
  | running =>
    exact .bind (Quiet.fault .alreadyExecuting w) fun _ v hv => .pure (.of_eq hv.history)
  | finished => exact .pure (.of_eq rfl)
  | created =>
    exact .bind (finishAside_startsAt c g (levelsIn c w.calls + 1) w) fun _ v hv => .pure hv
  | suspended =>
    have hstands := hw.standing_of_suspended hs
    refine .bind (enter_startsAt hw hm hk g) fun a v ⟨hhist, hv⟩ => ?_
    cases a with
    | error f =>
      refine .step rfl (.bind (finishAside_startsAt c g (levelsIn c w.calls + 1) _) fun _ u hu =>
        .pure ?_)
      exact (World.StartsAt.of_eq hhist).trans hu
    | ok _ =>
      obtain ⟨hsettled, hmetered, hsolvent, hcalls, hdepth⟩ := hv rfl
      refine .bind (exitBody_startsAt he hr hsettled hmetered hsolvent hcalls (hhist ▸ hstands))
        fun o u hu => .step rfl ?_
      rw [hdepth] at hu
      have hleft : w.StartsAt c g (levelsIn c w.calls + 1) (u.modifyContext c (·.leave)).pop :=
        (World.StartsAt.of_eq hhist).trans (hu.trans (.of_eq rfl))
      refine .bind (P := fun _ w' => w.StartsAt c g (levelsIn c w.calls + 1) w') ?_ fun _ x hx =>
        (closeResult_quiet o x).mono fun _ _ h => hx.trans (.of_eq h.history)
      refine .step (x := get) rfl (.ite (.pure hleft) (.step rfl (.of_run rfl ?_)))
      exact hleft.trans (.of_other rfl nofun)

end

end Engine

end Resumable
