import Resumable.Proofs.Generator.ClosingChains
import Resumable.Proofs.Run.Confined
import Resumable.Proofs.Run.Metering
import Resumable.Run.Operations

/-!
# Chains of delegates

A resumption of a generator that delegates is passed on, one level in, to its delegate, and so on
down to a generator whose body is resumed. The world down there differs from the first one in that
the generators passed count as running, and in the depth.
-/

namespace Resumable

variable {σ : Type}

namespace World

variable {w v u w' : World σ}

-- ---------------------------------------------------------------------------
-- One generator
-- ---------------------------------------------------------------------------

theorem Settled.valid_of_suspended (hw : w.Settled) (hs : (w.generator g).state = .suspended) :
    w.generators.Valid g := (hw.made g).mpr fun he => by
  rw [hw.state_eq, he] at hs
  cases hs

theorem Kept.course_eq (h : w.Kept w') (hw : w.Settled) (hg : dutyIn g w.calls ≠ none) :
    (w'.generator g).course = (w.generator g).course := by
  obtain ⟨later, hl, hd⟩ := h.follows
  have hne : ∀ x ∈ later, x.generator ≠ g := fun x hx he => hg (he ▸ hd x hx)
  rw [h.settled.course, hw.course, hl]
  simp only [Course.ofHistory, standing_append hne, latest_append hne]

def handedOn (c : Ref .context) (g sub : Ref .generator) (w : World σ) : World σ :=
  (w.inward c g).passedOn g sub

theorem history_handedOn : (w.handedOn c g sub).history = .forwarded g sub :: w.history :=
  history_passedOn

theorem Settled.inward (hw : w.Settled) (c : Ref .context) (g : Ref .generator) :
    (w.inward c g).Settled :=
  (hw.modifyContext c fun _ => (w.context c).entered).settled.push duty?_between

theorem Settled.handedOn (hw : w.Settled) (hs : (w.generator g).state = .suspended)
    (hd : (w.generator g).delegate = some sub) (c : Ref .context) :
    (w.handedOn c g sub).Settled :=
  (hw.inward c g).passedOn rfl ((hw.standing_of_suspended hs).trans (congrArg _ hd))

theorem generator_handedOn_self (hv : w.generators.Valid g) :
    (w.handedOn c g sub).generator g = { w.generator g with state := .running } := by
  refine .trans ?_
    (generator_modify_self (w := w.inward c g) (f := ({ · with state := .running })) hv)
  simp [handedOn, passedOn, generator]

theorem generator_handedOn_of_ne (h : g' ≠ g) :
    (w.handedOn c g sub).generator g' = w.generator g' := generator_passedOn_of_ne h

theorem context_handedOn (hc : w.contexts.Valid c) :
    (w.handedOn c g sub).context c = (w.context c).entered := by
  rw [handedOn, context_passedOn, context_inward hc, if_pos rfl]

theorem generator_heard_of_ne {h : Happening} (hg : g ≠ h.generator) :
    (u.heard h).generator g = u.generator g := by
  refine .trans ?_ (generator_modify_of_ne (f := ({ · with state := .suspended })) hg)
  simp [heard, generator]

theorem generator_heard_self {h : Happening} (hv : u.generators.Valid h.generator) :
    (u.heard h).generator h.generator = { u.generator h.generator with state := .suspended } := by
  refine .trans ?_ (generator_modify_self (f := ({ · with state := .suspended })) hv)
  simp [heard, generator]

theorem valid_handedOn : (w.handedOn c g sub).contexts.Valid c' ↔ w.contexts.Valid c' := by
  simp only [handedOn, passedOn, World.record, contexts_setActivity]
  exact valid_modifyContext

-- ---------------------------------------------------------------------------
-- Chains
-- ---------------------------------------------------------------------------

/-- Resumptions of a generator are passed on through those of a list to `innermost`. -/
inductive Passes (w : World σ) :
    Ref .generator → List (Ref .generator) → Ref .generator → Prop
  | here : w.Passes g [] g
  | on : (w.generator g).state = .suspended → (w.generator g).delegate = some sub →
      w.Passes sub outer innermost → w.Passes g (g :: outer) innermost

theorem Passes.headD_eq (h : w.Passes g outer innermost) : outer.headD innermost = g := by
  cases h <;> rfl

theorem Passes.first_eq (h : w.Passes g' (g :: outer) innermost) : g = g' := by
  cases h
  rfl

theorem Passes.suspended (h : w.Passes g outer innermost) :
    ∀ g' ∈ outer, (w.generator g').state = .suspended := by
  induction h with
  | here => simp
  | on hs _ _ ih => exact List.forall_mem_cons.mpr ⟨hs, ih⟩

theorem Passes.congr (h : w.Passes g outer innermost)
    (hv : ∀ g ∈ outer, v.generator g = w.generator g) : v.Passes g outer innermost := by
  induction h with
  | here => exact .here
  | on hs hd _ ih =>
    have hg := hv _ (List.mem_cons_self ..)
    exact .on (hg ▸ hs) (hg ▸ hd) (ih fun g hm => hv g (List.mem_cons_of_mem _ hm))

/-- The world in which a resumption has been passed on through a list of generators to
`innermost`. -/
def handedDown (c : Ref .context) (innermost : Ref .generator) :
    List (Ref .generator) → World σ → World σ
  | [], w => w
  | g :: outer, w => handedDown c innermost outer (w.handedOn c g (outer.headD innermost))

/-- A step down a chain. -/
structure HandsOn (c : Ref .context) (g sub : Ref .generator) (outer : List (Ref .generator))
    (innermost : Ref .generator) (w : World σ) : Prop where
  suspended : (w.generator g).state = .suspended
  delegate : (w.generator g).delegate = some sub
  passes : (w.handedOn c g sub).Passes sub outer innermost
  first : outer.headD innermost = sub
  generators : ∀ g' ∈ outer, (w.handedOn c g sub).generator g' = w.generator g'
  down : w.handedDown c innermost (g :: outer) = (w.handedOn c g sub).handedDown c innermost outer

theorem Passes.handsOn (h : w.Passes g' (g :: outer) innermost) (hn : (g :: outer).Nodup)
    (c : Ref .context) : ∃ sub, w.HandsOn c g sub outer innermost := by
  obtain rfl := h.first_eq
  cases h with
  | @on _ sub _ _ hs hd hrest =>
    have hgens : ∀ g' ∈ outer, (w.handedOn c g sub).generator g' = w.generator g' := fun g' hm =>
      generator_handedOn_of_ne fun he => (List.nodup_cons.mp hn).1 (he ▸ hm)
    refine ⟨sub, hs, hd, hrest.congr hgens, hrest.headD_eq, hgens, ?_⟩
    rw [handedDown, hrest.headD_eq]

theorem admits_handedOn (hc : w.contexts.Valid c) (hk : (w.context c).Admits (n + 1)) :
    ((w.handedOn c g sub).context c).Admits n := by
  rw [context_handedOn hc]
  exact hk.entered

/-- What the world down there has in common with the first one. -/
structure Descends (c : Ref .context) (outer : List (Ref .generator)) (w v : World σ) : Prop where
  settled : v.Settled
  valid : v.contexts.Valid c
  depth : (v.context c).depth = (w.context c).depth + outer.length
  admits : ∀ n, (w.context c).Admits (outer.length + n) → (v.context c).Admits n
  passed : ∀ g ∈ outer, v.generator g = { w.generator g with state := .running }
  others : ∀ g ∉ outer, v.generator g = w.generator g
  follows : ∃ handed, v.history = handed ++ w.history ∧
    ∀ x ∈ handed, ∃ g sub, x = .forwarded g sub

theorem Passes.descends (hp : w.Passes g outer innermost) (hw : w.Settled) (hc : w.contexts.Valid c)
    (hn : outer.Nodup) : w.Descends c outer (w.handedDown c innermost outer) := by
  induction outer generalizing g w with
  | nil =>
    exact ⟨hw, hc, rfl, fun n h => by simpa [handedDown] using h, by simp, fun _ _ => rfl, [], rfl,
      by simp⟩
  | cons g outer ih =>
    obtain rfl := hp.first_eq
    obtain ⟨hg, hnodup⟩ := List.nodup_cons.mp hn
    obtain ⟨sub, h⟩ := hp.handsOn hn c
    have hdown := ih h.passes (hw.handedOn h.suspended h.delegate c) (valid_handedOn.mpr hc) hnodup
    obtain ⟨handed, hhanded, hall⟩ := hdown.follows
    rw [h.down]
    refine ⟨hdown.settled, hdown.valid, ?_, fun n hk => hdown.admits n (admits_handedOn hc ?_), ?_,
      ?_, handed ++ [.forwarded g sub], ?_, ?_⟩
    · rw [hdown.depth, context_handedOn hc, List.length_cons, Nat.add_comm outer.length,
        ← Nat.add_assoc]
      rfl
    · rwa [List.length_cons, Nat.add_right_comm] at hk
    · refine List.forall_mem_cons.mpr ⟨?_, fun g' hm => ?_⟩
      · rw [hdown.others g hg, generator_handedOn_self (hw.valid_of_suspended h.suspended)]
      · rw [hdown.passed g' hm, h.generators g' hm]
    · intro g' hm
      rw [List.mem_cons, not_or] at hm
      rw [hdown.others g' hm.2, generator_handedOn_of_ne hm.1]
    · rw [hhanded, history_handedOn]
      simp
    · intro x hx
      rcases List.mem_append.mp hx with hx | hx
      · exact hall x hx
      · exact ⟨g, sub, List.mem_singleton.mp hx⟩

-- ---------------------------------------------------------------------------
-- Bodies at the end of a chain
-- ---------------------------------------------------------------------------

theorem generator_begun_of_ne (h : g' ≠ g) :
    (w.begun c g p kind).generator g' = w.generator g' := by
  refine .trans ?_ (generator_modify_of_ne (f := ({ · with state := .running })) h)
  simp [begun, generator]

theorem generator_begun_self (hv : w.generators.Valid g) :
    (w.begun c g p kind).generator g = { w.generator g with state := .running } := by
  refine .trans ?_ (generator_modify_self (f := ({ · with state := .running })) hv)
  simp [begun, generator]

theorem activation?_begun (hc : w.calls = .level ⟨g, c, .between⟩ :: rest) :
    (w.begun c g p kind).activation? =
      some ⟨(w.generator g).template.forResumption p, (w.generator g).offset⟩ := by
  have hcalls : (w.begun c g p kind).calls = _ := calls_setActivity (w := w.modifyGenerator g _) hc _
  rw [activation?, hcalls]

theorem context_begun (hc : w.contexts.Valid c) :
    ((w.begun c g p kind).context c).depth = (w.context c).depth := by
  let v := ((w.modifyGenerator g ({ · with state := .running })).setActivity (.running
    ⟨(w.generator g).template.forResumption p, (w.generator g).offset⟩)).record (.entered g p)
  have hv : v.context c = w.context c := by simp [v, context, modifyGenerator, World.record]
  have hvalid : v.contexts.Valid c := by simpa [v, modifyGenerator, World.record] using hc
  refine (congrArg Context.depth (context_modifyContext hvalid c (·.emit _))).trans ?_
  rw [if_pos rfl, hv]
  rfl

def outward (c : Ref .context) (u : World σ) : World σ := (u.modifyContext c (·.leave)).pop

end World

def Payload.exits : Payload → Bool
  | send _ => false
  | throw e _ => e.isCaughtBy .generatorExit

theorem Payload.exits_getD (p : Option Payload) :
    (p.getD (.send .none)).exits = p.any (·.exits) := by
  cases p <;> rfl

def handedPayload (p : Option Payload) : List (Ref .generator) → Option Payload
  | [] => p
  | _ :: _ => some (p.getD (.send .none))

@[simp] theorem handedPayload_some (q : Payload) (outer : List (Ref .generator)) :
    handedPayload (some q) outer = some q := by
  cases outer <;> rfl

def ResumeKind.ofPayload : Option Payload → ResumeKind
  | none => .next
  | some (.send _) => .send
  | some (.throw ..) => .throw

-- ---------------------------------------------------------------------------
-- One level
-- ---------------------------------------------------------------------------

namespace Engine

variable {e : Engine σ} {w u : World σ}

theorem inward_run (hk : (w.context c).Admits (n + 1)) (x : Exec σ Outcome) :
    (inward c g x).run w = (x.run (w.inward c g)).bind fun r => some (r.1, r.2.outward c) := by
  rw [inward, StateT.run_bind, World.enter_run hk]
  rfl

theorem advance_suspended (hs : (w.generator g).state = .suspended) (sent : Option Value) :
    (e.advance c g sent).run w = (inward c g (match (w.generator g).delegate with
      | some sub => e.forward c g sub (sent.getD .none)
      | none => e.runBody c g (sent.map .send) (if sent.isSome then .send else .next))).run w := by
  unfold advance
  rw [StateT.run_bind, StateT.run_get]
  simp only [hs, Option.pure_def, Option.bind_eq_bind, Option.bind_some, reduceCtorEq, false_and,
    if_false]
  cases (w.generator g).delegate <;> rfl

theorem inject_suspended (hs : (w.generator g).state = .suspended) (exc : Exc)
    (hostTrace : Bool) :
    (e.inject c g exc hostTrace).run w = (inward c g (match (w.generator g).delegate with
      | some sub => e.forwardThrow c g sub exc hostTrace .throw
      | none => e.runBody c g (some (.throw exc hostTrace)) .throw)).run w := by
  unfold inject
  rw [StateT.run_bind, StateT.run_get]
  simp only [hs, Option.pure_def, Option.bind_eq_bind, Option.bind_some]
  cases (w.generator g).delegate <;> rfl

theorem resume_undelegated (hs : (w.generator g).state = .suspended)
    (hd : (w.generator g).delegate = none) (p : Option Payload) :
    (e.resume c g p).run w = (inward c g (e.runBody c g p (.ofPayload p))).run w := by
  rcases p with _ | v | ⟨exc, hostTrace⟩
  · rw [resume, advance_suspended hs, hd]
    rfl
  · rw [resume, advance_suspended hs, hd]
    rfl
  · rw [resume, inject_suspended hs, hd]
    rfl

/-- What resumes a delegating generator is passed on one level in, unless it asks it to exit. -/
theorem resume_delegated (hs : (w.generator g).state = .suspended)
    (hd : (w.generator g).delegate = some sub) {p : Option Payload}
    (hp : p.any (·.exits) = false) :
    (e.resume c g p).run w =
      (inward c g (e.resumeDelegate c g sub (p.getD (.send .none)) >>= e.settle c g)).run w := by
  rcases p with _ | v | ⟨exc, hostTrace⟩
  · rw [resume, advance_suspended hs, hd]
    rfl
  · rw [resume, advance_suspended hs, hd]
    rfl
  · have hexit : exc.isCaughtBy .generatorExit = false := hp
    rw [resume, inject_suspended hs, hd]
    simp only [forwardThrow, hexit, Bool.false_eq_true, if_false]
    rfl

theorem resumeDelegate_run (c : Ref .context) (g sub : Ref .generator) (p : Payload)
    (w : World σ) :
    (e.resumeDelegate c g sub p).run w =
      ((e.ask c (.resume sub (some p))).run (w.passedOn g sub)).bind fun r =>
        ((result r.1).run r.2).bind fun s =>
          some (s.1, s.2.heard (.answered g sub s.1)) := by
  change Option.bind (Option.bind (Option.bind _ _) _) _ = _
  rw [Option.bind_assoc, Option.bind_assoc]
  rfl

theorem ask_of_resume (hs : (w.generator g).state = .suspended)
    (hd : (w.generator g).delegate = some sub) {p : Option Payload}
    (hp : p.any (·.exits) = false)
    (hk : (w.context c).Admits (n + 1)) (h : ((e.resume c g p).run w).isSome) :
    ((e.ask c (.resume sub (some (p.getD (.send .none))))).run (w.handedOn c g sub)).isSome := by
  rw [resume_delegated hs hd hp, inward_run hk, StateT.run_bind, resumeDelegate_run] at h
  change (Option.bind (Option.bind (Option.bind
    (StateT.run _ (w.handedOn c g sub)) _) _) _).isSome at h
  cases hask : (e.ask c (.resume sub (some (p.getD (.send .none))))).run (w.handedOn c g sub) with
  | none =>
    rw [hask] at h
    cases h
  | some r => rfl

end Engine

-- ---------------------------------------------------------------------------
-- Runs
-- ---------------------------------------------------------------------------

namespace Host

/-- Every request of a run is made in a settled world and leads to one. -/
def settled : Rule σ := fun _ _ _ _ w _ w' => w.Settled ∧ w'.Settled

theorem upholds_settled (host : Host σ) (s : σ) : host.Upholds settled (.initial s) :=
  Host.upholds_of_regime (r := .settled) Engine.answer_keeps
    (fun hw h => ⟨hw, ((Engine.answer_keeps (host.trusts _) _ _ _ hw).2 _ _ h).settled⟩) (.initial s)

end Host

/-- Each body yields what it takes. Program `i` delegates to generator `i + 1`, the third to none. -/
def relay : Host Unit where
  body t := (do
    let v ← Action.take
    return .yields ⟨v, 0, if t.program < 2 then some ⟨t.program + 1⟩ else none, none⟩ :
      Action Unit BodyResult).run
  hash _ _ := .done (.ok 0)
  compare _ _ _ := .done (.ok false)
  construct _ _ _ := .done (.ok .none)

theorem relay_asks (P : Edit → Prop) : relay.Asks fun q => q.Only P where
  body _ := ⟨trivial, fun r => by cases r <;> trivial⟩
  hash _ _ := trivial
  compare _ _ _ := trivial
  construct _ _ _ := trivial

def startRelay (next : Prog Unit α) : Prog Unit α :=
  .ask (.create (.context default)) fun c =>
  .ask (.newGenerator ⟨0, default⟩ []) fun _ =>
  .ask (.newGenerator ⟨1, default⟩ []) fun _ =>
  .ask (.newGenerator ⟨2, default⟩ []) fun _ =>
  .within c (.ask (.resume ⟨2⟩ none) .done) fun _ =>
  .within c (.ask (.resume ⟨1⟩ none) .done) fun _ =>
  .within c (.ask (.resume ⟨0⟩ none) .done) fun _ =>
  .within c next .done

@[irreducible] def startedRelay : Exc × World Unit :=
  ((relay.run 8 ⟨0⟩ (.ask (.create (.exc .valueError none [])) fun e => startRelay (.done e))).run
    (.initial ())).getD (default, .initial ())

structure RelayStarted (w : World Unit) : Prop where
  settled : w.Settled
  valid : w.contexts.Valid ⟨0⟩
  passes : w.Passes ⟨0⟩ [⟨0⟩, ⟨1⟩] ⟨2⟩
  suspended : (w.generator ⟨2⟩).state = .suspended
  last : (w.generator ⟨2⟩).delegate = none
  admits : (w.context ⟨0⟩).Admits 3

theorem relay_started : RelayStarted startedRelay.2 where
  settled := by
    unfold startedRelay
    cases h : (relay.run 8 ⟨0⟩ (.ask (.create (.exc .valueError none [])) fun e =>
        startRelay (.done e))).run (.initial ()) with
    | none => exact .initial ()
    | some r =>
      exact ((Engine.perform_keeps (relay.trusts 8) ⟨0⟩ _ _ (.initial ())).2 _ _ h).settled
  valid := by decide +kernel
  passes := .on (by decide +kernel) (by decide +kernel)
    (.on (by decide +kernel) (by decide +kernel) .here)
  suspended := by decide +kernel
  last := by decide +kernel
  admits := ⟨by decide +kernel, by decide +kernel⟩

end Resumable
