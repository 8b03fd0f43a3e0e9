import Resumable.Proofs.Run.Metering
import Resumable.Proofs.Run.Watched

/-!
# Levels balance

What is done one level in is paid for where the level is entered, and on leaving it the context is
as deep as before. `Meters` follows the payment through the engine: of two computations it says that
they run alike where `j` runs of bodies are paid for, and spend no more.
-/

namespace Resumable

open Exec (Alike Follows Quiet)

variable {σ : Type}

namespace Exec

/-- Computations that run alike where `j` runs of bodies are paid for, and spend no more. -/
def Meters (k : Context) (c : Ref .context) (j : Nat) (x y : Exec σ α) : Prop :=
  ∀ w, w.Metered k c → w.Solvent k c j → Alike x y w fun _ w' => w.Spends k c j w'

namespace Meters

variable {k : Context} {c : Ref .context} {i j : Nat} {x y : Exec σ α}

theorem of_follows (h : Follows (.metered k c) x y) : Meters k c 0 x y := fun w hm hs =>
  (h w ⟨hm, hs⟩).mono fun _ _ h => h.1

theorem follows (h : Meters k c 0 x y) : Follows (.metered k c) x y := fun w hw =>
  (h w hw.1 hw.2).mono fun _ _ h' => ⟨h', h'.solvent hw.2⟩

theorem of_quiet (h : Quiet x) : Meters k c 0 x x := of_follows (.of_quiet h)

theorem mono (h : Meters k c i x y) (hij : i ≤ j) : Meters k c j x y := fun w hm hs =>
  (h w hm (hs.mono hij)).mono fun _ _ h' => h'.mono hij

theorem pure (a : α) : Meters k c j (Pure.pure a : Exec σ α) (Pure.pure a) :=
  mono (of_quiet (.pure a)) (Nat.zero_le j)

theorem later {w v : World σ} (hx : Meters k c j x y) (h : w.Spends k c i v)
    (hs : w.Solvent k c (i + j)) : Alike x y v fun _ w' => w.Spends k c (i + j) w' :=
  (hx v h.metered (h.solvent hs)).mono fun _ _ h' => h.trans h'

theorem bind {f g : α → Exec σ β} (hx : Meters k c i x y) (hf : ∀ a, Meters k c j (f a) (g a)) :
    Meters k c (i + j) (x >>= f) (y >>= g) := fun w hm hs =>
  .bind (hx w hm (hs.mono (Nat.le_add_right i j))) fun a _ hv => (hf a).later hv hs

theorem before {f g : α → Exec σ β} (hx : Meters k c 0 x y) (hf : ∀ a, Meters k c j (f a) (g a)) :
    Meters k c j (x >>= f) (y >>= g) := Nat.zero_add j ▸ hx.bind hf

theorem ite {p : Prop} [Decidable p] {x' y' : Exec σ α} (h : Meters k c j x y)
    (h' : Meters k c j x' y') : Meters k c j (if p then x else x') (if p then y else y') :=
  fun w hm hs => .ite (h w hm hs) (h' w hm hs)

theorem of_modify {f : World σ → World σ} (hx : ∀ w, (f w).contexts = w.contexts)
    (hc : ∀ w, (f w).calls.map Call.context? = w.calls.map Call.context?)
    (hh : ∀ w, (f w).history = w.history) :
    Meters k c 0 (modify f : Exec σ Unit) (modify f) := fun w hm _ => by
  refine .of_run rfl (.of_unstarted [] hm ?_ ?_ (hc w) (hh w) (by simp))
  · rw [hx]
    exact hm.valid
  · simp only [World.context, hx]

theorem record {h : Happening} (hs : h.starts c = false) :
    Meters k c 0 (Exec.record h : Exec σ Unit) (Exec.record h) := fun _ hm _ =>
  .of_run rfl (.of_unstarted [h] hm hm.valid rfl rfl rfl (by simpa using hs))

theorem emit {e : TraceEvent} (he : ∀ g c', (Happening.traced c' g e).starts c = false)
    (c' : Ref .context) (g : Ref .generator) :
    Meters k c 0 (Exec.emit c' g e : Exec σ Unit) (Exec.emit c' g e) := fun _ hm _ =>
  .of_run rfl (.told hm (he g c'))

end Meters

end Exec

-- ---------------------------------------------------------------------------
-- The run of a body
-- ---------------------------------------------------------------------------

namespace World

variable {w : World σ} {k : Context} {c : Ref .context}

theorem Spends.started (hw : w.Metered k c) (c' : Ref .context) (g : Ref .generator)
    (name : String) (kind : ResumeKind) :
    w.Spends k c (fare c c') (w.told c' g (.resume name kind (w.context c').depth)) := by
  by_cases hc : c' = c
  · subst hc
    let e : TraceEvent := .resume name kind (w.context c').depth
    have hcontext : (w.told c' g e).context c' = (w.context c').emit e :=
      Store.get_modify_self _ _ hw.valid
    have htold : (w.context c').Attempts 0 ((w.told c' g e).context c') := by
      rw [hcontext]
      exact .other .start rfl rfl
    obtain ⟨n, hn⟩ := hw.reached
    refine ⟨⟨valid_modifyContext.mpr hw.valid, ⟨n, hn.trans htold⟩, ?_, fun limit hl => ?_, ?_⟩,
      rfl, ?_, ?_, ⟨0, htold⟩, fun limit _ => ?_⟩
    · rw [hcontext]
      exact hw.depth
    · rw [hcontext]
      exact hw.within limit hl
    · intro g' name' kind' d hx
      rcases List.mem_cons.mp hx with hx | hx
      · cases hx
        exact hw.within
      · exact hw.logged g' name' kind' d hx
    · rw [hcontext]
      rfl
    · rw [hcontext]
      rfl
    · have hbodies : bodiesIn c' (w.told c' g e).history = bodiesIn c' w.history + 1 := by
        simp [bodiesIn, Happening.starts, e]
      rw [outlay, outlay, hcontext, hbodies, fare, if_pos rfl]
      simp only [Context.emit]
      omega
  · have hstarts : (Happening.traced c' g (.resume name kind (w.context c').depth)).starts c =
        false := by simpa [Happening.starts] using hc
    exact .mono (.told hw hstarts) (Nat.zero_le _)

end World

namespace Engine

open Exec (Meters)

variable {k : Context} {c : Ref .context} {e e' : Engine σ}

theorem conclude_meters (c' : Ref .context) (g : Ref .generator) (name : String)
    (thrown : Option Exc) (r : Except Failure BodyResult) :
    Meters k c 0 (conclude c' g name thrown r : Exec σ Outcome) (conclude c' g name thrown r) := by
  refine .before (.record rfl) fun _ => ?_
  have hend : ∀ f : Generator → Generator,
      Meters k c 0 (endActivity g f : Exec σ Unit) (endActivity g f) := fun f =>
    .of_modify (fun w => by simp [World.modifyGenerator])
      (fun w => World.map_context?_setActivity .between) (fun w => by simp)
  have hlast : ∀ (f : Generator → Generator) (e : TraceEvent) (o : Outcome),
      (∀ g c'', (Happening.traced c'' g e).starts c = false) →
      Meters k c 0 (do
        endActivity g f
        Exec.emit c' g e
        return o : Exec σ Outcome) (do
        endActivity g f
        Exec.emit c' g e
        return o) := fun f e o he =>
    .before (hend f) fun _ => .before (.emit he c' g) fun _ => .pure o
  rcases r with f | s | v
  · refine .before (.of_modify (fun _ => rfl) (fun _ => rfl) (fun _ => rfl)) fun _ => ?_
    exact .before (.of_quiet (escape_quiet c' g thrown f)) fun f' => hlast id _ _ fun _ _ => rfl
  · exact hlast _ _ _ fun _ _ => rfl
  · exact hlast _ _ _ fun _ _ => rfl

theorem heeded_meters (r : Except Failure BodyResult) :
    Meters k c 0 (heeded r : Exec σ (Except Failure BodyResult)) (heeded r) := fun w hm _ => by
  obtain ⟨r', hr⟩ := heeded_run r w
  exact .of_run hr (.of_calm hm (.refl w))

theorem runBody_meters (he : e.Under (.metered k c) e') (c' : Ref .context) (g : Ref .generator)
    (p : Option Payload) (kind : ResumeKind) :
    Meters k c (fare c c') (e.runBody c' g p kind) (e'.runBody c' g p kind) := by
  simp only [runBody, he.host]
  refine .before (.of_quiet .of_get) fun before => .before (.of_modify ?_ ?_ ?_) fun _ => ?_
  · exact fun w => by simp [World.modifyGenerator]
  · exact fun w => World.map_context?_setActivity (w := w.modifyGenerator g _) _
  · exact fun w => by simp
  refine .before (.record rfl) fun _ => ?_
  intro w hm hs
  have hstarted := World.Spends.started hm c' g (before.generator g).qualifiedName kind
  have hrest := fun body => (Meters.of_follows (perform_follows he c' body)).before fun r =>
    (heeded_meters r).before fun r => conclude_meters c' g (before.generator g).qualifiedName
      (p.bind (·.thrown?)) r
  refine .step rfl (.step rfl ?_)
  exact (hrest _).later hstarted hs

-- ---------------------------------------------------------------------------
-- Delegation
-- ---------------------------------------------------------------------------

theorem whileForwarding_meters (g sub : Ref .generator) {x y : Exec σ α} (hx : Meters k c 0 x y) :
    Meters k c 0 (whileForwarding g sub x) (whileForwarding g sub y) := by
  have hset : ∀ (f : Generator → Generator) (a : Activity),
      Meters k c 0 (modify fun w => (w.modifyGenerator g f).setActivity a : Exec σ Unit)
        (modify fun w => (w.modifyGenerator g f).setActivity a) := fun f a =>
    .of_modify (fun w => by simp [World.modifyGenerator])
      (fun w => World.map_context?_setActivity (w := w.modifyGenerator g f) a) (fun w => by simp)
  refine .before (hset _ _) fun _ => .before (.record rfl) fun _ => ?_
  exact .before hx fun a => .before (hset _ _) fun _ => .pure a

theorem resumeDelegate_meters (he : e.Under (.metered k c) e') (c' : Ref .context)
    (g sub : Ref .generator) (p : Payload) :
    Meters k c 0 (e.resumeDelegate c' g sub p) (e'.resumeDelegate c' g sub p) := by
  have hresume := (Meters.of_follows (he.ask c' (.resume sub (some p)))).before fun o =>
    .of_quiet (result_quiet o)
  exact .before (whileForwarding_meters g sub hresume) fun a =>
    .before (.record rfl) fun _ => .pure a

theorem closeDelegate_meters (he : e.Under (.metered k c) e') (c' : Ref .context)
    (g sub : Ref .generator) (exit : Exc) (hostTrace : Bool) :
    Meters k c 0 (e.closeDelegate c' g sub exit hostTrace)
      (e'.closeDelegate c' g sub exit hostTrace) :=
  .before (whileForwarding_meters g sub (.of_follows (he.ask c' (.close sub)))) fun a =>
    .before (.record rfl) fun _ => .pure a

theorem modifyGenerator_meters (g : Ref .generator) (f : Generator → Generator) :
    Meters k c 0 (modify fun w => w.modifyGenerator g f : Exec σ Unit)
      (modify fun w => w.modifyGenerator g f) :=
  .of_modify (fun _ => rfl) (fun _ => rfl) (fun _ => rfl)

theorem settle_meters (he : e.Under (.metered k c) e') (c' : Ref .context) (g : Ref .generator)
    (a : Except Failure Value) : Meters k c (fare c c') (e.settle c' g a) (e'.settle c' g a) := by
  cases a with
  | ok v =>
    refine .before (.of_quiet .of_get) fun _ => .before (.emit (fun _ _ => rfl) c' g) fun _ => ?_
    exact .pure _
  | error f =>
    refine .before (modifyGenerator_meters g _) fun _ => ?_
    cases f.stopValue? with
    | some v => exact runBody_meters he c' g _ .send
    | none =>
      cases f with
      | raised r => exact runBody_meters he c' g _ .throw
      | _ => exact .pure _

theorem forward_meters (he : e.Under (.metered k c) e') (c' : Ref .context)
    (g sub : Ref .generator) (v : Value) :
    Meters k c (fare c c') (e.forward c' g sub v) (e'.forward c' g sub v) :=
  .before (resumeDelegate_meters he c' g sub (.send v)) fun a => settle_meters he c' g a

theorem forwardThrow_meters (he : e.Under (.metered k c) e') (c' : Ref .context)
    (g sub : Ref .generator) (exc : Exc) (hostTrace : Bool) (kind : ResumeKind) :
    Meters k c (fare c c') (e.forwardThrow c' g sub exc hostTrace kind)
      (e'.forwardThrow c' g sub exc hostTrace kind) := by
  refine .ite ?_ ?_
  · refine .before (closeDelegate_meters he c' g sub exc hostTrace) fun closed => ?_
    refine .before (modifyGenerator_meters g _) fun _ => ?_
    rcases closed with f | _
    · cases f with
      | raised r => exact runBody_meters he c' g _ kind
      | _ => exact .pure _
    · exact runBody_meters he c' g _ kind
  · exact .before (resumeDelegate_meters he c' g sub _) fun a => settle_meters he c' g a

-- ---------------------------------------------------------------------------
-- Levels
-- ---------------------------------------------------------------------------

/-- A level is paid for where it is entered. -/
theorem enter_meters {w : World σ} (hm : w.Metered k c) (hs : w.Solvent k c 0) (c' : Ref .context)
    (g : Ref .generator) :
    Exec.Alike (Exec.enter c' g) (Exec.enter c' g) w fun a v => match a with
      | .error _ => w.Spends k c 0 v
      | .ok () => v.Metered k c ∧ v.Solvent k c (fare c c') ∧
        ∀ u, v.Spends k c (fare c c') u → w.Spends k c 0 (u.modifyContext c' (·.leave)).pop := by
  unfold Exec.enter
  refine .step (x := get) (a := w) rfl ?_
  have hrefused : ∀ cause, (w.context c').enter.1 = .error cause →
      w.Spends k c 0 (w.modifyContext c' fun _ => (w.context c').enter.2) := fun _ => .refused hm
  cases hk : (w.context c').enter with
  | mk admitted entered =>
    rw [hk] at hrefused
    refine .step rfl ?_
    cases admitted with
    | error cause =>
      refine .bind (Exec.Quiet.fault (.limit cause) _) fun f v hv => .pure ?_
      exact (hrefused cause rfl).trans (.of_calm (hrefused cause rfl).metered hv)
    | ok _ =>
      -- Of what an attempt may come to only an admission is left.
      obtain ⟨_, _, he⟩ | ⟨_, _, _, he, _⟩ | ⟨he, hdepth, hcount⟩ := (w.context c').enter_cases
      · simp [he] at hk
      · simp [he] at hk
      · obtain rfl : entered = (w.context c').entered := by simpa [he] using hk.symm
        exact .step rfl (.pure ⟨hm.inward he hdepth g, .inward hm hcount hs g,
          fun u hu => .outward hm he hcount hu⟩)

theorem inward_meters {x y : Exec σ Outcome} (c' : Ref .context) (g : Ref .generator)
    (hx : Meters k c (fare c c') x y) :
    Meters k c 0 (inward c' g x) (inward c' g y) := fun w hm hs => by
  refine .bind (enter_meters hm hs c' g) fun a v hv => ?_
  cases a with
  | error f => exact .pure hv
  | ok _ =>
    obtain ⟨hmetered, hsolvent, hout⟩ := hv
    exact .bind (hx v hmetered hsolvent) fun o u hu => .step rfl (.pure (hout u hu))

-- ---------------------------------------------------------------------------
-- Resumptions
-- ---------------------------------------------------------------------------

theorem failed_meters (f : Fault) : Meters k c 0 (failed f : Exec σ Outcome) (failed f) :=
  .of_quiet (failed_quiet f)

theorem advance_meters (he : e.Under (.metered k c) e') (c' : Ref .context) (g : Ref .generator)
    (sent : Option Value) : Meters k c 0 (e.advance c' g sent) (e'.advance c' g sent) := by
  refine .before (.of_quiet .of_get) fun before => ?_
  dsimp only
  cases (before.generator g).state with
  | running => exact failed_meters _
  | finished => exact .of_quiet (.bind (.stopIteration _) fun _ => .pure _)
  | created | suspended =>
    refine .ite (failed_meters _) ?_
    cases (before.generator g).delegate with
    | some sub => exact inward_meters c' g (forward_meters he c' g sub _)
    | none => exact inward_meters c' g (runBody_meters he c' g _ _)

theorem finishAside_meters (c' : Ref .context) (g : Ref .generator) :
    Meters k c 0 (finishAside c' g : Exec σ Unit) (finishAside c' g) :=
  .before (.of_quiet .of_get) fun _ => .ite (.pure _) <|
    .before (modifyGenerator_meters g _) fun _ => .emit (fun _ _ => rfl) c' g

theorem inject_meters (he : e.Under (.metered k c) e') (c' : Ref .context) (g : Ref .generator)
    (exc : Exc) (hostTrace : Bool) :
    Meters k c 0 (e.inject c' g exc hostTrace) (e'.inject c' g exc hostTrace) := by
  refine .before (.of_quiet .of_get) fun before => ?_
  dsimp only
  cases (before.generator g).state with
  | running => exact failed_meters _
  | created | finished =>
    refine .before (.before (finishAside_meters c' g) fun _ => ?_) fun _ => .pure _
    exact .of_quiet (raisedAside_quiet g exc hostTrace)
  | suspended =>
    cases (before.generator g).delegate with
    | some sub => exact inward_meters c' g (forwardThrow_meters he c' g sub exc hostTrace _)
    | none => exact inward_meters c' g (runBody_meters he c' g _ _)

theorem resume_meters (he : e.Under (.metered k c) e') (c' : Ref .context) (g : Ref .generator)
    (p : Option Payload) : Meters k c 0 (e.resume c' g p) (e'.resume c' g p) := by
  rcases p with _ | v | ⟨exc, hostTrace⟩
  · exact advance_meters he c' g none
  · exact advance_meters he c' g (some v)
  · exact inject_meters he c' g exc hostTrace

theorem exitBody_meters (he : e.Under (.metered k c) e') (c' : Ref .context) (g : Ref .generator) :
    Meters k c (fare c c') (e.exitBody c' g) (e'.exitBody c' g) := by
  refine .before (.of_quiet .of_get) fun before => ?_
  refine .before (.of_quiet (.newExc _ _ _)) fun exit => ?_
  cases (before.generator g).delegate with
  | some sub => exact forwardThrow_meters he c' g sub exit false .close
  | none => exact runBody_meters he c' g _ .close

theorem finishAnyway_meters (c' : Ref .context) (g : Ref .generator) :
    Meters k c 0 (finishAnyway c' g : Exec σ Unit) (finishAnyway c' g) :=
  .before (.of_quiet .of_get) fun _ => .ite (.pure _) <|
    .before (modifyGenerator_meters g _) fun _ => .emit (fun _ _ => rfl) c' g

theorem close_meters (he : e.Under (.metered k c) e') (c' : Ref .context) (g : Ref .generator) :
    Meters k c 0 (e.close c' g) (e'.close c' g) := by
  refine .before (.of_quiet .of_get) fun before => ?_
  cases (before.generator g).state with
  | running => exact .of_quiet (.bind (.fault _) fun _ => .pure _)
  | finished => exact .pure _
  | created => exact .before (finishAside_meters c' g) fun _ => .pure _
  | suspended =>
    intro w hm hs
    refine .bind (enter_meters hm hs c' g) fun a v hv => ?_
    cases a with
    | error f =>
      have hrest : Meters k c 0 (do
          dropDelegate g
          finishAside c' g
          return .error f : Exec σ (Except Failure Unit)) (do
          dropDelegate g
          finishAside c' g
          return .error f) :=
        .before (modifyGenerator_meters g _) fun _ =>
          .before (finishAside_meters c' g) fun _ => .pure _
      exact hrest.later hv hs
    | ok _ =>
      obtain ⟨hmetered, hsolvent, hout⟩ := hv
      refine .bind (exitBody_meters he c' g v hmetered hsolvent) fun o u hu => .step rfl ?_
      have hleft := hout u hu
      exact Meters.later (j := 0) (.before (finishAnyway_meters c' g) fun _ =>
        .of_quiet (closeResult_quiet o)) hleft hs

theorem answer_metered (he : e.Under (.metered k c) e') (c' : Ref .context) (q : Request σ α) :
    Follows (.metered k c) (e.answer c' q) (e'.answer c' q) := by
  refine answer_follows he c' q (fun t frame args => ?_) (fun _ g p => ?_) fun _ g => ?_
  · refine Meters.follows fun w hm _ => .of_run rfl ?_
    exact .of_unstarted [.created _ t] hm hm.valid rfl rfl rfl (by simp [Happening.starts])
  · exact (resume_meters he c' g p).follows
  · exact (close_meters he c' g).follows

end Engine

end Resumable
