import Resumable.Proofs.Run.Requests

/-!
# Metered runs

What the programs of a run take from one context, the others apart. Its depth is the number of its
levels on the stack, and every run of a body in it is paid for when its level is entered. `Spends`
says what may have become of the context; `j` runs of bodies have been paid for beforehand.
-/

namespace Resumable

open Exec (Alike Follows Quiet)

variable {σ : Type}

-- ---------------------------------------------------------------------------
-- Levels and bodies
-- ---------------------------------------------------------------------------

def Call.context? : Call → Option (Ref .context)
  | level l => some l.context
  | hook => none

def levelsIn (c : Ref .context) (calls : List Call) : Nat :=
  (calls.map Call.context?).count (some c)

/-- A body is run, of which the tracer of the context is told. -/
def Happening.starts (c : Ref .context) : Happening → Bool
  | traced c' _ (.resume ..) => decide (c' = c)
  | _ => false

/-- The number of runs of bodies in a context. -/
def bodiesIn (c : Ref .context) (hist : List Happening) : Nat := hist.countP (·.starts c)

def fare (c c' : Ref .context) : Nat := if c' = c then 1 else 0

theorem levelsIn_level (c : Ref .context) (l : Level) (calls : List Call) :
    levelsIn c (.level l :: calls) = levelsIn c calls + fare c l.context := by
  simp only [levelsIn, List.map_cons, Call.context?, List.count_cons, fare]
  congr 1
  simp

theorem SameStack.map_context? (h : SameStack x y) : y.map Call.context? = x.map Call.context? := by
  cases h with
  | refl => rfl
  | activation => rfl

theorem bodiesIn_append {later : List Happening} (h : ∀ x ∈ later, x.starts c = false) :
    bodiesIn c (later ++ earlier) = bodiesIn c earlier := by
  have hzero : later.countP (·.starts c) = 0 := by
    rw [List.countP_eq_zero]
    exact fun x hx => by simp [h x hx]
  rw [bodiesIn, List.countP_append, hzero, Nat.zero_add]
  rfl

namespace World

variable {w v u w' : World σ}

theorem context_modifyContext (hv : w.contexts.Valid c) (c' : Ref .context)
    (f : Context → Context) :
    (w.modifyContext c' f).context c = if c' = c then f (w.context c) else w.context c := by
  split
  · next h =>
    subst h
    exact Store.get_modify_self _ f hv
  · next h => exact Store.get_modify_of_ne _ f (Ne.symm h)

@[simp] theorem valid_modifyContext {f : Context → Context} :
    (w.modifyContext c' f).contexts.Valid c ↔ w.contexts.Valid c := Store.valid_modify ..

theorem map_context?_setActivity (a : Activity) :
    (w.setActivity a).calls.map Call.context? = w.calls.map Call.context? := by
  unfold setActivity
  split
  · next h => simp [h, Call.context?]
  · rfl

-- ---------------------------------------------------------------------------
-- One context
-- ---------------------------------------------------------------------------

/-- The context `c`, which was `k` once, is as deep as its levels on the stack, within its
limits, and so were the bodies that were run in it. -/
structure Metered (k : Context) (c : Ref .context) (w : World σ) : Prop where
  valid : w.contexts.Valid c
  reached : ∃ n, k.Attempts n (w.context c)
  depth : (w.context c).depth = levelsIn c w.calls
  within : ∀ limit ∈ k.tracker.depthLimit?, (w.context c).depth ≤ limit
  logged : ∀ g name kind d, .traced c g (.resume name kind d) ∈ w.history →
    ∀ limit ∈ k.tracker.depthLimit?, d ≤ limit

/-- The runs of bodies so far, and those that are left. -/
def outlay (limit : Nat) (c : Ref .context) (w : World σ) : Nat :=
  bodiesIn c w.history + (limit - (w.context c).tracker.count)

/-- The runs of bodies, those that are left, and `j` that are paid for are no more than allowed. -/
def Solvent (k : Context) (c : Ref .context) (j : Nat) (w : World σ) : Prop :=
  ∀ limit ∈ k.tracker.resumeLimit?, w.outlay limit c + j ≤ limit

/-- What may have become of the context where `j` runs of bodies were paid for: it is as it was, but
for what was spent. -/
structure Spends (k : Context) (c : Ref .context) (j : Nat) (w w' : World σ) : Prop where
  metered : w'.Metered k c
  calls : w'.calls.map Call.context? = w.calls.map Call.context?
  depth : (w'.context c).depth = (w.context c).depth
  handled : (w'.context c).handled = (w.context c).handled
  reached : ∃ n, (w.context c).Attempts n (w'.context c)
  paid : ∀ limit ∈ k.tracker.resumeLimit?, w'.outlay limit c ≤ w.outlay limit c + j

variable {k : Context} {c : Ref .context} {i j : Nat}

theorem Solvent.mono (h : w.Solvent k c j) (hij : i ≤ j) : w.Solvent k c i := fun limit hl =>
  Nat.le_trans (Nat.add_le_add_left hij _) (h limit hl)

theorem Metered.limits (h : w.Metered k c) :
    (w.context c).tracker.depthLimit? = k.tracker.depthLimit? ∧
      (w.context c).tracker.resumeLimit? = k.tracker.resumeLimit? := by
  obtain ⟨n, hn⟩ := h.reached
  exact ⟨hn.drifts.depths, hn.drifts.resumes⟩

namespace Spends

theorem mono (h : w.Spends k c i w') (hij : i ≤ j) : w.Spends k c j w' where
  metered := h.metered
  calls := h.calls
  depth := h.depth
  handled := h.handled
  reached := h.reached
  paid limit hl := Nat.le_trans (h.paid limit hl) (Nat.add_le_add_left hij _)

theorem trans (h : w.Spends k c i v) (h' : v.Spends k c j w') : w.Spends k c (i + j) w' where
  metered := h'.metered
  calls := h'.calls.trans h.calls
  depth := h'.depth.trans h.depth
  handled := h'.handled.trans h.handled
  reached := by
    obtain ⟨n, hn⟩ := h.reached
    obtain ⟨m, hm⟩ := h'.reached
    exact ⟨n + m, hn.trans hm⟩
  paid limit hl := by
    have := h.paid limit hl
    have := h'.paid limit hl
    omega

theorem solvent (h : w.Spends k c i w') (hw : w.Solvent k c (i + j)) : w'.Solvent k c j :=
  fun limit hl => by
    have := h.paid limit hl
    have := hw limit hl
    omega

theorem of_unstarted (later : List Happening) (hw : w.Metered k c)
    (hv : w'.contexts.Valid c) (hm : (w'.context c).meter = (w.context c).meter)
    (hc : w'.calls.map Call.context? = w.calls.map Call.context?)
    (hh : w'.history = later ++ w.history) (hs : ∀ x ∈ later, x.starts c = false) :
    w.Spends k c 0 w' := by
  obtain ⟨htracker, hhandled, hdepth⟩ := Meter.mk.inj hm
  have hlater : ∀ g name kind d, Happening.traced c g (.resume name kind d) ∉ later :=
    fun g name kind d hx => by simpa [Happening.starts] using hs _ hx
  have hreached : (w.context c).Attempts 0 (w'.context c) := .other .start htracker hdepth
  refine ⟨⟨hv, ?_, ?_, ?_, ?_⟩, hc, hdepth, hhandled, ⟨0, hreached⟩, fun limit _ => ?_⟩
  · obtain ⟨n, hn⟩ := hw.reached
    exact ⟨n, hn.trans hreached⟩
  · rw [hdepth, hw.depth, levelsIn, levelsIn, hc]
  · intro limit hl
    rw [hdepth]
    exact hw.within limit hl
  · intro g name kind d hx
    rw [hh] at hx
    exact hw.logged g name kind d ((List.mem_append.mp hx).resolve_left (hlater g name kind d))
  · rw [outlay, outlay, hh, bodiesIn_append hs, htracker]
    exact Nat.le_refl _

theorem of_calm (hw : w.Metered k c) (h : w.Calm w') : w.Spends k c 0 w' :=
  of_unstarted [] hw (h.valid c hw.valid) (h.meter c hw.valid) h.stack.map_context?
    h.history (by simp)

theorem told (hw : w.Metered k c) {c' : Ref .context} {g : Ref .generator} {e : TraceEvent}
    (he : (Happening.traced c' g e).starts c = false) : w.Spends k c 0 (w.told c' g e) := by
  refine of_unstarted [.traced c' g e] hw (valid_modifyContext.mpr hw.valid) ?_ rfl rfl (by simpa)
  refine (congrArg Context.meter (context_modifyContext hw.valid c' (·.emit e))).trans ?_
  split <;> rfl

end Spends

-- ---------------------------------------------------------------------------
-- Handlers and hooks
-- ---------------------------------------------------------------------------

section

variable {f : Context → Context} (hf : ∀ x, (f x).tracker = x.tracker ∧ (f x).depth = x.depth)
include hf

theorem budget_modifyContext (hv : w.contexts.Valid c) (c' : Ref .context) :
    ((w.modifyContext c' f).context c).tracker = (w.context c).tracker ∧
      ((w.modifyContext c' f).context c).depth = (w.context c).depth := by
  rw [context_modifyContext hv]
  split
  · exact hf _
  · exact ⟨rfl, rfl⟩

theorem Metered.modifyContext (hw : w.Metered k c) (c' : Ref .context) :
    (w.modifyContext c' f).Metered k c := by
  obtain ⟨htracker, hdepth⟩ := budget_modifyContext hf hw.valid c'
  obtain ⟨n, hn⟩ := hw.reached
  refine ⟨valid_modifyContext.mpr hw.valid, ⟨n, .other hn htracker hdepth⟩,
    hdepth.trans hw.depth, ?_, hw.logged⟩
  rw [hdepth]
  exact hw.within

theorem outlay_modifyContext (hv : w.contexts.Valid c) (c' : Ref .context) (limit : Nat) :
    (w.modifyContext c' f).outlay limit c = w.outlay limit c := by
  rw [outlay, (budget_modifyContext hf hv c').1]
  rfl

end

theorem Spends.handled_of_handling {e : Exc} {c' : Ref .context} (hw : w.Metered k c)
    (h : (w.modifyContext c' (·.handling e)).Spends k c j w') :
    w.Spends k c j (w'.modifyContext c' (·.handledOne)) := by
  have hpush : ∀ x : Context, (x.handling e).tracker = x.tracker ∧ (x.handling e).depth = x.depth :=
    fun _ => ⟨rfl, rfl⟩
  have hpop : ∀ x : Context, x.handledOne.tracker = x.tracker ∧ x.handledOne.depth = x.depth :=
    fun _ => ⟨rfl, rfl⟩
  have hpushed := budget_modifyContext hpush hw.valid c'
  have hpopped := budget_modifyContext hpop h.metered.valid c'
  refine ⟨h.metered.modifyContext hpop c', h.calls,
    hpopped.2.trans (h.depth.trans hpushed.2), ?_, ?_, fun limit hl => ?_⟩
  · have hhandled := h.handled
    rw [context_modifyContext hw.valid] at hhandled
    rw [context_modifyContext h.metered.valid]
    by_cases hc : c' = c
    · simp only [hc, if_true] at hhandled ⊢
      exact congrArg List.tail hhandled
    · simp only [hc, if_false] at hhandled ⊢
      exact hhandled
  · obtain ⟨n, hn⟩ := h.reached
    have hstart : (w.context c).Attempts 0 ((w.modifyContext c' (·.handling e)).context c) :=
      .other .start hpushed.1 hpushed.2
    exact ⟨0 + n, .other (hstart.trans hn) hpopped.1 hpopped.2⟩
  · rw [outlay_modifyContext hpop h.metered.valid]
    rw [← outlay_modifyContext hpush hw.valid c']
    exact h.paid limit hl

theorem Metered.push_hook (hw : w.Metered k c) : (w.push .hook).Metered k c :=
  ⟨hw.valid, hw.reached, hw.depth.trans (by simp [levelsIn, World.push, Call.context?]), hw.within,
    hw.logged⟩

theorem Spends.pop_hook (h : (w.push .hook).Spends k c j w') : w.Spends k c j w'.pop := by
  have hcalls : w'.pop.calls.map Call.context? = w.calls.map Call.context? := by
    simpa [World.pop, World.push, List.map_tail] using congrArg List.tail h.calls
  refine ⟨⟨h.metered.valid, h.metered.reached, ?_, h.metered.within, h.metered.logged⟩, hcalls,
    h.depth, h.handled, h.reached, h.paid⟩
  refine h.metered.depth.trans ?_
  rw [levelsIn, levelsIn, h.calls, hcalls]
  simp [World.push, Call.context?]

-- ---------------------------------------------------------------------------
-- Levels
-- ---------------------------------------------------------------------------

theorem context_inward (hv : w.contexts.Valid c) (c' : Ref .context) (g : Ref .generator) :
    (w.inward c' g).context c = if c' = c then (w.context c).entered else w.context c := by
  refine (context_modifyContext hv c' fun _ => (w.context c').entered).trans ?_
  split
  · next h => rw [h]
  · rfl

section

variable {g : Ref .generator} (hv : w.contexts.Valid c)
include hv

theorem depth_inward : ((w.inward c' g).context c).depth = (w.context c).depth + fare c c' := by
  rw [context_inward hv, fare]
  split <;> rfl

theorem handled_inward : ((w.inward c' g).context c).handled = (w.context c).handled := by
  rw [context_inward hv]
  split <;> rfl

end

theorem Spends.refused {c' : Ref .context} (hw : w.Metered k c)
    (h : (w.context c').enter.1 = .error cause) :
    w.Spends k c 0 (w.modifyContext c' fun _ => (w.context c').enter.2) := by
  by_cases hc : c' = c
  · subst hc
    have hcontext : (w.modifyContext c' fun _ => (w.context c').enter.2).context c' =
        (w.context c').enter.2 := Store.get_modify_self _ _ hw.valid
    have hdepth := Context.depth_enter_of_error h
    have hdrifts := Context.Drifts.enter (w.context c')
    obtain ⟨n, hn⟩ := hw.reached
    refine ⟨⟨valid_modifyContext.mpr hw.valid, ⟨n + 1, ?_⟩, ?_, fun limit hl => ?_, hw.logged⟩,
      rfl, ?_, ?_, ⟨1, ?_⟩, fun limit hl => ?_⟩
    · rw [hcontext]
      exact .enter hn
    · rw [hcontext, hdepth]
      exact hw.depth
    · rw [hcontext, hdepth]
      exact hw.within limit hl
    · rw [hcontext, hdepth]
    · rw [hcontext, Context.handled_enter]
    · rw [hcontext]
      exact .enter .start
    · rw [outlay, outlay, hcontext]
      exact Nat.add_le_add_left (Nat.sub_le_sub_left hdrifts.counted limit) _
  · refine of_unstarted [] hw (valid_modifyContext.mpr hw.valid) ?_ rfl rfl (by simp)
    rw [context_modifyContext hw.valid]
    simp [hc]

section

variable {c' : Ref .context} (hw : w.Metered k c)
  (hadmits : (w.context c').enter = (.ok (), (w.context c').entered))
include hw hadmits

theorem attempts_inward (g : Ref .generator) :
    ∃ n, (w.context c).Attempts n ((w.inward c' g).context c) := by
  have hentered : (w.context c').enter.2 = (w.context c').entered := by rw [hadmits]
  rw [context_inward hw.valid]
  split
  · next h =>
    subst h
    exact ⟨1, hentered ▸ .enter .start⟩
  · exact ⟨0, .start⟩

theorem Metered.inward
    (hdepth : ∀ limit ∈ (w.context c').tracker.depthLimit?, (w.context c').depth < limit)
    (g : Ref .generator) : (w.inward c' g).Metered k c := by
  obtain ⟨n, hn⟩ := hw.reached
  obtain ⟨m, hm⟩ := attempts_inward hw hadmits g
  refine ⟨valid_modifyContext.mpr hw.valid, ⟨n + m, hn.trans hm⟩, ?_, fun limit hl => ?_,
    hw.logged⟩
  · rw [depth_inward hw.valid, hw.depth]
    exact (levelsIn_level c ⟨g, c', .between⟩ w.calls).symm
  · rw [depth_inward hw.valid, fare]
    split
    · next h =>
      subst h
      exact hdepth limit (hw.limits.1 ▸ hl)
    · exact hw.within limit hl

variable (hcount : ∀ limit ∈ (w.context c').tracker.resumeLimit?,
  (w.context c').tracker.count < limit)
include hcount

omit hadmits in
theorem outlay_inward (g : Ref .generator) (hl : limit ∈ k.tracker.resumeLimit?) :
    (w.inward c' g).outlay limit c + fare c c' = w.outlay limit c := by
  simp only [outlay, context_inward hw.valid, fare]
  split
  · next h =>
    subst h
    have hl' := hw.limits.2 ▸ hl
    have hlt := hcount limit hl'
    have hentered : (w.context c').entered.tracker.count = (w.context c').tracker.count + 1 :=
      Tracker.count_counted hl'
    have hhist : (w.inward c' g).history = w.history := rfl
    rw [hentered, hhist]
    omega
  · rfl

omit hadmits in
theorem Solvent.inward (hs : w.Solvent k c 0) (g : Ref .generator) :
    (w.inward c' g).Solvent k c (fare c c') := fun limit hl => by
  rw [outlay_inward hw hcount g hl]
  exact hs limit hl

theorem Spends.outward (h : (w.inward c' g).Spends k c (fare c c') u) :
    w.Spends k c 0 (u.modifyContext c' (·.leave)).pop := by
  have hcontext : (u.modifyContext c' (·.leave)).pop.context c =
      if c' = c then (u.context c).leave else u.context c :=
    context_modifyContext h.metered.valid c' (·.leave)
  have hdepth : ((u.modifyContext c' (·.leave)).pop.context c).depth = (w.context c).depth := by
    have hu := h.depth.trans (depth_inward hw.valid)
    rw [hcontext]
    unfold fare at hu
    split at hu
    · next hc => simp [hc, Context.leave, hu]
    · next hc => simpa [hc] using hu
  have htracker : ((u.modifyContext c' (·.leave)).pop.context c).tracker =
      (u.context c).tracker := by
    rw [hcontext]
    split <;> rfl
  have hcalls : (u.modifyContext c' (·.leave)).pop.calls.map Call.context? =
      w.calls.map Call.context? := by
    have htail := congrArg List.tail h.calls
    rwa [← List.map_tail, ← List.map_tail] at htail
  have hreached : ∃ n, (w.context c).Attempts n ((u.modifyContext c' (·.leave)).pop.context c) := by
    obtain ⟨n, hn⟩ := attempts_inward hw hadmits g
    obtain ⟨m, hm⟩ := h.reached
    rw [hcontext]
    split
    · exact ⟨n + m, .leave (hn.trans hm)⟩
    · exact ⟨n + m, hn.trans hm⟩
  refine ⟨⟨valid_modifyContext.mpr h.metered.valid, ?_, ?_, fun limit hl => ?_,
    h.metered.logged⟩, hcalls, hdepth, ?_, hreached, fun limit hl => ?_⟩
  · obtain ⟨n, hn⟩ := hw.reached
    obtain ⟨m, hm⟩ := hreached
    exact ⟨n + m, hn.trans hm⟩
  · rw [hdepth, hw.depth, levelsIn, levelsIn, hcalls]
  · rw [hdepth]
    exact hw.within limit hl
  · refine .trans ?_ (h.handled.trans (handled_inward hw.valid))
    rw [hcontext]
    split <;> rfl
  · have hpaid := h.paid limit hl
    rw [outlay_inward hw hcount g hl] at hpaid
    rw [outlay, htracker]
    exact hpaid

end

end World

def Regime.metered (k : Context) (c : Ref .context) : Regime σ where
  Admits w := w.Metered k c ∧ w.Solvent k c 0
  Leads w w' := w.Spends k c 0 w' ∧ w'.Solvent k c 0
  admits h := ⟨h.1.metered, h.2⟩
  trans h h' := ⟨h.1.trans h'.1, h'.2⟩
  calm hw h := by
    have hspends := World.Spends.of_calm hw.1 h
    exact ⟨hspends, hspends.solvent hw.2⟩
  handling hw c' e := by
    have hf : ∀ x : Context, (x.handling e).tracker = x.tracker ∧ (x.handling e).depth = x.depth :=
      fun _ => ⟨rfl, rfl⟩
    refine ⟨hw.1.modifyContext hf c', fun limit hl => ?_⟩
    rw [World.outlay_modifyContext hf hw.1.valid]
    exact hw.2 limit hl
  handled hw h := by
    have hspends := World.Spends.handled_of_handling hw.1 h.1
    exact ⟨hspends, hspends.solvent hw.2⟩
  hook hw := ⟨hw.1.push_hook, hw.2⟩
  hooked _ h := ⟨h.1.pop_hook, h.2⟩

end Resumable
