import Resumable.Proofs.Run.Depths

/-!
# Limits

Limits are sound and balanced over whole runs. Every operation leaves a context as deep as it found
it, and with the exceptions it was handling. Bodies run as deep as their levels on the stack and no
deeper than allowed, as often as allowed at most, and an exhausted context stays so.
-/

namespace Resumable

open Exec (Alike)

variable {σ : Type} {k : Context} {c : Ref .context}

structure Context.Unused (k : Context) : Prop where
  depth : k.depth = 0
  count : k.tracker.count = 0

example (options : Options) : (Context.ofOptions options).Unused := ⟨rfl, rfl⟩

namespace World

variable {w v w' : World σ}

structure Opened (k : Context) (c : Ref .context) (w : World σ) : Prop where
  settled : w.Settled
  valid : w.contexts.Valid c
  context : w.context c = k
  unused : k.Unused
  idle : levelsIn c w.calls = 0
  untold : ∀ g e, .traced c g e ∉ w.history

/-- What may come of the context `c`, which was `k` once, while something is done. -/
structure Limited (k : Context) (c : Ref .context) (w w' : World σ) : Prop where
  depth : (w'.context c).depth = (w.context c).depth
  handled : (w'.context c).handled = (w.context c).handled
  levels : (w.context c).depth = levelsIn c w.calls
  within : ∀ limit ∈ k.tracker.depthLimit?, (w.context c).depth ≤ limit
  told : ∀ limit ∈ k.tracker.depthLimit?, ∀ g name kind d,
    .traced c g (.resume name kind d) ∈ w'.history → d ≤ limit
  bodies : ∀ limit ∈ k.tracker.resumeLimit?, bodiesIn c w'.history ≤ limit
  exhausted : (w.context c).Exhausted →
    (w'.context c).Exhausted ∧ bodiesIn c w'.history = bodiesIn c w.history
  attempts : ∃ n, (w.context c).Attempts n (w'.context c)
  reached : ∃ n, k.Attempts n (w'.context c)

theorem Opened.metered (h : w.Opened k c) : w.Metered k c where
  valid := h.valid
  reached := ⟨0, h.context ▸ .start⟩
  depth := by rw [h.context, h.unused.depth, h.idle]
  within limit _ := by
    rw [h.context, h.unused.depth]
    exact Nat.zero_le limit
  logged g name kind d hx := absurd hx (h.untold g _)

theorem Opened.solvent (h : w.Opened k c) : w.Solvent k c 0 := fun limit _ => by
  have hbodies : bodiesIn c w.history = 0 := by
    rw [bodiesIn, List.countP_eq_zero]
    intro x hx hs
    cases x with
    | traced c' g e =>
      cases e with
      | resume name kind d =>
        obtain rfl : c' = c := by simpa [Happening.starts] using hs
        exact h.untold g _ hx
      | _ => simp [Happening.starts] at hs
    | _ => simp [Happening.starts] at hs
  rw [outlay, hbodies, h.context, h.unused.count]
  omega

theorem Spends.limited (h : w.Spends k c 0 w') (hm : w.Metered k c) (hs : w.Solvent k c 0)
    (hk : w.Kept w') : w.Limited k c w' where
  depth := h.depth
  handled := h.handled
  levels := hm.depth
  within := hm.within
  told limit hl g name kind d hx := h.metered.logged g name kind d hx limit hl
  bodies limit hl := by
    have := h.solvent (j := 0) hs limit hl
    unfold outlay at this
    omega
  exhausted hx := by
    obtain ⟨n, hn⟩ := h.reached
    refine ⟨hn.exhausted hx, ?_⟩
    obtain ⟨limit, hl, hle⟩ := hx
    obtain ⟨later, hlater, -⟩ := hk.follows
    have hpaid := h.paid limit (hm.limits.2 ▸ hl)
    have hmore : bodiesIn c w'.history = bodiesIn c later + bodiesIn c w.history := by
      rw [hlater, bodiesIn, bodiesIn, bodiesIn, List.countP_append]
    unfold outlay at hpaid
    omega
  attempts := h.reached
  reached := h.metered.reached

end World

-- ---------------------------------------------------------------------------
-- Bodies
-- ---------------------------------------------------------------------------

namespace Engine

variable {e : Engine σ} {w w' : World σ}

/-- Where an operation runs the body of its generator it does so one level in. -/
def RunsOneIn (e : Engine σ) (c : Ref .context) :
    {α : Type} → Request σ α → World σ → World σ → Prop
  | _, .resume g _, w, w' => w.StartsAt c g (levelsIn c w.calls + 1) w'
  | _, .close g, w, w' => w.StartsAt c g (levelsIn c w.calls + 1) w'
  | _, .throw g type value traceback, w, w' => ∀ exc v,
      (e.thrown c g type value traceback).run w = some (.ok exc, v) →
      v.StartsAt c g (levelsIn c w.calls + 1) w'
  | _, _, _, _ => True

theorem throw_runsOneIn (he : e.Trusts e) (hr : e.Under (.metered k c) e) (hw : w.Settled)
    (hm : w.Metered k c) (hs : w.Solvent k c 0) {type : Value}
    (h : (e.throw c g type value traceback).run w = some (a, w')) :
    e.RunsOneIn c (.throw g type value traceback) w w' := by
  intro exc v hv
  have hkept := (thrown_follows he c g type value traceback w hw).2 _ _ hv
  obtain ⟨hspends, hsolvent⟩ := (thrown_follows hr c g type value traceback w ⟨hm, hs⟩).2 _ _ hv
  have hlevels : levelsIn c v.calls = levelsIn c w.calls := by
    rw [levelsIn, levelsIn, hspends.calls]
  rw [throw, StateT.run_bind, hv] at h
  have hinject : Alike (e.inject c g exc (v.context c).options.hostTraces >>= result)
      (e.inject c g exc (v.context c).options.hostTraces >>= result) v
      fun _ w' => v.StartsAt c g (levelsIn c v.calls + 1) w' :=
    .bind (inject_startsAt he hr hkept.settled hspends.metered hsolvent g exc _) fun o u hu =>
      (result_quiet o u).mono fun _ _ hq => hu.trans (.of_eq hq.history)
  rw [← hlevels]
  exact hinject.2 a w' h

theorem runsOneIn_of_answer (he : e.Trusts e) (hr : e.Under (.metered k c) e) (hw : w.Settled)
    (hm : w.Metered k c) (hs : w.Solvent k c 0) {q : Request σ α}
    (h : (e.answer c q).run w = some (a, w')) : e.RunsOneIn c q w w' := by
  cases q with
  | resume g p => exact (resume_startsAt he hr hw hm hs g p).2 a w' h
  | close g => exact (close_startsAt he hr hw hm hs g).2 a w' h
  | throw g type value traceback => exact throw_runsOneIn he hr hw hm hs h
  | _ => trivial

end Engine

-- ---------------------------------------------------------------------------
-- Runs
-- ---------------------------------------------------------------------------

def Host.limited (k : Context) (c : Ref .context) : Host.Rule σ := fun _ e c' q w _ w' =>
  w.Limited k c w' ∧ (c' = c → e.RunsOneIn c q w w')

theorem Host.upholds_limited (host : Host σ) {w : World σ} (hopened : w.Opened k c) :
    host.Upholds (Host.limited k c) w := by
  refine Host.upholds_of_regimes (r := .settled) Engine.answer_keeps
    (Engine.answer_metered (k := k) (c := c)) ?_ hopened.settled ⟨hopened.metered, hopened.solvent⟩
  intro α n c' q w a w' hw hmetered h
  obtain ⟨hm, hs⟩ := hmetered
  have hunder := Host.under (r := .metered k c) Engine.answer_metered host n
  have hkept := (Engine.answer_keeps (host.trusts n) c' q w hw).2 a w' h
  obtain ⟨hspends, -⟩ := (Engine.answer_metered hunder c' q w ⟨hm, hs⟩).2 a w' h
  refine ⟨hspends.limited hm hs hkept, ?_⟩
  rintro rfl
  exact Engine.runsOneIn_of_answer (host.trusts n) hunder hw hm hs h

theorem Host.run_limited (host : Host σ) {w : World σ} (hw : w.Opened k c)
    {p : Prog σ α} (h : (host.run n c' p).run w = some (a, w')) : w.Limited k c w' := by
  have hunder := Host.under (r := .metered k c) Engine.answer_metered host n
  have hkept := (Engine.perform_follows (host.trusts n) c' p w hw.settled).2 a w' h
  obtain ⟨hspends, -⟩ :=
    (Engine.perform_follows hunder c' p w ⟨hw.metered, hw.solvent⟩).2 a w' h
  exact hspends.limited hw.metered hw.solvent hkept

theorem World.opened_newContext (s : σ) (hk : k.Unused) :
    ∃ c w, (Exec.newContext k).run (.initial s) = some (c, w) ∧ w.Opened k c := by
  let w : World σ := { World.initial s with contexts := Store.empty.add k }
  have hidle : (World.initial s).Calm w := .addContext k
  refine ⟨Store.empty.next, w, rfl, (hidle.kept (.initial s)).settled, ?_, ?_, hk, rfl, nofun⟩
  · exact (Store.valid_add ..).mpr (.inr rfl)
  · exact Store.get_add_next _ _

-- ---------------------------------------------------------------------------
-- Attempts
-- ---------------------------------------------------------------------------

/-- What an attempt to go one level in comes to. A refusal for the depth leaves the context as it
is; after one for the number, and where the number is exhausted, there is no admission. -/
def World.Tries (c : Ref .context) (w : World σ) : Except Failure Unit → World σ → Prop
  | .ok (), _ => ¬ (w.context c).Exhausted
  | .error f, v => ∃ cause exc, f = (Fault.limit cause).failure exc ∧ match cause with
    | .depth .. => v.context c = w.context c
    | .resumes .. => (v.context c).Exhausted

theorem Exec.enter_tries {w : World σ} (hv : w.contexts.Valid c) (g : Ref .generator) :
    Alike (Exec.enter c g) (Exec.enter c g) w fun a v => w.Tries c a v := by
  have hentered : ∀ x : Context, (w.modifyContext c fun _ => x).context c = x := fun x =>
    Store.get_modify_self _ _ hv
  have hexhausted : ∀ limit count, (w.context c).enter.1 = .error (.resumes limit count) →
      (w.context c).enter.2.Exhausted := fun _ _ => Context.exhausted_of_refused
  unfold Exec.enter
  refine .step (x := get) (a := w) rfl ?_
  obtain ⟨limit, attempted, he⟩ | ⟨limit, _, count, he, _⟩ | ⟨he, _, hcount⟩ :=
    (w.context c).enter_cases
  · rw [he]
    exact .step rfl (.step rfl (.pure ⟨.depth limit attempted, _, rfl, hentered _⟩))
  · rw [he] at hexhausted ⊢
    refine .step rfl (.step rfl (.pure ⟨.resumes limit count, _, rfl, ?_⟩))
    exact (hentered _).symm ▸ hexhausted limit count rfl
  · rw [he]
    refine .step rfl (.step rfl (.pure ?_))
    rintro ⟨limit, hl, hle⟩
    exact absurd (hcount limit hl) (Nat.not_lt_of_le hle)

/-- In runs of any programs a context is as deep as its levels, within its limits, and left as it
was found; and what refuses an attempt goes on refusing, or does not count it. -/
theorem limits_sound_balanced (host : Host σ) :
    (∀ (s : σ) (k : Context), k.Unused →
      ∃ c w, (Exec.newContext k).run (.initial s) = some (c, w) ∧ w.Opened k c) ∧
    (∀ (k : Context) (c : Ref .context) (w : World σ), w.Opened k c →
      host.Upholds (Host.limited k c) w ∧
      ∀ (α : Type) (n : Nat) (c' : Ref .context) (p : Prog σ α) (a : α) (w' : World σ),
        (host.run n c' p).run w = some (a, w') → w.Limited k c w') ∧
    (∀ (c : Ref .context) (g : Ref .generator) (w v : World σ) (a : Except Failure Unit),
      w.contexts.Valid c → (Exec.enter c g).run w = some (a, v) → w.Tries c a v) ∧
    ∀ (k x : Context) (n : Nat), k.Attempts n x → (k.Exhausted → x.Exhausted) ∧
      (k.Unused → n + 1 < UInt64.size →
        x.depth + 1 < UInt64.size ∧ x.tracker.counted.count < UInt64.size) := by
  refine ⟨fun s k hk => World.opened_newContext s hk, fun k c w hw => ⟨?_, ?_⟩, ?_, ?_⟩
  · exact host.upholds_limited hw
  · exact fun α n c' p a w' h => host.run_limited hw h
  · exact fun c g w v a hv h => (Exec.enter_tries hv g).2 a v h
  · refine fun k x n hx => ⟨hx.exhausted, fun hk hn => ?_⟩
    have hdepth := hx.drifts.depth
    have hcount := hx.drifts.count
    have hcounted := x.tracker.count_counted_le
    rw [hk.depth] at hdepth
    rw [hk.count] at hcount
    omega

end Resumable
