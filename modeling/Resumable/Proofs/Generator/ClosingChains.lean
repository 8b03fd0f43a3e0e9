import Resumable.Proofs.Generator.Closing

/-!
# Closing a chain of delegates

A generator that delegates is closed from the innermost delegate outwards. Whatever the bodies do,
all generators of the chain are finished in the end; the body of each is entered once at most, not
before its delegate was closed, and with what came of that.
-/

namespace Resumable

open Exec (Alike)

variable {σ : Type}

-- ---------------------------------------------------------------------------
-- Entries
-- ---------------------------------------------------------------------------

namespace Happening

def enters (g : Ref .generator) : Happening → Bool
  | entered g' _ => decide (g' = g)
  | _ => false

theorem enters_iff (g : Ref .generator) (h : Happening) :
    h.enters g = true ↔ ∃ p, h = .entered g p := by
  cases h with
  | entered g' p => simp [enters]
  | _ => simp [enters]

@[simp] theorem enters_exited : (exited g' sub exit hostTrace a).enters g = false := rfl

@[simp] theorem enters_forwarded : (forwarded g' sub).enters g = false := rfl

theorem countP_enters_eq_zero {l : List Happening} (h : ∀ p, .entered g p ∉ l) :
    l.countP (·.enters g) = 0 := by
  rw [List.countP_eq_zero]
  intro x hx he
  obtain ⟨p, rfl⟩ := (enters_iff g x).mp he
  exact h p hx

end Happening

def EnteredIn (g : Ref .generator) : Option Payload → List Happening → Prop
  | some p, l => ∃ later, l = later ++ [.entered g (some p)] ∧ ∀ q, .entered g q ∉ later
  | none, l => ∀ q, .entered g q ∉ l

namespace EnteredIn

theorem countP_le {p? : Option Payload} (h : EnteredIn g p? l) : l.countP (·.enters g) ≤ 1 := by
  cases p? with
  | none =>
    rw [Happening.countP_enters_eq_zero h]
    exact Nat.zero_le _
  | some p =>
    obtain ⟨later, rfl, hl⟩ := h
    rw [List.countP_append, Happening.countP_enters_eq_zero hl]
    simp [Happening.enters]

theorem eq_of_mem {p? : Option Payload} (h : EnteredIn g p? l) (hq : .entered g q ∈ l) :
    p? = q := by
  cases p? with
  | none => exact absurd hq (h q)
  | some p =>
    obtain ⟨later, rfl, hl⟩ := h
    rcases List.mem_append.mp hq with hq | hq
    · exact absurd hq (hl q)
    · simp only [List.mem_singleton, Happening.entered.injEq, true_and] at hq
      exact hq.symm

end EnteredIn

theorem World.EntersWith.enteredIn {w w' : World σ} {p? : Option Payload}
    (h : w.EntersWith g p? w') : ∃ l, w'.history = l ++ w.history ∧ EnteredIn g p? l := by
  cases p? with
  | none => exact h
  | some p =>
    obtain ⟨later, hl, hne⟩ := h
    exact ⟨later ++ [.entered g (some p)], by simpa using hl, later, rfl, hne⟩

-- ---------------------------------------------------------------------------
-- Chains
-- ---------------------------------------------------------------------------

namespace World

variable {w v w' : World σ}

/-- Suspended generators, each of which delegates to the next, up to one that does not run. -/
inductive Chain (w : World σ) : List (Ref .generator) → Prop
  | last : w.generators.Valid g → (w.generator g).state ≠ .running → w.Chain [g]
  | cons : (w.generator g).state = .suspended → (w.generator g).delegate = some sub →
      w.Chain (sub :: rest) → w.Chain (g :: sub :: rest)

theorem Chain.congr (h : w.Chain chain)
    (hvalid : ∀ g, w.generators.Valid g → v.generators.Valid g)
    (hv : ∀ g ∈ chain, v.generator g = w.generator g) : v.Chain chain := by
  induction h with
  | last hg hs => exact .last (hvalid _ hg) (by rwa [hv _ (List.mem_singleton_self _)])
  | cons hs hd _ ih =>
    have hg := hv _ (List.mem_cons_self ..)
    exact .cons (hg ▸ hs) (hg ▸ hd) (ih fun g hm => hv g (List.mem_cons_of_mem _ hm))

theorem Kept.made (h : w.Kept w') (hw : w.Settled) (hg : w.generators.Valid g) :
    w'.generators.Valid g := by
  refine (h.settled.made g).mpr fun habsent => (hw.made g).mp hg ?_
  obtain ⟨later, hl, -⟩ := h.follows
  have hnone := h.settled.lawful.generator_ne_of_absent habsent
  rw [← List.append_nil w.history]
  refine standing_append fun x hx => hnone x ?_
  rw [hl]
  exact List.mem_append_right _ hx

theorem Chain.valid (h : w.Chain chain) (hw : w.Settled) : ∀ g ∈ chain, w.generators.Valid g := by
  induction h with
  | last hg _ => simpa using hg
  | cons hs _ _ ih =>
    refine List.forall_mem_cons.mpr ⟨(hw.made _).mpr ?_, ih⟩
    rw [hw.standing_of_suspended hs]
    simp

theorem Settled.of_finished (hw : w.Settled) (hf : standing g w.history = .finished) :
    (w.generator g).state = .finished ∧ (w.generator g).delegate = none := by
  rw [hw.state_eq, hw.delegate_eq, hf]
  exact ⟨rfl, rfl⟩

theorem generator_passedOn_of_ne (h : g' ≠ g) :
    (w.passedOn g sub).generator g' = w.generator g' := by
  refine .trans ?_ (generator_modify_of_ne (f := ({ · with state := .running })) h)
  simp [passedOn, generator]

theorem valid_passedOn : (w.passedOn g sub).generators.Valid g' ↔ w.generators.Valid g' := by
  simp [passedOn]

theorem context_passedOn : (w.passedOn g sub).context c = w.context c := by
  unfold passedOn setActivity
  split <;> rfl

end World

theorem Engine.close_passes {e : Engine σ} {w : World σ} (he : e.Trusts e) (hw : w.Settled)
    (hs : (w.generator g).state = .suspended) (hd : (w.generator g).delegate = some sub)
    (hk : (w.context c).Admits (n + 1)) :
    Alike (e.close c g) (e.close c g) w fun _ w' => ∃ a u inner after,
      (e.ask c (.close sub)).run ((w.readied c g).passedOn g sub) = some (a, u) ∧
      u.history = inner ++ .forwarded g sub :: w.history ∧ (∀ x ∈ inner, x.generator ≠ g) ∧
      w'.history = after ++ .exited g sub w.exitExc false a :: u.history ∧
      EnteredIn g (exitDelivered? w.exitExc false a) after := by
  have hcalls : (w.readied c g).calls = .level ⟨g, c, .between⟩ :: w.calls := rfl
  have hv : ((w.readied c g).passedOn g sub).Settled := (hw.readied c g).passedOn hcalls
    ((hw.standing_of_suspended hs).trans (congrArg Standing.suspended hd))
  refine (close_delegating he hw hs hd hk).mono fun _ w' ⟨a, u, hu, henters⟩ => ?_
  obtain ⟨inner, hinner, hduty⟩ := ((he.ask c (.close sub) _ hv).2 _ _ hu).follows
  obtain ⟨after, hafter, hin⟩ := henters.enteredIn
  refine ⟨a, u, inner, after, hu, ?_, fun x hx hg => ?_, hafter, hin⟩
  · rw [hinner, World.history_passedOn]
    rfl
  · have hforwarding : ((w.readied c g).passedOn g sub).calls = _ := World.calls_passedOn hcalls
    exact World.dutyIn_ne_none (by simp [Activity.duty?]) (hforwarding ▸ hg ▸ hduty x hx)

namespace Host

/-- The delegate `sub` of `g` was closed before the body of `g` was entered, and then the body was
entered with what came of that, or not at all. -/
inductive HandsOver (host : Host σ) (c : Ref .context) (w : World σ) (g sub : Ref .generator) :
    List Happening → Prop
  | intro {n : Nat} {v u : World σ} {a : Except Failure Unit} {exit : Exc}
      {earlier after : List Happening}
      (closed : (host.answer n c (.close sub)).run v = some (a, u))
      (finished : (u.generator sub).state = .finished)
      (history : u.history = earlier ++ w.history)
      (asked : exit.type = .generatorExit)
      (notBefore : ∀ p, .entered g p ∉ earlier)
      (notAfter : ∀ p, .entered sub p ∉ after)
      (delivered : EnteredIn g (exitDelivered? exit false a) after) :
      HandsOver host c w g sub (after ++ .exited g sub exit false a :: earlier)

/-- A chain of delegates has been closed, and `later` is what befell meanwhile. -/
structure Unwinds (host : Host σ) (c : Ref .context) (chain : List (Ref .generator))
    (w w' : World σ) (later : List Happening) : Prop where
  history : w'.history = later ++ w.history
  finished : ∀ g ∈ chain, (w'.generator g).state = .finished ∧ (w'.generator g).delegate = none
  once : ∀ g ∈ chain, later.countP (·.enters g) ≤ 1
  handsOver : ∀ g sub, [g, sub] <:+: chain → host.HandsOver c w g sub later
  innermost : ∀ g, [g] <:+ chain → (w.generator g).state = .suspended →
    (w.generator g).delegate = none → ∀ p, .entered g p ∈ later →
    ∃ exit : Exc, p = some (.throw exit false) ∧ exit.type = .generatorExit

variable {host : Host σ} {w v w' u : World σ}

theorem HandsOver.extend (h : host.HandsOver c v g sub l) (first : List Happening)
    (hv : v.history = first ++ w.history) (hf : ∀ p, .entered g p ∉ first)
    (hg : ∀ p, .entered g p ∉ last) (hs : ∀ p, .entered sub p ∉ last) :
    host.HandsOver c w g sub (last ++ (l ++ first)) := by
  cases h with
  | @intro n x y a exit earlier after closed finished history asked notBefore notAfter delivered =>
    have hshape : last ++ (after ++ .exited g sub exit false a :: earlier ++ first) =
        (last ++ after) ++ .exited g sub exit false a :: (earlier ++ first) := by simp
    rw [hshape]
    refine .intro closed finished (by rw [history, hv, List.append_assoc]) asked ?_ ?_ ?_
    · exact fun p hp => (List.mem_append.mp hp).elim (notBefore p) (hf p)
    · exact fun p hp => (List.mem_append.mp hp).elim (hs p) (notAfter p)
    · cases hd : exitDelivered? exit false a with
      | none =>
        rw [hd] at delivered
        exact fun p hp => (List.mem_append.mp hp).elim (hg p) (delivered p)
      | some p =>
        rw [hd] at delivered
        obtain ⟨later, rfl, hl⟩ := delivered
        refine ⟨last ++ later, by simp, fun q hq => ?_⟩
        exact (List.mem_append.mp hq).elim (hg q) (hl q)

theorem finished_of_close (hw : w.Settled) (hg : w.generators.Valid g)
    (hs : (w.generator g).state ≠ .running)
    (h : (host.answer n c (.close g)).run w = some (a, w')) :
    w.Kept w' ∧ standing g w'.history = .finished := by
  cases n with
  | zero => cases h
  | succ n =>
    obtain ⟨hkept, hfinished⟩ := (Engine.close_alike (host.trusts n) hw c g).2 a w' h
    exact ⟨hkept, hkept.settled.standing_of_finished (hkept.made hw hg) (hfinished hs)⟩

/-- A generator that has no part in a longer chain is closed. -/
theorem unwinds_one (hw : w.Settled) (hg : w.generators.Valid g)
    (hs : (w.generator g).state ≠ .running)
    (hk : (w.context c).Admits 1) (h : (host.answer n c (.close g)).run w = some (a, w')) :
    ∃ later, host.Unwinds c [g] w w' later := by
  obtain ⟨hkept, hfinished⟩ := finished_of_close hw hg hs h
  have hsingle : ∀ x ∈ [g], x = g := fun x hx => List.mem_singleton.mp hx
  have hshort : ∀ x sub, ¬ [x, sub] <:+: [g] := fun x sub hx => by simpa using hx.length_le
  cases n with
  | zero => cases h
  | succ n =>
    obtain ⟨later, hl, hcount, hexit⟩ : ∃ later, w'.history = later ++ w.history ∧
        later.countP (·.enters g) ≤ 1 ∧ ((w.generator g).state = .suspended →
          (w.generator g).delegate = none →
          EnteredIn g (some (.throw w.exitExc false)) later) := by
      by_cases hsuspended : (w.generator g).state = .suspended
      · cases hd : (w.generator g).delegate with
        | none =>
          have henters := (Engine.close_undelegated (host.trusts n) hw hsuspended hd hk).2 a w' h
          obtain ⟨l, hl, hin⟩ := henters.enteredIn
          exact ⟨l, hl, hin.countP_le, fun _ _ => hin⟩
        | some sub =>
          obtain ⟨a', u, inner, after, -, hu, hinner, hafter, hin⟩ :=
            (Engine.close_passes (host.trusts n) hw hsuspended hd hk).2 a w' h
          refine ⟨after ++ .exited g sub w.exitExc false a' :: (inner ++ [.forwarded g sub]), ?_, ?_,
            fun _ hnone => nomatch hnone⟩
          · simp [hafter, hu]
          · have hzero := Happening.countP_enters_eq_zero fun p hp => hinner _ hp rfl
            simpa [hzero] using hin.countP_le
      · obtain ⟨l, hl, hne⟩ := (Engine.close_unsuspended hsuspended c).2 a w' h
        refine ⟨l, hl, ?_, fun hs => absurd hs hsuspended⟩
        rw [Happening.countP_enters_eq_zero hne]
        exact Nat.zero_le _
    refine ⟨later, hl, fun x hx => ?_, fun x hx => ?_, fun x sub hx => absurd hx (hshort x sub), ?_⟩
    · rw [hsingle x hx]
      exact hkept.settled.of_finished hfinished
    · rwa [hsingle x hx]
    · intro x hx hsuspended hd p hp
      obtain rfl := hsingle x (hx.subset (List.mem_singleton_self _))
      exact ⟨w.exitExc, ((hexit hsuspended hd).eq_of_mem hp).symm, rfl⟩

theorem Unwinds.around {later after : List Happening} {exit : Exc} {a : Except Failure Unit}
    (hsub : host.Unwinds c (sub :: rest) v u later)
    (hclosed : (host.answer n c (.close sub)).run v = some (a, u))
    (hv : v.history = .forwarded g sub :: w.history)
    (hgens : ∀ x ∈ sub :: rest, v.generator x = w.generator x)
    (hasked : exit.type = .generatorExit) (hinner : ∀ x ∈ later, x.generator ≠ g)
    (hafter : w'.history = after ++ .exited g sub exit false a :: u.history)
    (hin : EnteredIn g (exitDelivered? exit false a) after)
    (hgone : ∀ x ∈ sub :: rest, ∀ p, .entered x p ∉ after ++ [.exited g sub exit false a])
    (hfinished : ∀ x ∈ g :: sub :: rest,
      (w'.generator x).state = .finished ∧ (w'.generator x).delegate = none) :
    host.Unwinds c (g :: sub :: rest) w w'
      (after ++ .exited g sub exit false a :: (later ++ [.forwarded g sub])) where
  history := by simp [hafter, hsub.history, hv]
  finished := hfinished
  once := by
    refine List.forall_mem_cons.mpr ⟨?_, fun x hx => ?_⟩
    · have hzero := Happening.countP_enters_eq_zero fun p hp => hinner _ hp rfl
      simpa [hzero] using hin.countP_le
    · have hzero := Happening.countP_enters_eq_zero (hgone x hx)
      simp only [List.countP_append, Nat.add_eq_zero_iff] at hzero
      simpa [hzero.1] using hsub.once x hx
  handsOver x y hxy := by
    rcases List.infix_cons_iff.mp hxy with hprefix | hinfix
    · obtain ⟨rfl, hy⟩ := List.cons_prefix_cons.mp hprefix
      obtain ⟨rfl, -⟩ := List.cons_prefix_cons.mp hy
      have hy : y ∈ y :: rest := List.mem_cons_self ..
      refine .intro hclosed (hsub.finished y hy).1 (by simp [hsub.history, hv]) hasked
        (fun p hp => ?_) (fun p hp => hgone y hy p (List.mem_append_left _ hp)) hin
      rcases List.mem_append.mp hp with hp | hp
      · exact hinner _ hp rfl
      · simp at hp
    · have hx := hinfix.subset (List.mem_cons_self ..)
      have hy := hinfix.subset (List.mem_cons_of_mem _ (List.mem_cons_self ..))
      have hlift := (hsub.handsOver x y hinfix).extend [.forwarded g sub] hv
        (by simp) (hgone x hx) (hgone y hy)
      simpa using hlift
  innermost x hx hs hd p hp := by
    rcases List.suffix_cons_iff.mp hx with hx | hx
    · simp at hx
    · have hm := hx.subset (List.mem_singleton_self _)
      rw [← hgens x hm] at hs hd
      refine hsub.innermost x hx hs hd p ?_
      simp only [List.mem_append, List.mem_cons, List.not_mem_nil, or_false] at hp
      rcases hp with hp | hp | hp | hp
      · exact absurd (List.mem_append_left _ hp) (hgone x hm p)
      · cases hp
      · exact hp
      · cases hp

theorem unwinds_chain (hw : w.Settled) (hc : w.Chain (g :: rest)) (hn : (g :: rest).Nodup)
    (hk : (w.context c).Admits (rest.length + 1))
    (h : (host.answer n c (.close g)).run w = some (a, w')) :
    ∃ later, host.Unwinds c (g :: rest) w w' later := by
  induction rest generalizing g n w a w' with
  | nil =>
    cases hc with
    | last hg hs => exact unwinds_one hw hg hs hk h
  | cons sub rest ih =>
    have hvalid := hc.valid hw
    cases n with
    | zero => cases h
    | succ n =>
      cases hc with
      | cons hs hd hrest =>
        -- The delegate is closed in a world that differs from this one in `g` alone.
        let v := (w.readied c g).passedOn g sub
        have hv : v.Settled := (hw.readied c g).passedOn rfl
          ((hw.standing_of_suspended hs).trans (congrArg Standing.suspended hd))
        have hvh : v.history = .forwarded g sub :: w.history := World.history_passedOn
        have hgens : ∀ x ∈ sub :: rest, v.generator x = w.generator x := by
          refine fun x hx => World.generator_passedOn_of_ne ?_
          rintro rfl
          exact (List.nodup_cons.mp hn).1 hx
        have hvc : v.Chain (sub :: rest) :=
          hrest.congr (fun x hx => World.valid_passedOn.mpr hx) hgens
        have hvk : (v.context c).Admits (rest.length + 1) := by
          rw [World.context_passedOn]
          exact World.admits_readied hk g
        obtain ⟨a', u, inner, after, hu, huh, hinner, hafter, hin⟩ :=
          (Engine.close_passes (host.trusts n) hw hs hd hk).2 a w' h
        obtain ⟨later, hsub⟩ := ih hv hvc (List.nodup_cons.mp hn).2 hvk hu
        obtain rfl : later = inner := by
          rw [hsub.history, hvh] at huh
          exact List.append_cancel_right huh
        -- What the chain is finished by stays so while the body of `g` runs.
        have hkept := (Host.answer_keeps n c (.close sub) v hv).2 a' u hu
        obtain ⟨hkept', hg⟩ := finished_of_close hw (hvalid g (List.mem_cons_self ..))
          (by simp [hs]) h
        have hgone : ∀ x ∈ sub :: rest, standing x w'.history = .finished ∧
            ∀ p, .entered x p ∉ after ++ [.exited g sub w.exitExc false a'] := by
          intro x hx
          have hf := hkept.settled.standing_of_finished (hkept.made hv (hvc.valid hv x hx))
            (hsub.finished x hx).1
          have hlawful := hkept'.settled.lawful
          rw [hafter, ← List.singleton_append, ← List.append_assoc] at hlawful ⊢
          exact hlawful.of_finished hf
        refine ⟨_, hsub.around hu hvh hgens rfl hinner hafter hin (fun x hx => (hgone x hx).2) ?_⟩
        refine List.forall_mem_cons.mpr ⟨hkept'.settled.of_finished hg, fun x hx => ?_⟩
        exact hkept'.settled.of_finished (hgone x hx).1

def unwinding (host : Host σ) : Rule σ := fun _ _ c q w _ w' =>
  match q with
  | .close g => ∀ rest, w.Chain (g :: rest) → (g :: rest).Nodup →
      (w.context c).Admits (rest.length + 1) → ∃ later, host.Unwinds c (g :: rest) w w' later
  | _ => True

end Host

/-- In any run, a generator that is closed is closed with all of the chain of its delegates, from
the innermost outwards. -/
theorem closing_unwinds (host : Host σ) (s : σ) : host.Upholds host.unwinding (.initial s) := by
  refine Host.upholds_of_regime (r := .settled) Engine.answer_keeps ?_ (.initial s)
  intro α n c q w a w' hw h
  cases q with
  | close g => exact fun rest hc hn hk => Host.unwinds_chain (n := n + 1) hw hc hn hk h
  | _ => trivial

/-- Program `i` delegates to generator `i + 1`, the third to none. When they are resumed, the first
fails with what is thrown in, the second returns, and the third yields once more. -/
def nested : Host Unit where
  body t :=
    .ask (.look fun w => w.activation?.map (·.resumePoint)) fun
      | some (-1) =>
        let sub := if t.program < 2 then some ⟨t.program + 1⟩ else none
        .done (.ok (.yields ⟨.none, 0, sub, none⟩))
      | _ => .ask .take fun
        | .ok _ => .done (.ok (.returns .none))
        | .error f => .done (match t.program with
          | 0 => .error f
          | 1 => .ok (.returns .none)
          | _ => .ok (.yields ⟨.none, 0, none, none⟩))
  hash _ _ := .done (.ok 0)
  compare _ _ _ := .done (.ok false)
  construct _ _ _ := .done (.ok .none)

def closeOutermost : Prog Unit (Except Failure Unit) :=
  .ask (.create (.context default)) fun c =>
  .ask (.newGenerator ⟨0, default⟩ []) fun _ =>
  .ask (.newGenerator ⟨1, default⟩ []) fun _ =>
  .ask (.newGenerator ⟨2, default⟩ []) fun _ =>
  .within c (.ask (.resume ⟨2⟩ none) .done) fun _ =>
  .within c (.ask (.resume ⟨1⟩ none) .done) fun _ =>
  .within c (.ask (.resume ⟨0⟩ none) .done) fun _ =>
  .within c (.ask (.close ⟨0⟩) .done) .done

def thrownTo : List Happening → List (Ref .generator × ExcType)
  | .entered g (some (.throw e _)) :: earlier => (g, e.type) :: thrownTo earlier
  | _ :: earlier => thrownTo earlier
  | [] => []

example : ((nested.run 6 ⟨0⟩ closeOutermost).run (.initial ())).map (thrownTo ·.2.history) =
    some [(⟨0⟩, .generatorExit), (⟨1⟩, .runtimeError), (⟨2⟩, .generatorExit)] := by
  decide +kernel

end Resumable
