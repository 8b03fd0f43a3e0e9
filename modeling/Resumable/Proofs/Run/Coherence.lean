import Resumable.Proofs.Run.Standing
import Resumable.Run.World

/-!
# Coherent worlds

In a coherent world every generator is as the history says, and runs exactly while a level of it
is on the stack with something to do. `Kept` relates a world to a later one on the same stack:
nothing befell the generators that have a level on it. `Coherent.happen` is the one step lemma;
what the engine does to a generator is an instance of it.
-/

namespace Resumable

variable {σ : Type}

-- ---------------------------------------------------------------------------
-- The stack
-- ---------------------------------------------------------------------------

/-- What a level does for its generator. -/
inductive Duty where
  | body
  | forwarding
  deriving DecidableEq

def Activity.duty? : Activity → Option Duty
  | between => none
  | forwarding => some .forwarding
  | running _ => some .body

namespace Call

/-- What a call does for a generator. -/
def duty? (g : Ref .generator) : Call → Option Duty
  | level l => if l.generator = g then l.activity.duty? else none
  | hook => none

/-- No generator has something done for it by both calls. -/
def Apart (a b : Call) : Prop := ∀ g, a.duty? g = none ∨ b.duty? g = none

theorem duty?_level_self (g : Ref .generator) (c : Ref .context) (a : Activity) :
    (level ⟨g, c, a⟩).duty? g = a.duty? := if_pos rfl

theorem duty?_level_of_ne (h : g' ≠ g) : (level ⟨g', c, a⟩).duty? g = none := if_neg h

end Call

def dutyIn (g : Ref .generator) (calls : List Call) : Option Duty := calls.findSome? (·.duty? g)

theorem dutyIn_cons (g : Ref .generator) (x : Call) (rest : List Call) :
    dutyIn g (x :: rest) = (x.duty? g).or (dutyIn g rest) := by
  unfold dutyIn
  rw [List.findSome?_cons]
  cases x.duty? g <;> rfl

theorem dutyIn_eq_none : dutyIn g calls = none ↔ ∀ x ∈ calls, x.duty? g = none := by
  simp [dutyIn, List.findSome?_eq_none_iff]

theorem dutyIn_level_of_ne (h : g' ≠ g) :
    dutyIn g (.level ⟨g', c, a⟩ :: rest) = dutyIn g rest := by
  rw [dutyIn_cons, Call.duty?_level_of_ne h, Option.none_or]

/-- The stacks are the same but for what the body on top has seen. -/
inductive SameStack : List Call → List Call → Prop
  | refl (calls) : SameStack calls calls
  | activation (g c) (a b : Activation) (rest) :
      SameStack (.level ⟨g, c, .running a⟩ :: rest) (.level ⟨g, c, .running b⟩ :: rest)

namespace SameStack

theorem trans (h : SameStack x y) (h' : SameStack y z) : SameStack x z := by
  cases h with
  | refl => exact h'
  | activation g c a b rest =>
    cases h' with
    | refl => exact .activation g c a b rest
    | activation _ _ _ b' _ => exact .activation g c a b' rest

theorem dutyIn_eq (h : SameStack x y) (g : Ref .generator) : dutyIn g y = dutyIn g x := by
  cases h with
  | refl => rfl
  | activation g' c a b rest => rfl

theorem apart (h : SameStack x y) (hx : x.Pairwise Call.Apart) : y.Pairwise Call.Apart := by
  cases h with
  | refl => exact hx
  | activation g c a b rest =>
    rw [List.pairwise_cons] at hx ⊢
    exact hx

theorem eq_of_between (h : SameStack (.level ⟨g, c, .between⟩ :: rest) y) :
    y = .level ⟨g, c, .between⟩ :: rest := by
  generalize hx : Call.level ⟨g, c, .between⟩ :: rest = x at h
  cases h with
  | refl => rfl
  | activation => simp at hx

theorem eq_of_forwarding (h : SameStack (.level ⟨g, c, .forwarding⟩ :: rest) y) :
    y = .level ⟨g, c, .forwarding⟩ :: rest := by
  generalize hx : Call.level ⟨g, c, .forwarding⟩ :: rest = x at h
  cases h with
  | refl => rfl
  | activation => simp at hx

theorem eq_of_hook (h : SameStack (.hook :: rest) y) : y = .hook :: rest := by
  cases h with
  | refl => rfl

theorem of_running (h : SameStack (.level ⟨g, c, .running a⟩ :: rest) y) :
    ∃ b, y = .level ⟨g, c, .running b⟩ :: rest := by
  generalize hx : Call.level ⟨g, c, .running a⟩ :: rest = x at h
  cases h with
  | refl => exact ⟨a, hx.symm⟩
  | activation g' c' a' b rest' =>
    simp only [List.cons.injEq, Call.level.injEq, Level.mk.injEq] at hx
    obtain ⟨⟨rfl, rfl, -⟩, rfl⟩ := hx
    exact ⟨b, rfl⟩

end SameStack

-- ---------------------------------------------------------------------------
-- Updates of worlds
-- ---------------------------------------------------------------------------

namespace World

variable {w w' : World σ}

theorem generator_modify_self {f : Generator → Generator} (h : w.generators.Valid g) :
    (w.modifyGenerator g f).generator g = f (w.generator g) := Store.get_modify_self _ f h

theorem generator_modify_of_ne {f : Generator → Generator} (h : g' ≠ g) :
    (w.modifyGenerator g f).generator g' = w.generator g' := Store.get_modify_of_ne _ f h

theorem modifyGenerator_modifyGenerator (f f' : Generator → Generator) :
    (w.modifyGenerator g f).modifyGenerator g f' = w.modifyGenerator g (f' ∘ f) := by
  simp only [modifyGenerator, Store.modify_modify]

@[simp] theorem valid_modifyGenerator {f : Generator → Generator} :
    (w.modifyGenerator g f).generators.Valid g' ↔ w.generators.Valid g' := Store.valid_modify ..

theorem part_modifyGenerator {p : Generator → β} {f : Generator → Generator}
    (hf : ∀ x, p (f x) = p x) (w : World σ) (g g' : Ref .generator) :
    p ((w.modifyGenerator g f).generator g') = p (w.generator g') := by
  by_cases hg : g' = g
  · subst hg
    by_cases hv : w.generators.Valid g'
    · rw [generator_modify_self hv, hf]
    · rw [generator, Store.get_of_not_valid _ (mt valid_modifyGenerator.mp hv), generator,
        Store.get_of_not_valid _ hv]
  · rw [generator_modify_of_ne hg]

@[simp] theorem history_modifyGenerator {f : Generator → Generator} :
    (w.modifyGenerator g f).history = w.history := rfl

@[simp] theorem calls_modifyGenerator {f : Generator → Generator} :
    (w.modifyGenerator g f).calls = w.calls := rfl

@[simp] theorem generators_modifyGenerator {f : Generator → Generator} :
    (w.modifyGenerator g f).generators = w.generators.modify g f := rfl

@[simp] theorem history_modifyContext {f : Context → Context} :
    (w.modifyContext c f).history = w.history := rfl

@[simp] theorem generators_modifyContext {f : Context → Context} :
    (w.modifyContext c f).generators = w.generators := rfl

@[simp] theorem history_record (h : Happening) : (w.record h).history = h :: w.history := rfl

@[simp] theorem calls_record (h : Happening) : (w.record h).calls = w.calls := rfl

@[simp] theorem generators_record (h : Happening) : (w.record h).generators = w.generators := rfl

@[simp] theorem history_setActivity (a : Activity) : (w.setActivity a).history = w.history := by
  unfold setActivity
  split <;> rfl

@[simp] theorem generators_setActivity (a : Activity) :
    (w.setActivity a).generators = w.generators := by
  unfold setActivity
  split <;> rfl

@[simp] theorem links_setActivity (a : Activity) : (w.setActivity a).links = w.links := by
  unfold setActivity
  split <;> rfl

@[simp] theorem contexts_setActivity (a : Activity) : (w.setActivity a).contexts = w.contexts := by
  unfold setActivity
  split <;> rfl

theorem calls_setActivity {l : Level} (h : w.calls = .level l :: rest) (a : Activity) :
    (w.setActivity a).calls = .level { l with activity := a } :: rest := by
  unfold setActivity
  simp [h]

theorem calls_of_activation? (h : w.activation? = some a) :
    ∃ g c rest, w.calls = .level ⟨g, c, .running a⟩ :: rest := by
  unfold activation? at h
  split at h
  · next g c b rest hc =>
    cases h
    exact ⟨g, c, rest, hc⟩
  · cases h

end World

-- ---------------------------------------------------------------------------
-- Coherence
-- ---------------------------------------------------------------------------

namespace Standing

def duty? : Standing → Option Duty
  | inBody => some .body
  | forwarding _ => some .forwarding
  | _ => none

theorem state_eq_running_iff (s : Standing) : s.state = .running ↔ s.duty? ≠ none := by
  cases s <;> simp [state, duty?]

theorem ofDelivered_suspended (p : Option Payload) :
    (ofDelivered p).state = .suspended ∧ (ofDelivered p).duty? = none := by
  cases p <;> exact ⟨rfl, rfl⟩

theorem duty?_eq_body {s : Standing} : s.duty? = some .body ↔ s = .inBody := by
  cases s <;> simp [duty?]

end Standing

/-- Every generator is as the history says, and runs exactly while a level does something for
it. -/
structure World.Coherent (w : World σ) : Prop where
  lawful : Lawful w.history
  course : ∀ g, (w.generator g).course = .ofHistory g w.history
  made : ∀ g, w.generators.Valid g ↔ standing g w.history ≠ .absent
  duty : ∀ g, dutyIn g w.calls = (standing g w.history).duty?
  apart : w.calls.Pairwise Call.Apart

/-- A coherent world in which no body waits for what stopped its delegate. -/
structure World.Settled (w : World σ) : Prop extends w.Coherent where
  paid : ∀ g p, standing g w.history ≠ .owed p

namespace World

variable {w : World σ}

theorem Coherent.state_eq (hw : w.Coherent) (g : Ref .generator) :
    (w.generator g).state = (standing g w.history).state := congrArg Course.state (hw.course g)

theorem Coherent.delegate_eq (hw : w.Coherent) (g : Ref .generator) :
    (w.generator g).delegate = (standing g w.history).delegate :=
  congrArg Course.delegate (hw.course g)

theorem Coherent.running_iff (hw : w.Coherent) (g : Ref .generator) :
    (w.generator g).state = .running ↔ dutyIn g w.calls ≠ none := by
  rw [hw.state_eq, hw.duty, Standing.state_eq_running_iff]

theorem Coherent.standing_of_created (hw : w.Coherent) (h : (w.generator g).state = .created) :
    standing g w.history = .fresh := by
  rw [hw.state_eq] at h
  cases hs : standing g w.history with
  | fresh => rfl
  | _ =>
    rw [hs] at h
    cases h

theorem Settled.standing_of_suspended (hw : w.Settled) (h : (w.generator g).state = .suspended) :
    standing g w.history = .suspended (w.generator g).delegate := by
  rw [hw.state_eq] at h
  rw [hw.delegate_eq]
  cases hs : standing g w.history with
  | suspended d => rfl
  | owed p => exact absurd hs (hw.paid g p)
  | _ =>
    rw [hs] at h
    cases h

theorem Settled.standing_of_finished (hw : w.Settled) (hv : w.generators.Valid g)
    (hs : (w.generator g).state = .finished) : standing g w.history = .finished := by
  have habsent := (hw.made g).mp hv
  rw [hw.state_eq] at hs
  cases h : standing g w.history with
  | finished => rfl
  | absent => exact absurd h habsent
  | _ =>
    rw [h] at hs
    cases hs

end World

/-- A later world on the same stack. Nothing befell the generators that run on it. -/
structure World.Kept (w w' : World σ) : Prop where
  settled : w'.Settled
  stack : SameStack w.calls w'.calls
  follows : ∃ later, w'.history = later ++ w.history ∧
    ∀ x ∈ later, dutyIn x.generator w.calls = none

/-- A later world in which nothing befell any generator. -/
structure World.Idle (w w' : World σ) : Prop where
  history : w'.history = w.history
  course : ∀ g, (w'.generator g).course = (w.generator g).course
  made : ∀ g, w'.generators.Valid g ↔ w.generators.Valid g
  stack : SameStack w.calls w'.calls

namespace World

variable {w w' v : World σ}

namespace Idle

theorem refl (w : World σ) : w.Idle w := ⟨rfl, fun _ => rfl, fun _ => .rfl, .refl _⟩

theorem trans (h : w.Idle v) (h' : v.Idle w') : w.Idle w' where
  history := h'.history.trans h.history
  course g := (h'.course g).trans (h.course g)
  made g := (h'.made g).trans (h.made g)
  stack := h.stack.trans h'.stack

theorem of_eq (hh : w'.history = w.history) (hg : w'.generators = w.generators)
    (hc : w'.calls = w.calls) : w.Idle w' where
  history := hh
  course g := by simp only [generator, hg]
  made g := by rw [hg]
  stack := hc ▸ .refl _

theorem modifyGenerator {f : Generator → Generator} (hf : ∀ x, (f x).course = x.course) :
    w.Idle (w.modifyGenerator g f) where
  history := rfl
  course := part_modifyGenerator hf w g
  made _ := valid_modifyGenerator
  stack := .refl _

theorem setActivation (h : w.calls = .level ⟨g, c, .running a⟩ :: rest) (b : Activation) :
    w.Idle (w.setActivity (.running b)) where
  history := history_setActivity _
  course g' := by simp only [generator, generators_setActivity]
  made g' := by rw [generators_setActivity]
  stack := by
    rw [calls_setActivity h, h]
    exact .activation g c a b rest

theorem coherent (h : w.Idle w') (hw : w.Coherent) : w'.Coherent where
  lawful := h.history ▸ hw.lawful
  course g := by rw [h.course, hw.course, h.history]
  made g := by rw [h.made, hw.made, h.history]
  duty g := by rw [h.stack.dutyIn_eq, hw.duty, h.history]
  apart := h.stack.apart hw.apart

theorem kept (h : w.Idle w') (hw : w.Settled) : w.Kept w' where
  settled := ⟨h.coherent hw.toCoherent, fun g p => h.history ▸ hw.paid g p⟩
  stack := h.stack
  follows := ⟨[], h.history, by simp⟩

end Idle

namespace Kept

theorem refl (hw : w.Settled) : w.Kept w := (Idle.refl w).kept hw

theorem trans (h : w.Kept v) (h' : v.Kept w') : w.Kept w' := by
  obtain ⟨xs, hx, hxs⟩ := h.follows
  obtain ⟨ys, hy, hys⟩ := h'.follows
  refine ⟨h'.settled, h.stack.trans h'.stack, ys ++ xs, ?_, ?_⟩
  · rw [hy, hx, List.append_assoc]
  · intro x hm
    rcases List.mem_append.mp hm with hm | hm
    · rw [← h.stack.dutyIn_eq]
      exact hys x hm
    · exact hxs x hm

theorem standing_eq (h : w.Kept w') (hg : dutyIn g w.calls ≠ none) :
    standing g w'.history = standing g w.history := by
  obtain ⟨xs, hx, hxs⟩ := h.follows
  rw [hx]
  refine standing_append fun x hm he => hg ?_
  rw [← he]
  exact hxs x hm

end Kept

-- Calls that do nothing for a generator come and go.

theorem dutyIn_push {x : Call} (hx : ∀ g, x.duty? g = none) (g : Ref .generator) :
    dutyIn g (x :: rest) = dutyIn g rest := by
  rw [dutyIn_cons, hx, Option.none_or]

theorem Settled.push (hw : w.Settled) {x : Call} (hx : ∀ g, x.duty? g = none) :
    (w.push x).Settled where
  lawful := hw.lawful
  course := hw.course
  made := hw.made
  duty g := (dutyIn_push hx g).trans (hw.duty g)
  apart := List.pairwise_cons.mpr ⟨fun _ _ g => .inl (hx g), hw.apart⟩
  paid := hw.paid

theorem Settled.pop (hw : w.Settled) {x : Call} (hx : ∀ g, x.duty? g = none)
    (hc : w.calls = x :: rest) : w.pop.Settled where
  lawful := hw.lawful
  course := hw.course
  made := hw.made
  duty g := by
    have h := hw.duty g
    rw [hc, dutyIn_push hx] at h
    simpa [World.pop, hc] using h
  apart := by
    have h := hw.apart
    rw [hc, List.pairwise_cons] at h
    simpa [World.pop, hc] using h.2
  paid := hw.paid

theorem Kept.pop {x : Call} (h : (w.push x).Kept w') (hx : ∀ g, x.duty? g = none)
    (hc : w'.calls = x :: w.calls) : w.Kept w'.pop := by
  obtain ⟨later, hl, hd⟩ := h.follows
  refine ⟨h.settled.pop hx hc, ?_, later, hl, fun y hy => ?_⟩
  · simp only [World.pop, hc, List.tail_cons]
    exact .refl _
  · rw [← dutyIn_push hx]
    exact hd y hy

-- ---------------------------------------------------------------------------
-- One step
-- ---------------------------------------------------------------------------

end World

theorem Course.ofHistory_cons_self (h : Happening) (earlier : List Happening) :
    ofHistory h.generator (h :: earlier) =
      ⟨(h.standing?.getD (standing h.generator earlier)).state,
        (h.standing?.getD (standing h.generator earlier)).delegate,
        h.offset?.getD (ofHistory h.generator earlier).offset,
        h.target?.getD (ofHistory h.generator earlier).target⟩ := by
  simp only [ofHistory, standing_cons_self, latest_cons_self]
  cases h.offset? <;> cases h.target? <;> rfl

theorem Course.ofHistory_cons_of_ne {h : Happening} (hg : h.generator ≠ g) :
    ofHistory g (h :: earlier) = ofHistory g earlier := by
  simp only [ofHistory, standing_cons_of_ne hg, latest_cons_of_ne hg]

theorem Standing.Allows.absent_iff {h : Happening}
    (ha : (standing h.generator earlier).Allows h) :
    standing g (h :: earlier) ≠ .absent ↔ standing g earlier ≠ .absent ∨ ∃ t, h = .created g t := by
  by_cases hg : h.generator = g
  · subst hg
    have hne : standing h.generator (h :: earlier) ≠ .absent := by
      rw [standing_cons_self]
      cases hs : h.standing? with
      | some s => exact fun he => h.standing?_ne_absent (hs.trans (congrArg some he))
      | none =>
        intro he
        rw [show standing h.generator earlier = .absent from he] at ha
        cases ha
        cases hs
    refine iff_of_true hne ?_
    generalize standing h.generator earlier = s at ha
    cases ha with
    | created => exact .inr ⟨_, rfl⟩
    | _ => exact .inl (by simp)
  · rw [standing_cons_of_ne hg]
    refine ⟨.inl, ?_⟩
    rintro (he | ⟨t, rfl⟩)
    · exact he
    · exact absurd rfl hg

namespace World.Coherent

variable {w w' : World σ} {h : Happening}

theorem happen (hw : w.Coherent) (hist : w'.history = h :: w.history)
    (allows : (standing h.generator w.history).Allows h)
    (pays : ∀ g p, standing g w.history = .owed p → h = .entered g (some p))
    (made : ∀ g, w'.generators.Valid g ↔ w.generators.Valid g ∨ ∃ t, h = .created g t)
    (own : (w'.generator h.generator).course = .ofHistory h.generator (h :: w.history))
    (others : ∀ g, h.generator ≠ g → (w'.generator g).course = (w.generator g).course)
    (ownDuty : dutyIn h.generator w'.calls = (standing h.generator (h :: w.history)).duty?)
    (otherDuty : ∀ g, h.generator ≠ g → dutyIn g w'.calls = dutyIn g w.calls)
    (apart : w'.calls.Pairwise Call.Apart) : w'.Coherent where
  lawful := hist ▸ .cons hw.lawful allows pays
  course g := by
    rw [hist]
    by_cases hg : h.generator = g
    · exact hg ▸ own
    · rw [others g hg, hw.course, Course.ofHistory_cons_of_ne hg]
  made g := by rw [made, hw.made, hist, allows.absent_iff]
  duty g := by
    rw [hist]
    by_cases hg : h.generator = g
    · exact hg ▸ ownDuty
    · rw [otherDuty g hg, hw.duty, standing_cons_of_ne hg]
  apart := apart

theorem happenOnTop {f : Generator → Generator} (hw : w.Coherent)
    (hist : w'.history = h :: w.history)
    (top : w.calls = .level ⟨h.generator, c, a⟩ :: rest)
    (top' : w'.calls = .level ⟨h.generator, c, a'⟩ :: rest)
    (gens : w'.generators = w.generators.modify h.generator f)
    (allows : (standing h.generator w.history).Allows h)
    (pays : ∀ g p, standing g w.history = .owed p → h = .entered g (some p))
    (notCreated : ∀ t, h ≠ .created h.generator t)
    (own : (f (w.generator h.generator)).course =
      ⟨(standing h.generator (h :: w.history)).state,
        (standing h.generator (h :: w.history)).delegate,
        h.offset?.getD (w.generator h.generator).offset,
        h.target?.getD (w.generator h.generator).target⟩)
    (idle : a.duty? ≠ none ∨ (standing h.generator w.history).duty? = none)
    (duty : a'.duty? = (standing h.generator (h :: w.history)).duty?) : w'.Coherent := by
  have hapart := hw.apart
  rw [top, List.pairwise_cons] at hapart
  have hrest : dutyIn h.generator rest = none := by
    have hd := hw.duty h.generator
    rw [top, dutyIn_cons, Call.duty?_level_self] at hd
    cases ha : a.duty? with
    | none =>
      rw [ha, Option.none_or] at hd
      exact hd.trans (idle.resolve_left fun h => h ha)
    | some d =>
      refine dutyIn_eq_none.mpr fun x hx => ?_
      refine (hapart.1 x hx h.generator).resolve_left ?_
      rw [Call.duty?_level_self, ha]
      simp
  have hc := hw.course h.generator
  simp only [Generator.course, Course.ofHistory, Course.mk.injEq] at hc
  have hv : w.generators.Valid h.generator := (hw.made _).mpr fun he => by
    rw [he] at allows
    cases allows
    exact notCreated _ rfl
  refine hw.happen hist allows pays ?_ ?_ ?_ ?_ ?_ ?_
  · intro g
    rw [gens, Store.valid_modify]
    refine ⟨.inl, fun hg => hg.resolve_right ?_⟩
    rintro ⟨t, rfl⟩
    exact notCreated t rfl
  · rw [generator, gens, Store.get_modify_self _ _ hv]
    refine own.trans ?_
    rw [Course.ofHistory_cons_self, standing_cons_self, hc.2.2.1, hc.2.2.2]
    rfl
  · intro g hg
    rw [generator, gens, Store.get_modify_of_ne _ _ (Ne.symm hg)]
    rfl
  · rw [top', dutyIn_cons, hrest, Call.duty?_level_self, Option.or_none, duty]
  · intro g hg
    rw [top, top', dutyIn_level_of_ne hg, dutyIn_level_of_ne hg]
  · rw [top', List.pairwise_cons]
    refine ⟨fun x hx g => ?_, hapart.2⟩
    by_cases hg : h.generator = g
    · exact .inr (hg ▸ dutyIn_eq_none.mp hrest x hx)
    · exact .inl (Call.duty?_level_of_ne hg)

theorem paid (pays : ∀ g p, standing g w.history = .owed p → h = .entered g (some p))
    (next : ∀ p, standing h.generator (h :: w.history) ≠ .owed p) (g : Ref .generator)
    (p : Payload) : standing g (h :: w.history) ≠ .owed p := by
  by_cases hg : h.generator = g
  · exact hg ▸ next p
  · rw [standing_cons_of_ne hg]
    intro ho
    rw [pays g p ho] at hg
    exact hg rfl

end World.Coherent

end Resumable
