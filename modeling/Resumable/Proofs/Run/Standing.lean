import Resumable.Run.History

/-!
# What a history says of a generator

The latest happening that matters tells where a generator stands, and the yields of its body tell
where the body is resumed next. `Lawful` histories are those in which every happening is one that
the generator stood for; once a delegate has stopped, the next happening is the entry of the body
that is resumed with what stopped it. Histories list the latest happening first.
-/

namespace Resumable

-- ---------------------------------------------------------------------------
-- What stopped a delegate
-- ---------------------------------------------------------------------------

/-- What a body is resumed with when its delegate failed. Bodies may not catch every failure. -/
def Failure.delivered? (f : Failure) : Option Payload :=
  match f.stopValue?, f with
  | some v, _ => some (.send v)
  | none, .raised r => some (.throw r.exc false)
  | none, _ => none

/-- What a body is resumed with when the closing of its delegate ended, for an exception that asks
the body to exit. -/
def exitDelivered? (exit : Exc) (hostTrace : Bool) : Except Failure Unit → Option Payload
  | .ok () => some (.throw exit hostTrace)
  | .error (.raised r) => some (.throw r.exc hostTrace)
  | .error _ => none

-- ---------------------------------------------------------------------------
-- Standings
-- ---------------------------------------------------------------------------

inductive Standing where
  | absent
  | fresh
  | inBody
  | suspended (delegate : Option (Ref .generator))
  | forwarding (delegate : Ref .generator)
  /-- The delegate stopped, and the body is to be resumed with what stopped it. -/
  | owed (p : Payload)
  | finished

namespace Standing

def state : Standing → GeneratorState
  | fresh => GeneratorState.created
  | inBody | forwarding _ => .running
  | suspended _ | owed _ => .suspended
  | absent | finished => .finished

def delegate : Standing → Option (Ref .generator)
  | suspended d => d
  | forwarding sub => some sub
  | _ => none

def ofDelivered : Option Payload → Standing
  | some p => owed p
  | none => suspended none

end Standing

def Happening.standing? : Happening → Option Standing
  | created .. => some .fresh
  | entered .. => some .inBody
  | left _ (.ok (.yields s)) => some (.suspended s.delegate)
  | left .. => some .finished
  | forwarded _ sub => some (.forwarding sub)
  | answered _ sub (.ok _) => some (.suspended (some sub))
  | answered _ _ (.error f) => some (.ofDelivered f.delivered?)
  | exited _ _ exit hostTrace a => some (.ofDelivered (exitDelivered? exit hostTrace a))
  | traced _ _ (.finish ..) => some .finished
  | traced .. => none

inductive TraceEvent.Ends : Except Failure BodyResult → TraceEvent → Prop
  | yielded : Ends (.ok (.yields s)) (.yield name s.resumeAt)
  | returned : Ends (.ok (.returns v)) (.finish name .returned)
  | raised : Ends (.error f) (.finish name .raised)

theorem TraceEvent.Ends.ne_resume (h : Ends r e) : ∀ name kind d, e ≠ .resume name kind d := by
  cases h <;> nofun

theorem Happening.standing?_ne_absent (h : Happening) : h.standing? ≠ some .absent := by
  unfold standing?
  split <;> simp [Standing.ofDelivered]
  all_goals split <;> simp

theorem Happening.standing?_eq_fresh {h : Happening} (hf : h.standing? = some .fresh) :
    ∃ g t, h = .created g t := by
  unfold standing? at hf
  split at hf
  case h_1 g t => exact ⟨g, t, rfl⟩
  all_goals simp [Standing.ofDelivered] at hf
  all_goals split at hf <;> simp at hf

/-- What may befall a generator next. -/
inductive Standing.Allows : Standing → Happening → Prop
  | created : Allows .absent (.created g t)
  | entered : Allows .fresh (.entered g p)
  | resumed : Allows (.suspended none) (.entered g p)
  | paid : Allows (.owed p) (.entered g (some p))
  | left : Allows .inBody (.left g r)
  | forwarded : Allows (.suspended (some sub)) (.forwarded g sub)
  | answered : Allows (.forwarding sub) (.answered g sub a)
  | exited : Allows (.forwarding sub) (.exited g sub exit hostTrace a)
  | tracedResume : Allows .inBody (.traced c g (.resume name kind depth))
  | tracedYield : Allows (.suspended d) (.traced c g (.yield name offset))
  | closedFresh : Allows .fresh (.traced c g (.finish name reason))
  | closedSuspended : Allows (.suspended d) (.traced c g (.finish name reason))
  | tracedFinish : Allows .finished (.traced c g (.finish name reason))

/-- The latest thing of a kind that a history says of a generator. -/
def latest (f : Happening → Option β) (g : Ref .generator) : List Happening → Option β
  | [] => none
  | h :: earlier => if h.generator = g then (f h).or (latest f g earlier) else latest f g earlier

theorem latest_cons_self {f : Happening → Option β} (h : Happening) (earlier : List Happening) :
    latest f h.generator (h :: earlier) = (f h).or (latest f h.generator earlier) :=
  if_pos rfl

theorem latest_cons_of_ne {f : Happening → Option β} {h : Happening} (hg : h.generator ≠ g) :
    latest f g (h :: earlier) = latest f g earlier := if_neg hg

theorem latest_eq_none {f : Happening → Option β} {hist : List Happening}
    (h : ∀ x ∈ hist, x.generator = g → f x = none) : latest f g hist = none := by
  induction hist with
  | nil => rfl
  | cons x xs ih =>
    have hxs := ih fun y hy => h y (List.mem_cons_of_mem _ hy)
    by_cases hg : x.generator = g
    · have hx := h x (List.mem_cons_self ..) hg
      subst hg
      rw [latest_cons_self, hx, hxs]
      rfl
    · rw [latest_cons_of_ne hg, hxs]

theorem latest_append {f : Happening → Option β} {later : List Happening}
    (h : ∀ x ∈ later, x.generator ≠ g) : latest f g (later ++ earlier) = latest f g earlier := by
  induction later with
  | nil => rfl
  | cons x xs ih =>
    rw [List.cons_append, latest_cons_of_ne (h x (List.mem_cons_self ..))]
    exact ih fun y hy => h y (List.mem_cons_of_mem _ hy)

/-- Where a generator stands after a history. -/
def standing (g : Ref .generator) (hist : List Happening) : Standing :=
  (latest Happening.standing? g hist).getD .absent

theorem standing_cons_self (h : Happening) (earlier : List Happening) :
    standing h.generator (h :: earlier) = h.standing?.getD (standing h.generator earlier) := by
  unfold standing
  rw [latest_cons_self]
  cases h.standing? <;> rfl

theorem standing_cons_of_ne {h : Happening} (hg : h.generator ≠ g) :
    standing g (h :: earlier) = standing g earlier := by
  rw [standing, standing, latest_cons_of_ne hg]

theorem standing_cons_of_some {h : Happening} (hg : h.generator = g) (hs : h.standing? = some s)
    (earlier : List Happening) : standing g (h :: earlier) = s := by
  rw [← hg, standing_cons_self, hs, Option.getD_some]

theorem standing_finish : standing g (.traced c g (.finish name reason) :: earlier) = .finished :=
  standing_cons_of_some rfl rfl _

theorem standing_append {later : List Happening} (h : ∀ x ∈ later, x.generator ≠ g) :
    standing g (later ++ earlier) = standing g earlier := by
  rw [standing, standing, latest_append h]

-- ---------------------------------------------------------------------------
-- Lawful histories
-- ---------------------------------------------------------------------------

inductive Lawful : List Happening → Prop
  | nil : Lawful []
  | cons : Lawful earlier → (standing h.generator earlier).Allows h →
      (∀ g p, standing g earlier = .owed p → h = .entered g (some p)) → Lawful (h :: earlier)

namespace Lawful

theorem tail (h : Lawful (x :: earlier)) : Lawful earlier := by
  cases h with
  | cons h _ _ => exact h

theorem of_append {later : List Happening} (h : Lawful (later ++ earlier)) : Lawful earlier := by
  induction later with
  | nil => exact h
  | cons x xs ih => exact ih h.tail

theorem allows (h : Lawful (x :: earlier)) : (standing x.generator earlier).Allows x := by
  cases h with
  | cons _ ha _ => exact ha

theorem pays (h : Lawful (x :: earlier)) (ho : standing g earlier = .owed p) :
    x = .entered g (some p) := by
  cases h with
  | cons _ _ hp => exact hp g p ho

theorem generator_ne_of_absent (h : Lawful hist) (ha : standing g hist = .absent) :
    ∀ x ∈ hist, x.generator ≠ g := by
  induction h with
  | nil => simp
  | @cons earlier x _ hx _ ih =>
    by_cases hg : x.generator = g
    · subst hg
      rw [standing_cons_self] at ha
      cases hs : x.standing? with
      | some s =>
        simp only [hs, Option.getD_some] at ha
        exact absurd (ha ▸ hs) x.standing?_ne_absent
      | none =>
        rw [hs] at ha
        rw [show standing x.generator earlier = .absent from ha] at hx
        cases hx
        simp [Happening.standing?] at hs
    · rw [standing_cons_of_ne hg] at ha
      simpa [hg] using ih ha

theorem of_fresh (h : Lawful hist) (hf : standing g hist = .fresh) :
    ∀ x ∈ hist, x.generator = g → x.standing?.getD .fresh = .fresh := by
  induction h with
  | nil => simp
  | @cons earlier x hl hx _ ih =>
    by_cases hg : x.generator = g
    · subst hg
      rw [standing_cons_self] at hf
      cases hs : x.standing? with
      | some s =>
        simp only [hs, Option.getD_some] at hf
        obtain ⟨g, t, rfl⟩ := Happening.standing?_eq_fresh (hf ▸ hs)
        generalize he : standing _ earlier = e at hx
        cases hx
        intro y hy hyg
        rcases List.mem_cons.mp hy with rfl | hy
        · rfl
        · exact absurd hyg (hl.generator_ne_of_absent he y hy)
      | none =>
        rw [hs] at hf
        intro y hy hyg
        rcases List.mem_cons.mp hy with rfl | hy
        · rw [hs]
          rfl
        · exact ih hf y hy hyg
    · rw [standing_cons_of_ne hg] at hf
      intro y hy hyg
      rcases List.mem_cons.mp hy with rfl | hy
      · exact absurd hyg hg
      · exact ih hf y hy hyg

theorem of_finished {later : List Happening} (h : Lawful (later ++ hist))
    (hf : standing g hist = .finished) :
    standing g (later ++ hist) = .finished ∧ ∀ p, .entered g p ∉ later := by
  induction later with
  | nil => exact ⟨hf, by simp⟩
  | cons x xs ih =>
    rw [List.cons_append] at h ⊢
    obtain ⟨hxs, hne⟩ := ih h.tail
    have hx := h.allows
    by_cases hg : x.generator = g
    · subst hg
      rw [hxs] at hx
      generalize hs : Standing.finished = s at hx
      cases hx with
      | tracedFinish =>
        exact ⟨standing_finish, fun p hp => hne p ((List.mem_cons.mp hp).resolve_left nofun)⟩
      | _ => cases hs
    · refine ⟨(standing_cons_of_ne hg).trans hxs, fun p hp => ?_⟩
      rcases List.mem_cons.mp hp with rfl | hp
      · exact hg rfl
      · exact hne p hp

theorem after_finished {later : List Happening} (h : Lawful (later ++ hist))
    (hf : standing g hist = .finished) :
    ∀ x ∈ later, x.generator = g → ∃ c name reason, x = .traced c g (.finish name reason) := by
  induction later with
  | nil => simp
  | cons x xs ih =>
    rw [List.cons_append] at h
    intro y hy hg
    rcases List.mem_cons.mp hy with rfl | hy
    · have hallows := h.allows
      rw [hg, (h.tail.of_finished hf).1] at hallows
      cases hallows with
      | tracedFinish => exact ⟨_, _, _, by rw [← hg]; rfl⟩
    · exact ih h.tail y hy hg

end Lawful

-- ---------------------------------------------------------------------------
-- Offsets and entry points
-- ---------------------------------------------------------------------------

def Happening.offset? : Happening → Option Int
  | left _ (.ok (.yields s)) => some s.resumeAt
  | _ => none

theorem Happening.offset?_eq_none {h : Happening} (hf : h.standing?.getD .fresh = .fresh) :
    h.offset? = none := by
  unfold offset?
  split
  · cases hf
  · rfl

def Happening.target? : Happening → Option Target
  | created _ t => some t
  | left _ (.ok (.yields s)) => s.retarget
  | _ => none

structure Course where
  state : GeneratorState
  delegate : Option (Ref .generator)
  offset : Int
  target : Target

def Generator.course (g : Generator) : Course := ⟨g.state, g.delegate, g.offset, g.target⟩

/-- The course of a generator after a history. Its offset is `-1` before the first yield. -/
def Course.ofHistory (g : Ref .generator) (hist : List Happening) : Course where
  state := (standing g hist).state
  delegate := (standing g hist).delegate
  offset := (latest Happening.offset? g hist).getD (-1)
  target := (latest Happening.target? g hist).getD default

end Resumable
