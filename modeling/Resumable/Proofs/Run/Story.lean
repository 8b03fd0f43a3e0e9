import Resumable.Proofs.Run.Standing

/-!
# Stories

A story is what befalls generators while something runs to its end in one context: whatever begins
in it ends in it. Stories are put together from complete runs of bodies, complete resumptions of
delegates and what is done aside, each one level deeper than what it is done for. Where an event has
its place in a story, and how often a generator is reported finished, is read off how the story is put
together.
-/

namespace Resumable

/-- What happens after a history while something runs to its end in the context `c`, `d` levels
deep. The latest happening stands first, in the story and in the history before it. -/
inductive Story (c : Ref .context) : Nat → List Happening → List Happening → Prop
  | nil : Story c d [] before
  | append : Story c d mid before → Story c d later (mid ++ before) →
      Story c d (later ++ mid) before
  | created : standing g before = .absent → Story c d [.created g t] before
  /-- A body runs, one level in, and what it does is a story of its own. -/
  | body : (standing g before).Allows (.entered g p) →
      Story c (d + 1) nested (.traced c g (.resume name kind (d + 1)) :: .entered g p :: before) →
      (∀ x ∈ nested, x.generator ≠ g) → e.Ends r →
      Story c d (.traced c g e :: .left g r ::
        (nested ++ [.traced c g (.resume name kind (d + 1)), .entered g p])) before
  | passed : standing g before = .suspended (some sub) →
      Story c (d + 1) nested (.forwarded g sub :: before) → (∀ x ∈ nested, x.generator ≠ g) →
      Story c d (.traced c g (.yield name offset) :: .answered g sub (.ok v) ::
        (nested ++ [.forwarded g sub])) before
  | stopped : standing g before = .suspended (some sub) →
      Story c (d + 1) nested (.forwarded g sub :: before) → (∀ x ∈ nested, x.generator ≠ g) →
      Story c d (.answered g sub (.error f) :: (nested ++ [.forwarded g sub])) before
  | exited : standing g before = .suspended (some sub) →
      Story c (d + 1) nested (.forwarded g sub :: before) → (∀ x ∈ nested, x.generator ≠ g) →
      Story c d (.exited g sub exit hostTrace a :: (nested ++ [.forwarded g sub])) before
  /-- A generator is finished without its body. -/
  | closed : standing g before ≠ .finished →
      Story c d [.traced c g (.finish name .closed)] before

theorem Story.of_created (h : Lawful hist) (hc : ∀ x ∈ hist, ∃ g t, x = .created g t) :
    Story c d hist [] := by
  induction h with
  | nil => exact .nil
  | @cons earlier x _ hallows _ ih =>
    obtain ⟨g, t, rfl⟩ := hc x (List.mem_cons_self ..)
    have habsent : standing g earlier = .absent := by
      simp only [Happening.generator] at hallows
      generalize standing g earlier = s at hallows
      cases hallows
      rfl
    have hstory := ih fun y hy => hc y (List.mem_cons_of_mem _ hy)
    exact .append hstory
      (.created (by simpa using habsent) : Story c d [.created g t] (earlier ++ []))

-- ---------------------------------------------------------------------------
-- Levels
-- ---------------------------------------------------------------------------

def levelsOpen : List Happening → Nat
  | [] => 0
  | .entered .. :: before | .forwarded .. :: before => levelsOpen before + 1
  | .left .. :: before | .answered .. :: before | .exited .. :: before => levelsOpen before - 1
  | .created .. :: before | .traced .. :: before => levelsOpen before

theorem Story.levelsOpen_eq (h : Story c d later before) :
    levelsOpen (later ++ before) = levelsOpen before := by
  induction h with
  | nil | created | closed => rfl
  | append _ _ ih ih' => rw [List.append_assoc, ih', ih]
  | body _ _ _ _ ih | passed _ _ _ ih | stopped _ _ _ ih | exited _ _ _ ih =>
    simp [levelsOpen, ih]

-- ---------------------------------------------------------------------------
-- Places of events
-- ---------------------------------------------------------------------------

/-- Why an event of `g` is where it is: what is told after it, and what was told before. -/
inductive TraceEvent.InPlace (c : Ref .context) (base : Nat) (g : Ref .generator)
    (after before : List Happening) : TraceEvent → Prop
  | resume : before = .entered g p :: earlier → d = base + levelsOpen earlier + 1 →
      after = rest ++ .traced c g e :: .left g r :: nested → e.Ends r →
      (∀ x ∈ nested, x.generator ≠ g) →
      Story c d nested (.traced c g (.resume name kind d) :: before) →
      InPlace c base g after before (.resume name kind d)
  | ended : before = .left g r ::
        (nested ++ .traced c g (.resume name kind d) :: .entered g p :: earlier) → e.Ends r →
      (∀ x ∈ nested, x.generator ≠ g) → InPlace c base g after before e
  /-- The delegate has answered the resumption passed on to it with a value. -/
  | passed : before = .answered g sub (.ok v) :: (nested ++ .forwarded g sub :: earlier) →
      (∀ x ∈ nested, x.generator ≠ g) → standing g earlier = .suspended (some sub) →
      InPlace c base g after before (.yield name offset)
  | closed : standing g before ≠ .finished → InPlace c base g after before (.finish name .closed)

def Throughout (R : List Happening → Happening → List Happening → Prop) (after : List Happening) :
    List Happening → List Happening → Prop
  | [], _ => True
  | x :: story, before => R after x (story ++ before) ∧ Throughout R (after ++ [x]) story before

namespace Throughout

variable {R : List Happening → Happening → List Happening → Prop}

theorem append (h : Throughout R after later (mid ++ before))
    (h' : Throughout R (after ++ later) mid before) :
    Throughout R after (later ++ mid) before := by
  induction later generalizing after with
  | nil => simpa using h'
  | cons x later ih =>
    refine ⟨by simpa using h.1, ih h.2 ?_⟩
    simpa using h'

theorem holds (h : Throughout R after (later ++ x :: mid) before) :
    R (after ++ later) x (mid ++ before) := by
  induction later generalizing after with
  | nil => simpa using h.1
  | cons y later ih => simpa using ih h.2

end Throughout

theorem Story.in_place (h : Story c d later before) (hd : d = base + levelsOpen before)
    (after : List Happening) :
    Throughout (fun after x before => ∀ c' g e, x = .traced c' g e →
      c' = c ∧ e.InPlace c base g after before) after later before := by
  induction h generalizing after with
  | nil => trivial
  | created => exact ⟨nofun, trivial⟩
  | append h _ ih ih' =>
    exact (ih' (by rw [h.levelsOpen_eq, hd]) _).append (ih hd _)
  | @body g before p d nested name kind e r _ hnested hne he ih =>
    have hopen : d + 1 = base + levelsOpen
        (.traced c g (.resume name kind (d + 1)) :: .entered g p :: before) := by
      simp [levelsOpen, hd, Nat.add_assoc]
    have hafter : after ++ [.traced c g e] ++ [.left g r] ++ nested =
        after ++ .traced c g e :: .left g r :: nested := by simp
    have hbefore : .left g r :: (nested ++ [.traced c g (.resume name kind (d + 1)),
        .entered g p]) ++ before = .left g r :: (nested ++
          .traced c g (.resume name kind (d + 1)) :: .entered g p :: before) := by simp
    refine ⟨?_, nofun, (ih hopen _).append ⟨?_, nofun, trivial⟩⟩
    · rintro c' g' e' ⟨⟩
      exact ⟨rfl, .ended hbefore he hne⟩
    · rintro c' g' e' ⟨⟩
      exact ⟨rfl, .resume rfl (congrArg (· + 1) hd) hafter he hne hnested⟩
  | @passed g before sub d nested name offset v hs _ hne ih =>
    have hbefore : .answered g sub (.ok v) :: (nested ++ [.forwarded g sub]) ++ before =
        .answered g sub (.ok v) :: (nested ++ .forwarded g sub :: before) := by simp
    refine ⟨?_, nofun, (ih (by simp [levelsOpen, hd, Nat.add_assoc]) _).append ⟨nofun, trivial⟩⟩
    rintro c' g' e' ⟨⟩
    exact ⟨rfl, .passed hbefore hne hs⟩
  | stopped _ _ _ ih | exited _ _ _ ih =>
    exact ⟨nofun, (ih (by simp [levelsOpen, hd, Nat.add_assoc]) _).append ⟨nofun, trivial⟩⟩
  | closed hs =>
    refine ⟨?_, trivial⟩
    rintro c' g' e' ⟨⟩
    exact ⟨rfl, .closed hs⟩

-- ---------------------------------------------------------------------------
-- Ends of generators
-- ---------------------------------------------------------------------------

def Happening.finishes (g : Ref .generator) : Happening → Bool
  | traced _ g' (.finish ..) => decide (g' = g)
  | _ => false

def finishesOf (g : Ref .generator) (hist : List Happening) : Nat := hist.countP (·.finishes g)

theorem Happening.finishes_of_ne {x : Happening} (h : x.generator ≠ g) : x.finishes g = false := by
  unfold finishes
  split
  · simpa [Happening.generator] using h
  · rfl

/-- It has been reported once that the generator is finished if it is, and not if it is not. -/
structure ReportedOnce (g : Ref .generator) (hist : List Happening) : Prop where
  finished : standing g hist = .finished → finishesOf g hist = 1
  unfinished : standing g hist ≠ .finished → finishesOf g hist = 0

theorem finishesOf_cons {x : Happening} (h : x.finishes g = false) (before : List Happening) :
    finishesOf g (x :: before) = finishesOf g before :=
  List.countP_cons_of_neg (by simp [h])

namespace ReportedOnce

theorem of_ne (later : List Happening) (h : ReportedOnce g before)
    (hne : ∀ x ∈ later, x.generator ≠ g) : ReportedOnce g (later ++ before) := by
  have hnone : later.countP (·.finishes g) = 0 :=
    List.countP_eq_zero.mpr fun x hx => by simp [Happening.finishes_of_ne (hne x hx)]
  have hcount : finishesOf g (later ++ before) = finishesOf g before := by
    rw [finishesOf, List.countP_append, hnone, Nat.zero_add, finishesOf]
  constructor <;> rw [standing_append hne, hcount]
  · exact h.finished
  · exact h.unfinished

theorem next {x : Happening} (h : ReportedOnce g before) (hx : ∀ g, x.finishes g = false)
    (hs : standing x.generator before ≠ .finished)
    (hnext : x.standing?.getD (standing x.generator before) ≠ .finished) :
    ReportedOnce g (x :: before) := by
  by_cases hg : x.generator = g
  · subst hg
    rw [← standing_cons_self] at hnext
    have hcount := finishesOf_cons (hx x.generator) before
    exact ⟨fun hf => absurd hf hnext, fun _ => hcount.trans (h.unfinished hs)⟩
  · exact .of_ne [x] h (by simpa using hg)

theorem finish (h : finishesOf g before = 0) (c : Ref .context) (name : String)
    (reason : FinishReason) : ReportedOnce g (.traced c g (.finish name reason) :: before) := by
  refine ⟨fun _ => ?_, fun hf => absurd standing_finish hf⟩
  rw [finishesOf, List.countP_cons_of_pos (by simp [Happening.finishes])]
  exact congrArg (· + 1) h

theorem ended (h : ∀ g, ReportedOnce g before) (hs : standing g before = .inBody) (he : e.Ends r)
    (c : Ref .context) (g' : Ref .generator) :
    ReportedOnce g' (.traced c g e :: .left g r :: before) := by
  have hin : standing g before ≠ .finished := by simp [hs]
  have hlast : ∀ name reason, ReportedOnce g'
      (.traced c g (.finish name reason) :: .left g r :: before) := fun name reason => by
    by_cases hg : g = g'
    · subst hg
      exact .finish ((finishesOf_cons rfl before).trans ((h g).unfinished hin)) c name reason
    · exact .of_ne [.traced c g (.finish name reason), .left g r] (h g')
        (by simpa [Happening.generator] using hg)
  cases he with
  | @yielded s name =>
    have hleft : standing g (.left g (.ok (.yields s)) :: before) = .suspended s.delegate :=
      standing_cons_of_some rfl rfl _
    have hyielded : standing g (.left g (.ok (.yields s)) :: before) ≠ .finished := by simp [hleft]
    exact ((h g').next (x := .left g (.ok (.yields s))) (fun _ => rfl) hin nofun).next
      (fun _ => rfl) hyielded hyielded
  | returned => exact hlast _ _
  | raised => exact hlast _ _

theorem forwarded (h : ∀ g, ReportedOnce g before)
    (hs : standing g before = .suspended (some sub)) (g' : Ref .generator) :
    ReportedOnce g' (.forwarded g sub :: before) :=
  (h g').next (x := .forwarded g sub) (fun _ => rfl) (by simp [Happening.generator, hs]) nofun

theorem heard {x : Happening}
    (h : ∀ g, ReportedOnce g (nested ++ .forwarded x.generator sub :: before))
    (hne : ∀ y ∈ nested, y.generator ≠ x.generator) (hx : ∀ g, x.finishes g = false)
    (hs : x.standing? = some s) (hf : s ≠ .finished) (g : Ref .generator) :
    ReportedOnce g (x :: (nested ++ .forwarded x.generator sub :: before)) := by
  have hin : standing x.generator (nested ++ .forwarded x.generator sub :: before) =
      .forwarding sub := (standing_append hne).trans (standing_cons_of_some rfl rfl _)
  exact (h g).next hx (by simp [hin]) (by simp [hs, hf])

theorem last (h : ReportedOnce g (after ++ .traced c g (.finish name reason) :: before))
    (hl : Lawful (after ++ .traced c g (.finish name reason) :: before)) :
    ∀ x ∈ after, x.generator ≠ g := by
  intro x hx hg
  obtain ⟨c', name', reason', rfl⟩ := hl.after_finished standing_finish x hx hg
  have hone := h.finished (hl.of_finished standing_finish).1
  have hearly : 0 < (Happening.traced c g (.finish name reason) :: before).countP (·.finishes g) :=
    List.countP_pos_iff.mpr ⟨_, List.mem_cons_self .., by simp [Happening.finishes]⟩
  have hlate : 0 < after.countP (·.finishes g) :=
    List.countP_pos_iff.mpr ⟨_, hx, by simp [Happening.finishes]⟩
  rw [finishesOf, List.countP_append] at hone
  omega

end ReportedOnce

theorem Standing.ofDelivered_ne_finished (p : Option Payload) : ofDelivered p ≠ .finished := by
  cases p <;> nofun

/-- While the body of a generator runs, or its delegate does, it is not finished. -/
theorem Story.reported_once (h : Story c d later before) (hg : ∀ g, ReportedOnce g before) :
    ∀ g, ReportedOnce g (later ++ before) := by
  induction h with
  | nil => exact hg
  | append _ _ ih ih' =>
    rw [List.append_assoc]
    exact ih' (ih hg)
  | @created g before d t hs =>
    exact fun g' => (hg g').next (x := .created g t) (fun _ => rfl)
      (by simp [Happening.generator, hs]) (by simp [Happening.standing?])
  | @body g before p d nested name kind e r hallows _ hne he ih =>
    have hnot : standing g before ≠ .finished := fun hf => by
      rw [hf] at hallows
      cases hallows
    have hentered : standing g (.entered g p :: before) = .inBody := standing_cons_of_some rfl rfl _
    have htold : standing g (.traced c g (.resume name kind (d + 1)) :: .entered g p :: before) =
        .inBody := (standing_cons_self (.traced c g _) _).trans hentered
    have hin : standing g (nested ++ .traced c g (.resume name kind (d + 1)) ::
        .entered g p :: before) = .inBody := (standing_append hne).trans htold
    simp only [List.cons_append, List.append_assoc, List.nil_append]
    refine ReportedOnce.ended (ih fun g' => ?_) hin he c
    refine ((hg g').next (x := .entered g p) (fun _ => rfl) hnot
      (by simp [Happening.standing?])).next (fun _ => rfl) ?_ ?_
    · simp [Happening.generator, hentered]
    · simp [Happening.generator, hentered, Happening.standing?]
  | @passed g before sub d nested name offset v hs _ hne ih =>
    have hheard := ReportedOnce.heard (x := .answered g sub (.ok v)) (ih (.forwarded hg hs)) hne
      (fun _ => rfl) rfl (by simp)
    have hanswered : standing g
        (.answered g sub (.ok v) :: (nested ++ .forwarded g sub :: before)) =
          .suspended (some sub) := standing_cons_of_some rfl rfl _
    simp only [List.cons_append, List.append_assoc, List.nil_append]
    refine fun g' => (hheard g').next (fun _ => rfl) ?_ ?_
    · simp [Happening.generator, hanswered]
    · simp [Happening.generator, hanswered, Happening.standing?]
  | @stopped g before sub d nested f hs _ hne ih =>
    simp only [List.cons_append, List.append_assoc, List.nil_append]
    exact .heard (x := .answered g sub (.error f)) (ih (.forwarded hg hs)) hne
      (fun _ => rfl) rfl (Standing.ofDelivered_ne_finished _)
  | @exited g before sub d nested exit hostTrace a hs _ hne ih =>
    simp only [List.cons_append, List.append_assoc, List.nil_append]
    exact .heard (x := .exited g sub exit hostTrace a) (ih (.forwarded hg hs)) hne
      (fun _ => rfl) rfl (Standing.ofDelivered_ne_finished _)
  | @closed g before d name hs =>
    intro g'
    by_cases hgg : g = g'
    · subst hgg
      exact .finish ((hg g).unfinished hs) c name .closed
    · exact .of_ne [.traced c g (.finish name .closed)] (hg g')
        (by simpa [Happening.generator] using hgg)

end Resumable
