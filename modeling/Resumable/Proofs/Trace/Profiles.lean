import Mathlib.Algebra.GroupWithZero.Nat
import Mathlib.Data.List.Sort
import Resumable.Trace.Tracer

/-!
# Profiles of traces

A profiler counts events as they come and a recorder keeps them. The report of the one is the
summary of what the other kept, and there is one summary only: it depends neither on the order of
the events nor on the order in which the counts are stored.
-/

namespace Resumable

-- ---------------------------------------------------------------------------
-- Summaries
-- ---------------------------------------------------------------------------

namespace TraceEvent

def resumed? : TraceEvent → Option String
  | resume name _ _ => some name
  | _ => none

def resumesBy (kind : ResumeKind) : TraceEvent → Bool
  | resume _ other _ => other = kind
  | _ => false

def yields : TraceEvent → Bool
  | yield .. => true
  | _ => false

def finishes (reason : FinishReason) : TraceEvent → Bool
  | finish _ other => other = reason
  | _ => false

def looksUp (cached : Bool) : TraceEvent → Bool
  | lookup other => other = cached
  | _ => false

def depth : TraceEvent → Nat
  | resume _ _ depth => depth
  | _ => 0

end TraceEvent

/-- A line of a report belongs before another: its count is greater, or its name smaller where the
counts are equal. -/
def Profile.Precedes (a b : String × Nat) : Prop := b.2 < a.2 ∨ a.2 = b.2 ∧ a.1 < b.1

/-- What a list of events comes to. -/
structure ProfileReport.Summarizes (r : ProfileReport) (events : List TraceEvent) : Prop where
  ordered : r.resumes.Pairwise Profile.Precedes
  mem_resumes : ∀ name n, (name, n) ∈ r.resumes ↔ n = events.countP (·.resumed? = some name) ∧ 0 < n
  totalResumes : r.totalResumes = (r.resumes.map Prod.snd).sum
  sends : r.sends = events.countP (·.resumesBy .send)
  throws : r.throws = events.countP (·.resumesBy .throw)
  yields : r.yields = events.countP (·.yields)
  returned : r.returned = events.countP (·.finishes .returned)
  raised : r.raised = events.countP (·.finishes .raised)
  closed : r.closed = events.countP (·.finishes .closed)
  depth_le : ∀ e ∈ events, e.depth ≤ r.maxDepth
  maxDepth : r.maxDepth = 0 ∨ ∃ e ∈ events, e.depth = r.maxDepth
  cacheHits : r.cacheHits = events.countP (·.looksUp true)
  cacheMisses : r.cacheMisses = events.countP (·.looksUp false)

-- ---------------------------------------------------------------------------
-- The order of lines
-- ---------------------------------------------------------------------------

namespace Profile

variable {a b c : String × Nat} {lines lines' : List (String × Nat)}

theorem before_eq_true_iff : before a b = true ↔ b.2 < a.2 ∨ a.2 = b.2 ∧ a.1 ≤ b.1 := by
  simp only [before, Bool.or_eq_true, Bool.and_eq_true, Bool.not_eq_true', decide_eq_true_eq,
    decide_eq_false_iff_not, beq_iff_eq, String.not_lt]

theorem before_trans (a b c : String × Nat) (h : before a b = true) (h' : before b c = true) :
    before a c = true := by
  rw [before_eq_true_iff] at *
  rcases h with h | ⟨h, hle⟩ <;> rcases h' with h' | ⟨h', hle'⟩
  · exact .inl (h'.trans h)
  · exact .inl (h' ▸ h)
  · exact .inl (h ▸ h')
  · exact .inr ⟨h.trans h', String.le_trans hle hle'⟩

theorem before_total (a b : String × Nat) : (before a b || before b a) = true := by
  rw [Bool.or_eq_true, before_eq_true_iff, before_eq_true_iff]
  rcases lt_trichotomy a.2 b.2 with h | h | h
  · exact .inr (.inl h)
  · rcases String.le_total a.1 b.1 with hle | hle
    · exact .inl (.inr ⟨h, hle⟩)
    · exact .inr (.inr ⟨h.symm, hle⟩)
  · exact .inl (.inl h)

theorem Precedes.of_before (h : before a b = true) (hne : a.1 ≠ b.1) : Precedes a b := by
  refine (before_eq_true_iff.mp h).imp id fun ⟨hcount, hle⟩ => ⟨hcount, ?_⟩
  exact String.not_le.mp fun hge => hne (String.le_antisymm hle hge)

theorem Precedes.asymm (h : Precedes a b) : ¬ Precedes b a := by
  rcases h with h | ⟨h, hlt⟩ <;> rintro (h' | ⟨h', hlt'⟩)
  · exact h.asymm h'
  · exact h.ne h'
  · exact h'.ne h
  · exact String.lt_asymm hlt hlt'

theorem pairwise_precedes (h : (lines.map Prod.fst).Nodup) :
    (lines.mergeSort before).Pairwise Precedes := by
  have hsorted := List.pairwise_mergeSort before_trans before_total lines
  have hnames : (lines.mergeSort before).Pairwise (·.1 ≠ ·.1) := by
    refine List.pairwise_map.mp ?_
    exact (((List.mergeSort_perm lines before).map Prod.fst).nodup_iff).mpr h
  exact hsorted.imp₂ (fun _ _ => Precedes.of_before) hnames

theorem eq_of_precedes (h : lines.Pairwise Precedes) (h' : lines'.Pairwise Precedes)
    (hmem : ∀ line, line ∈ lines ↔ line ∈ lines') : lines = lines' := by
  have hnodup : ∀ {l : List (String × Nat)}, l.Pairwise Precedes → l.Nodup := fun h =>
    h.imp fun hab he => (he ▸ hab).asymm (he ▸ hab)
  have hperm := (List.perm_ext_iff_of_nodup (hnodup h) (hnodup h')).mpr hmem
  exact hperm.eq_of_pairwise (fun _ _ _ _ hab hba => absurd hba hab.asymm) h h'

-- ---------------------------------------------------------------------------
-- Counting
-- ---------------------------------------------------------------------------

def countOf (name : String) (lines : List (String × Nat)) : Nat := (lines.lookup name).getD 0

theorem countOf_nil (name : String) : countOf name [] = 0 := rfl

theorem countOf_cons (name : String) (line : String × Nat) (lines : List (String × Nat)) :
    countOf name (line :: lines) = if name = line.1 then line.2 else countOf name lines := by
  rw [countOf, List.lookup_cons]
  by_cases h : name = line.1
  · simp [h]
  · rw [beq_false_of_ne h, if_neg h]
    rfl

theorem countOf_bump (name other : String) (lines : List (String × Nat)) :
    countOf other (bump name lines) =
      countOf other lines + if name = other then 1 else 0 := by
  induction lines with
  | nil => simp [bump, countOf_cons, countOf_nil, eq_comm]
  | cons line lines ih =>
    rw [bump]
    split
    · next hline =>
      by_cases h : name = other
      · simp [countOf_cons, hline, h]
      · simp [countOf_cons, hline, h, Ne.symm h]
    · next hline =>
      by_cases h : other = line.1
      · simp [countOf_cons, h, Ne.symm hline]
      · simp [countOf_cons, h, ih]

theorem names_bump (name : String) (lines : List (String × Nat)) :
    (bump name lines).map Prod.fst =
      if name ∈ lines.map Prod.fst then lines.map Prod.fst else lines.map Prod.fst ++ [name] := by
  induction lines with
  | nil => rfl
  | cons line lines ih =>
    rw [bump]
    split
    · next h => simp [h]
    · next h =>
      rw [List.map_cons, ih]
      by_cases hm : name ∈ lines.map Prod.fst <;> simp [hm, Ne.symm h]

theorem pos_of_mem_bump (h : ∀ line ∈ lines, 0 < line.2) :
    ∀ line ∈ bump name lines, 0 < line.2 := by
  induction lines with
  | nil => simp [bump]
  | cons line lines ih =>
    obtain ⟨hline, hlines⟩ := List.forall_mem_cons.mp h
    rw [bump]
    split
    · exact List.forall_mem_cons.mpr ⟨Nat.succ_pos _, hlines⟩
    · exact List.forall_mem_cons.mpr ⟨hline, ih hlines⟩

theorem mem_iff_countOf (hnames : (lines.map Prod.fst).Nodup) (hpos : ∀ line ∈ lines, 0 < line.2)
    (name : String) (n : Nat) : (name, n) ∈ lines ↔ n = countOf name lines ∧ 0 < n := by
  induction lines with
  | nil => simp +contextual [countOf_nil]
  | cons line lines ih =>
    obtain ⟨other, count⟩ := line
    rw [List.map_cons, List.nodup_cons] at hnames
    obtain ⟨hcount, hlines⟩ := List.forall_mem_cons.mp hpos
    by_cases h : name = other
    · subst h
      have hmem : (name, n) ∉ lines := fun h => hnames.1 (List.mem_map.mpr ⟨_, h, rfl⟩)
      simp only [List.mem_cons, Prod.mk.injEq, true_and, hmem, or_false, countOf_cons, if_true]
      exact ⟨fun h => ⟨h, h ▸ hcount⟩, And.left⟩
    · rw [countOf_cons, if_neg h, ← ih hnames.2 hlines]
      simp [h]

theorem countOf_perm (hnames : (lines.map Prod.fst).Nodup) (hpos : ∀ line ∈ lines, 0 < line.2)
    (h : lines'.Perm lines) (name : String) : countOf name lines' = countOf name lines := by
  have hnames' : (lines'.map Prod.fst).Nodup := (h.map Prod.fst).nodup_iff.mpr hnames
  have hpos' : ∀ line ∈ lines', 0 < line.2 := fun line hm => hpos line (h.mem_iff.mp hm)
  have hcount (n : Nat) : n = countOf name lines' ∧ 0 < n ↔ n = countOf name lines ∧ 0 < n := by
    rw [← mem_iff_countOf hnames' hpos', h.mem_iff, mem_iff_countOf hnames hpos]
  have hforth := hcount (countOf name lines)
  have hback := hcount (countOf name lines')
  omega

theorem add_eq (p : Profile) (e : TraceEvent) : p.add e =
    { resumes := match e.resumed? with
        | some name => bump name p.resumes
        | none => p.resumes
      sends := p.sends + [e].countP (·.resumesBy .send)
      throws := p.throws + [e].countP (·.resumesBy .throw)
      yields := p.yields + [e].countP (·.yields)
      returned := p.returned + [e].countP (·.finishes .returned)
      raised := p.raised + [e].countP (·.finishes .raised)
      closed := p.closed + [e].countP (·.finishes .closed)
      maxDepth := max p.maxDepth e.depth
      cacheHits := p.cacheHits + [e].countP (·.looksUp true)
      cacheMisses := p.cacheMisses + [e].countP (·.looksUp false) } := by
  rcases e with ⟨name, kind, depth⟩ | ⟨name, offset⟩ | ⟨name, reason⟩ | cached
  · cases kind <;> rfl
  · simp [add, TraceEvent.depth, TraceEvent.resumed?, TraceEvent.resumesBy, TraceEvent.yields,
      TraceEvent.finishes, TraceEvent.looksUp]
  · cases reason <;>
      simp [add, TraceEvent.depth, TraceEvent.resumed?, TraceEvent.resumesBy, TraceEvent.yields,
        TraceEvent.finishes, TraceEvent.looksUp]
  · cases cached <;>
      simp [add, TraceEvent.depth, TraceEvent.resumed?, TraceEvent.resumesBy, TraceEvent.yields,
        TraceEvent.finishes, TraceEvent.looksUp]

-- ---------------------------------------------------------------------------
-- Runs
-- ---------------------------------------------------------------------------

/-- A profile has counted a list of events. -/
structure Tallies (p : Profile) (events : List TraceEvent) : Prop where
  names : (p.resumes.map Prod.fst).Nodup
  pos : ∀ line ∈ p.resumes, 0 < line.2
  countOf : ∀ name, countOf name p.resumes = events.countP (·.resumed? = some name)
  sends : p.sends = events.countP (·.resumesBy .send)
  throws : p.throws = events.countP (·.resumesBy .throw)
  yields : p.yields = events.countP (·.yields)
  returned : p.returned = events.countP (·.finishes .returned)
  raised : p.raised = events.countP (·.finishes .raised)
  closed : p.closed = events.countP (·.finishes .closed)
  depth_le : ∀ e ∈ events, e.depth ≤ p.maxDepth
  maxDepth : p.maxDepth = 0 ∨ ∃ e ∈ events, e.depth = p.maxDepth
  cacheHits : p.cacheHits = events.countP (·.looksUp true)
  cacheMisses : p.cacheMisses = events.countP (·.looksUp false)

namespace Tallies

variable {p : Profile} {events : List TraceEvent}

theorem empty : Tallies .empty [] where
  names := List.nodup_nil
  pos := by simp [Profile.empty]
  countOf _ := rfl
  sends := rfl
  throws := rfl
  yields := rfl
  returned := rfl
  raised := rfl
  closed := rfl
  depth_le := by simp
  maxDepth := .inl rfl
  cacheHits := rfl
  cacheMisses := rfl

theorem resumes_add (h : p.Tallies events) (e : TraceEvent) :
    ((p.add e).resumes.map Prod.fst).Nodup ∧ (∀ line ∈ (p.add e).resumes, 0 < line.2) ∧
      ∀ name, Profile.countOf name (p.add e).resumes =
        (events ++ [e]).countP (·.resumed? = some name) := by
  rw [add_eq]
  simp only [List.countP_append, ← h.countOf]
  cases he : e.resumed? with
  | none => exact ⟨h.names, h.pos, by simp [he]⟩
  | some name =>
    refine ⟨?_, pos_of_mem_bump h.pos, fun other => ?_⟩
    · rw [names_bump]
      split
      · exact h.names
      · next hnew =>
        rw [← List.concat_eq_append, List.nodup_concat]
        exact ⟨hnew, h.names⟩
    · simp [countOf_bump, he, List.countP_singleton]

theorem add (h : p.Tallies events) (e : TraceEvent) : (p.add e).Tallies (events ++ [e]) where
  names := (h.resumes_add e).1
  pos := (h.resumes_add e).2.1
  countOf := (h.resumes_add e).2.2
  sends := by rw [add_eq, List.countP_append, ← h.sends]
  throws := by rw [add_eq, List.countP_append, ← h.throws]
  yields := by rw [add_eq, List.countP_append, ← h.yields]
  returned := by rw [add_eq, List.countP_append, ← h.returned]
  raised := by rw [add_eq, List.countP_append, ← h.raised]
  closed := by rw [add_eq, List.countP_append, ← h.closed]
  depth_le := by
    rw [add_eq, List.forall_mem_append, List.forall_mem_singleton]
    exact ⟨fun e' hm => (h.depth_le e' hm).trans (le_max_left ..), le_max_right ..⟩
  maxDepth := by
    rw [add_eq]
    rcases le_total e.depth p.maxDepth with hle | hle
    · simp only [max_eq_left hle]
      exact h.maxDepth.imp_right fun ⟨e', hm, he⟩ => ⟨e', List.mem_append_left _ hm, he⟩
    · exact .inr ⟨e, List.mem_append_right _ (List.mem_singleton_self e), (max_eq_right hle).symm⟩
  cacheHits := by rw [add_eq, List.countP_append, ← h.cacheHits]
  cacheMisses := by rw [add_eq, List.countP_append, ← h.cacheMisses]

theorem addAll (h : p.Tallies seen) (events : List TraceEvent) :
    (events.foldl Profile.add p).Tallies (seen ++ events) := by
  induction events generalizing p seen with
  | nil => simpa using h
  | cons e events ih => simpa using ih (h.add e)

theorem perm (h : p.Tallies events) (hlines : lines.Perm p.resumes) :
    Tallies { p with resumes := lines } events where
  names := (hlines.map Prod.fst).nodup_iff.mpr h.names
  pos line hm := h.pos line (hlines.mem_iff.mp hm)
  countOf name := (countOf_perm h.names h.pos hlines name).trans (h.countOf name)
  sends := h.sends
  throws := h.throws
  yields := h.yields
  returned := h.returned
  raised := h.raised
  closed := h.closed
  depth_le := h.depth_le
  maxDepth := h.maxDepth
  cacheHits := h.cacheHits
  cacheMisses := h.cacheMisses

theorem summarizes (h : p.Tallies events) : p.report.Summarizes events where
  ordered := pairwise_precedes h.names
  mem_resumes name n := by
    rw [← h.countOf, ← mem_iff_countOf h.names h.pos]
    exact (List.mergeSort_perm p.resumes before).mem_iff
  totalResumes := by
    simp only [report, List.sum_eq_foldl, List.foldl_map]
  sends := h.sends
  throws := h.throws
  yields := h.yields
  returned := h.returned
  raised := h.raised
  closed := h.closed
  depth_le := h.depth_le
  maxDepth := h.maxDepth
  cacheHits := h.cacheHits
  cacheMisses := h.cacheMisses

end Tallies

end Profile

namespace ProfileReport.Summarizes

variable {r r' : ProfileReport} {events events' : List TraceEvent}

theorem perm (h : r.Summarizes events) (hp : events'.Perm events) : r.Summarizes events' where
  ordered := h.ordered
  mem_resumes name n := by rw [hp.countP_eq]; exact h.mem_resumes name n
  totalResumes := h.totalResumes
  sends := by rw [hp.countP_eq]; exact h.sends
  throws := by rw [hp.countP_eq]; exact h.throws
  yields := by rw [hp.countP_eq]; exact h.yields
  returned := by rw [hp.countP_eq]; exact h.returned
  raised := by rw [hp.countP_eq]; exact h.raised
  closed := by rw [hp.countP_eq]; exact h.closed
  depth_le e he := h.depth_le e (hp.mem_iff.mp he)
  maxDepth := h.maxDepth.imp_right fun ⟨e, hm, he⟩ => ⟨e, hp.mem_iff.mpr hm, he⟩
  cacheHits := by rw [hp.countP_eq]; exact h.cacheHits
  cacheMisses := by rw [hp.countP_eq]; exact h.cacheMisses

theorem maxDepth_le (h : r.Summarizes events) (h' : r'.Summarizes events) :
    r.maxDepth ≤ r'.maxDepth := by
  rcases h.maxDepth with hzero | ⟨e, hm, he⟩
  · exact hzero ▸ Nat.zero_le _
  · exact he ▸ h'.depth_le e hm

theorem unique (h : r.Summarizes events) (h' : r'.Summarizes events) : r = r' := by
  have hresumes : r.resumes = r'.resumes := Profile.eq_of_precedes h.ordered h'.ordered
    fun (name, n) => (h.mem_resumes name n).trans (h'.mem_resumes name n).symm
  have htotal : r.totalResumes = r'.totalResumes := by
    rw [h.totalResumes, h'.totalResumes, hresumes]
  cases r
  cases r'
  simp only [mk.injEq]
  exact ⟨hresumes, htotal, h.sends.trans h'.sends.symm,
    h.throws.trans h'.throws.symm, h.yields.trans h'.yields.symm,
    h.returned.trans h'.returned.symm, h.raised.trans h'.raised.symm,
    h.closed.trans h'.closed.symm, (h.maxDepth_le h').antisymm (h'.maxDepth_le h),
    h.cacheHits.trans h'.cacheHits.symm, h.cacheMisses.trans h'.cacheMisses.symm⟩

end ProfileReport.Summarizes

-- ---------------------------------------------------------------------------
-- Tracers
-- ---------------------------------------------------------------------------

namespace Tracer

theorem profiling_addAll (p : Profile) (events : List TraceEvent) :
    events.foldl add (profiling p) = profiling (events.foldl Profile.add p) := by
  induction events generalizing p with
  | nil => rfl
  | cons e events ih => exact ih (p.add e)

theorem recording_addAll (r : Recorder) (h : r.limit? = none) (events : List TraceEvent) :
    (events.foldl add (recording r)).events? = some (r.events ++ events) := by
  induction events generalizing r with
  | nil => simp [events?]
  | cons e events ih =>
    have hlimit : (r.add e).limit? = none := by simp [Recorder.add, Recorder.hasRoom, h]
    refine (ih (r.add e) hlimit).trans ?_
    rw [Recorder.events_add_unlimited r e h, List.append_assoc]
    rfl

end Tracer

/-- Of any events, a recorder without a limit keeps all, and a profiler reports the one summary of
what is kept. The order of the events does not show in the report, nor does the order in which the
counts are stored. -/
theorem profiling_agrees_with_recording (events : List TraceEvent) :
    ∃ (recorded : List TraceEvent) (profile : Profile),
      (events.foldl Tracer.add (.recording .unlimited)).events? = some recorded ∧
      events.foldl Tracer.add (.profiling .empty) = .profiling profile ∧
      recorded = events ∧
      (∀ r : ProfileReport, r.Summarizes recorded ↔ r = profile.report) ∧
      (∀ events' : List TraceEvent, events'.Perm events →
        (events'.foldl Tracer.add (.profiling .empty)).report? = some profile.report) ∧
      ∀ lines : List (String × Nat), lines.Perm profile.resumes →
        { profile with resumes := lines }.report = profile.report := by
  have htallies (events : List TraceEvent) : (events.foldl Profile.add .empty).Tallies events := by
    simpa using Profile.Tallies.empty.addAll events
  have hreport := (htallies events).summarizes
  refine ⟨events, events.foldl Profile.add .empty, ?_, Tracer.profiling_addAll _ events, rfl,
    fun r => ⟨fun h => h.unique hreport, fun h => h ▸ hreport⟩, ?_, ?_⟩
  · simpa [Recorder.unlimited, Recorder.events] using
      Tracer.recording_addAll .unlimited rfl events
  · intro events' hperm
    rw [Tracer.profiling_addAll, Tracer.report?]
    exact congrArg some (((htallies events').summarizes.perm hperm.symm).unique hreport)
  · intro lines hlines
    exact ((htallies events).perm hlines).summarizes.unique hreport

end Resumable
