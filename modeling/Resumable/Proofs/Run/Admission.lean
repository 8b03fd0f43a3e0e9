import Resumable.Context

/-!
# What limits admit

A context admits a resumption if both its limits do, and counts it. Whether it admits more of them,
each inside the one before, can be told beforehand. Once the number of resumptions is exhausted no
attempt is admitted any more.
-/

namespace Resumable

namespace Tracker

def resumeLimit? : Tracker → Option Nat
  | limited limits _ => limits.resumes?
  | depthOnly => none

@[simp] theorem depthLimit?_counted (t : Tracker) : t.counted.depthLimit? = t.depthLimit? := by
  cases t <;> rfl

@[simp] theorem resumeLimit?_counted (t : Tracker) : t.counted.resumeLimit? = t.resumeLimit? := by
  cases t <;> rfl

theorem count_counted_le (t : Tracker) : t.counted.count ≤ t.count + 1 := by
  cases t with
  | limited limits n => exact Nat.le_refl _
  | depthOnly => exact Nat.zero_le _

theorem count_counted {t : Tracker} (h : limit ∈ t.resumeLimit?) :
    t.counted.count = t.count + 1 := by
  cases t with
  | limited limits n => rfl
  | depthOnly => cases h

theorem count_le_counted (t : Tracker) : t.count ≤ t.counted.count := by
  cases t with
  | limited limits n => exact Nat.le_succ n
  | depthOnly => exact Nat.le_refl _

theorem checkCount_eq_ok_iff (t : Tracker) :
    t.checkCount = .ok () ↔ ∀ limit ∈ t.resumeLimit?, t.count ≤ limit := by
  cases t with
  | limited limits n =>
    simp only [checkCount, resumeLimit?, count]
    cases limits.resumes? <;> simp
  | depthOnly => simp [checkCount, resumeLimit?]

theorem checkDepth_eq_error {t : Tracker} (h : t.checkDepth depth = .error e) :
    ∃ limit attempted, e = .depth limit attempted := by
  unfold checkDepth at h
  split at h
  · split at h
    · cases h
    · cases h
      exact ⟨_, _, rfl⟩
  · cases h

theorem checkCount_eq_error {t : Tracker} (h : t.counted.checkCount = .error e) :
    ∃ limit ∈ t.resumeLimit?, ∃ count, e = .resumes limit count ∧ limit ≤ t.count := by
  cases t with
  | depthOnly => cases h
  | limited limits n =>
    cases hl : limits.resumes? with
    | none => simp [counted, checkCount, hl] at h
    | some limit =>
      by_cases hn : n + 1 ≤ limit
      · simp [counted, checkCount, hl, hn] at h
      · simp only [counted, checkCount, hl, hn, if_false, Except.error.injEq] at h
        exact ⟨limit, hl, n + 1, h.symm, Nat.le_of_lt_succ (Nat.lt_of_not_le hn)⟩

end Tracker

namespace Context

/-- The limits admit `n` more resumptions, each inside the one before. -/
structure Admits (k : Context) (n : Nat) : Prop where
  depth : ∀ limit ∈ k.tracker.depthLimit?, k.depth + n ≤ limit
  count : ∀ limit ∈ k.tracker.resumeLimit?, k.tracker.count + n ≤ limit

variable {k : Context} {n : Nat}

theorem Admits.pred (h : k.Admits (n + 1)) : k.Admits n where
  depth limit hl := Nat.le_of_succ_le (h.depth limit hl)
  count limit hl := Nat.le_of_succ_le (h.count limit hl)

/-- One level further in, with the resumption counted. -/
def entered (k : Context) : Context := { k with tracker := k.tracker.counted, depth := k.depth + 1 }

theorem Admits.enter_eq (h : k.Admits (n + 1)) :
    k.enter = (.ok (), k.entered) := by
  have hdepth : k.tracker.checkDepth k.depth = .ok () := by
    rw [Tracker.checkDepth_eq_ok_iff]
    intro limit hl
    have := h.depth limit hl
    omega
  have hcount : k.tracker.counted.checkCount = .ok () := by
    rw [Tracker.checkCount_eq_ok_iff, Tracker.resumeLimit?_counted]
    intro limit hl
    have := h.count limit hl
    have := k.tracker.count_counted_le
    omega
  simp [enter, hdepth, Tracker.countOne, hcount, entered]

theorem Admits.entered (h : k.Admits (n + 1)) : k.entered.Admits n where
  depth limit hl := by
    simp only [Context.entered, Tracker.depthLimit?_counted] at hl ⊢
    have := h.depth limit hl
    omega
  count limit hl := by
    simp only [Context.entered, Tracker.resumeLimit?_counted] at hl ⊢
    have := h.count limit hl
    have := k.tracker.count_counted_le
    omega

def Exhausted (k : Context) : Prop := ∃ limit ∈ k.tracker.resumeLimit?, limit ≤ k.tracker.count

/-- What an attempt comes to: a refusal for the depth, which leaves the context as it is, a refusal
for the number, which is counted, or an admission. -/
theorem enter_cases (k : Context) :
    (∃ limit attempted, k.enter = (.error (.depth limit attempted), k)) ∨
    (∃ limit ∈ k.tracker.resumeLimit?, ∃ count,
      k.enter = (.error (.resumes limit count), { k with tracker := k.tracker.counted }) ∧
        limit ≤ k.tracker.count) ∨
    (k.enter = (.ok (), k.entered) ∧ (∀ limit ∈ k.tracker.depthLimit?, k.depth < limit) ∧
      ∀ limit ∈ k.tracker.resumeLimit?, k.tracker.count < limit) := by
  cases hd : k.tracker.checkDepth k.depth with
  | error e =>
    obtain ⟨limit, attempted, rfl⟩ := Tracker.checkDepth_eq_error hd
    exact .inl ⟨limit, attempted, by simp [enter, hd]⟩
  | ok u =>
    cases hc : k.tracker.counted.checkCount with
    | error e =>
      obtain ⟨limit, hl, count, rfl, hle⟩ := Tracker.checkCount_eq_error hc
      exact .inr (.inl ⟨limit, hl, count, by simp [enter, hd, Tracker.countOne, hc], hle⟩)
    | ok v =>
      have hadmitted : k.enter = (.ok (), k.entered) := by
        simp [enter, hd, Tracker.countOne, hc, entered]
      refine .inr (.inr ⟨hadmitted, ?_, fun limit hl => ?_⟩)
      · exact (k.tracker.checkDepth_eq_ok_iff k.depth).mp hd
      · have hle := (Tracker.checkCount_eq_ok_iff _).mp hc limit (by simpa using hl)
        rwa [Tracker.count_counted hl] at hle

@[simp] theorem handled_enter (k : Context) : k.enter.2.handled = k.handled := by
  obtain ⟨_, _, he⟩ | ⟨_, _, _, he, _⟩ | ⟨he, _⟩ := k.enter_cases <;> simp [he, entered]

theorem exhausted_of_refused (h : k.enter.1 = .error (.resumes limit count)) :
    k.enter.2.Exhausted := by
  obtain ⟨_, _, he⟩ | ⟨limit, hl, _, he, hle⟩ | ⟨he, _⟩ := k.enter_cases
  · rw [he] at h
    cases h
  · rw [he]
    exact ⟨limit, by simpa using hl, Nat.le_trans hle k.tracker.count_le_counted⟩
  · rw [he] at h
    cases h

-- ---------------------------------------------------------------------------
-- Attempts
-- ---------------------------------------------------------------------------

/-- How far `n` attempts can take a context. -/
structure Drifts (k : Context) (n : Nat) (x : Context) : Prop where
  depths : x.tracker.depthLimit? = k.tracker.depthLimit?
  resumes : x.tracker.resumeLimit? = k.tracker.resumeLimit?
  depth : x.depth ≤ k.depth + n
  counted : k.tracker.count ≤ x.tracker.count
  count : x.tracker.count ≤ k.tracker.count + n

namespace Drifts

theorem refl (k : Context) : k.Drifts 0 k :=
  ⟨rfl, rfl, Nat.le_refl _, Nat.le_refl _, Nat.le_refl _⟩

theorem trans {x y : Context} {m : Nat} (h : k.Drifts n x) (h' : x.Drifts m y) :
    k.Drifts (n + m) y where
  depths := h'.depths.trans h.depths
  resumes := h'.resumes.trans h.resumes
  depth := by
    have := h.depth
    have := h'.depth
    omega
  counted := Nat.le_trans h.counted h'.counted
  count := by
    have := h.count
    have := h'.count
    omega

theorem enter (k : Context) : k.Drifts 1 k.enter.2 := by
  have hle := k.tracker.count_le_counted
  have hle' := k.tracker.count_counted_le
  obtain ⟨_, _, he⟩ | ⟨_, _, _, he, _⟩ | ⟨he, _⟩ := k.enter_cases
  · rw [he]
    exact ⟨rfl, rfl, Nat.le_succ _, Nat.le_refl _, Nat.le_succ _⟩
  · rw [he]
    exact ⟨by simp, by simp, Nat.le_succ _, hle, hle'⟩
  · rw [he]
    exact ⟨by simp [entered], by simp [entered], Nat.le_refl _, hle, hle'⟩

end Drifts

/-- What becomes of a context in `n` attempts to go one level in. -/
inductive Attempts (k : Context) : Nat → Context → Prop
  | start : k.Attempts 0 k
  | enter : k.Attempts i x → k.Attempts (i + 1) x.enter.2
  | leave : k.Attempts i x → k.Attempts i x.leave
  | other : k.Attempts i x → y.tracker = x.tracker → y.depth = x.depth → k.Attempts i y

namespace Attempts

variable {x y : Context} {m : Nat}

theorem trans (h : k.Attempts n x) (h' : x.Attempts m y) : k.Attempts (n + m) y := by
  induction h' with
  | start => exact h
  | enter _ ih => exact .enter ih
  | leave _ ih => exact .leave ih
  | other _ ht hd ih => exact .other ih ht hd

theorem drifts (h : k.Attempts n x) : k.Drifts n x := by
  induction h with
  | start => exact .refl k
  | enter _ ih => exact ih.trans (Drifts.enter _)
  | leave _ ih =>
    exact ih.trans (m := 0) ⟨rfl, rfl, Nat.sub_le _ _, Nat.le_refl _, Nat.le_refl _⟩
  | @other _ x y _ ht hd ih =>
    refine ih.trans (m := 0) ⟨by rw [ht], by rw [ht], ?_, ?_, ?_⟩
    · exact Nat.le_of_eq hd
    · exact Nat.le_of_eq (by rw [ht])
    · exact Nat.le_of_eq (by rw [ht]; rfl)

theorem exhausted (h : k.Attempts n x) (he : k.Exhausted) : x.Exhausted := by
  obtain ⟨limit, hl, hle⟩ := he
  exact ⟨limit, h.drifts.resumes ▸ hl, Nat.le_trans hle h.drifts.counted⟩

end Attempts

end Context

end Resumable
