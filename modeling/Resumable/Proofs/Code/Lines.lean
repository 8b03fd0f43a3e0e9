import Mathlib.Data.List.Basic
import Resumable.Code.Basic

/-!
# Lines of code

A line table holds what was declared, sorted by offset, and the declarations of one offset in the
order in which they were made. That determines the table, so the order of declarations of different
offsets does not matter. The line of an offset is the one declared last for the greatest offset that
is not above it.
-/

namespace Resumable

-- ---------------------------------------------------------------------------
-- Searching by halving
-- ---------------------------------------------------------------------------

namespace Array.partitionPoint

variable {α : Type} {p : α → Bool} {xs : Array α} {k : Nat}

theorem go_le (p : α → Bool) (xs : Array α) {steps low high : Nat} (h : low ≤ high) :
    go p xs steps low high ≤ high := by
  induction steps generalizing low high with
  | zero => exact h
  | succ steps ih =>
    simp only [go]
    split
    · split
      · split
        · exact ih (by omega)
        · exact Nat.le_trans (ih (by omega)) (by omega)
      · exact h
    · exact h

theorem go_eq (hp : ∀ i x, xs[i]? = some x → (p x = true ↔ i < k)) {steps low high : Nat}
    (hlow : low ≤ k) (hk : k ≤ high) (hsize : high ≤ xs.size) (hsteps : high - low ≤ steps) :
    go p xs steps low high = k := by
  induction steps generalizing low high with
  | zero =>
    simp only [go]
    omega
  | succ steps ih =>
    simp only [go]
    split
    · have hmiddle : (low + high) / 2 < xs.size := by omega
      have hx := hp _ _ (Array.getElem?_eq_getElem hmiddle)
      simp only [Array.getElem?_eq_getElem hmiddle]
      split
      · next hpx =>
        have := hx.mp hpx
        exact ih (by omega) hk hsize (by omega)
      · next hpx =>
        have : ¬(low + high) / 2 < k := fun h => hpx (hx.mpr h)
        exact ih hlow (by omega) (by omega) (by omega)
    · omega

end Array.partitionPoint

theorem Array.partitionPoint_le_size {α : Type} (p : α → Bool) (xs : Array α) :
    Array.partitionPoint p xs ≤ xs.size :=
  Array.partitionPoint.go_le p xs (Nat.zero_le _)

theorem Array.partitionPoint_eq {α : Type} {p : α → Bool} {xs : Array α} {front back : List α}
    (hxs : xs.toList = front ++ back) (hfront : ∀ x ∈ front, p x = true)
    (hback : ∀ x ∈ back, p x = false) : Array.partitionPoint p xs = front.length := by
  have hsize : xs.size = front.length + back.length := by
    rw [← Array.length_toList, hxs, List.length_append]
  apply Array.partitionPoint.go_eq ?_ (Nat.zero_le _) (by omega) (Nat.le_refl _) (by omega)
  intro i x hx
  rw [← Array.getElem?_toList, hxs] at hx
  by_cases hi : i < front.length
  · rw [List.getElem?_append_left hi] at hx
    simp [hi, hfront x (List.mem_of_getElem? hx)]
  · rw [List.getElem?_append_right (by omega)] at hx
    simp [hi, hback x (List.mem_of_getElem? hx)]

namespace LineTable

variable {t u : LineTable} {ds es : List (Int × Nat)} {d e : Int × Nat} {q : Int}

-- ---------------------------------------------------------------------------
-- Sorted pairs
-- ---------------------------------------------------------------------------

def Sorted (t : LineTable) : Prop := t.pairs.toList.Pairwise (·.1 ≤ ·.1)

theorem filter_append_filter {l : List (Int × Nat)} (h : l.Pairwise (·.1 ≤ ·.1)) (q : Int) :
    l.filter (·.1 ≤ q) ++ l.filter (q < ·.1) = l := by
  induction l with
  | nil => rfl
  | cons d l ih =>
    obtain ⟨hd, hl⟩ := List.pairwise_cons.mp h
    by_cases hq : d.1 ≤ q
    · simp [hq, Int.not_lt.mpr hq, ih hl]
    · have hbehind : ∀ e ∈ d :: l, q < e.1 := by
        intro e he
        rcases List.mem_cons.mp he with rfl | he
        · omega
        · have := hd e he
          omega
      have hnone : (d :: l).filter (·.1 ≤ q) = [] := by
        simp only [List.filter_eq_nil_iff, decide_eq_true_eq, Int.not_le]
        exact hbehind
      rw [hnone, List.nil_append, List.filter_eq_self]
      simpa using hbehind

theorem eq_of_filter_eq {l m : List (Int × Nat)} (hl : l.Pairwise (·.1 ≤ ·.1))
    (hm : m.Pairwise (·.1 ≤ ·.1)) (h : ∀ o, l.filter (·.1 == o) = m.filter (·.1 == o)) : l = m := by
  induction l generalizing m with
  | nil =>
    cases m with
    | nil => rfl
    | cons e m => simpa using h e.1
  | cons d l ih =>
    cases m with
    | nil => simpa using h d.1
    | cons e m =>
      have hmem : ∀ x, x ∈ d :: l ↔ x ∈ e :: m := fun x => by
        simpa using congrArg (x ∈ ·) (h x.1)
      obtain ⟨hd, hl⟩ := List.pairwise_cons.mp hl
      obtain ⟨he, hm'⟩ := List.pairwise_cons.mp hm
      have hde : d.1 ≤ e.1 := by
        rcases List.mem_cons.mp ((hmem e).mpr List.mem_cons_self) with rfl | hx
        · exact Int.le_refl _
        · exact hd e hx
      have hed : e.1 ≤ d.1 := by
        rcases List.mem_cons.mp ((hmem d).mp List.mem_cons_self) with rfl | hx
        · exact Int.le_refl _
        · exact he d hx
      have heq : e.1 = d.1 := Int.le_antisymm hed hde
      obtain rfl : d = e := by simpa [heq] using congrArg List.head? (h d.1)
      refine congrArg _ (ih hl hm' fun o => ?_)
      have ho := h o
      by_cases hdo : d.1 = o
      · simpa [hdo] using ho
      · simpa [hdo] using ho

theorem upTo_eq (h : t.Sorted) (q : Int) :
    t.upTo q = (t.pairs.toList.filter (·.1 ≤ q)).length := by
  apply Array.partitionPoint_eq (filter_append_filter h q).symm
  · simp
  · simp

theorem upTo_le_size (t : LineTable) (q : Int) : t.upTo q ≤ t.pairs.size :=
  Array.partitionPoint_le_size _ _

theorem toList_declare (h : t.Sorted) (offset : Int) (line : Nat) :
    (t.declare offset line).pairs.toList =
      t.pairs.toList.filter (·.1 ≤ offset) ++ (offset, line) ::
        t.pairs.toList.filter (offset < ·.1) := by
  have hinsert : ∀ front back : List (Int × Nat),
      (front ++ back).insertIdx front.length (offset, line) = front ++ (offset, line) :: back := by
    intro front back
    induction front with
    | nil => rfl
    | cons x front ih => simp [ih]
  rw [declare, upTo_eq h, ← hinsert, filter_append_filter h]

theorem Sorted.declare (h : t.Sorted) (offset : Int) (line : Nat) :
    (t.declare offset line).Sorted := by
  rw [Sorted, toList_declare h, List.pairwise_append, List.pairwise_cons]
  simp only [List.mem_filter, List.mem_cons, decide_eq_true_eq]
  refine ⟨List.Pairwise.filter _ h, ⟨?_, List.Pairwise.filter _ h⟩, ?_⟩
  · rintro e ⟨-, he⟩
    omega
  · rintro d ⟨-, hd⟩ e (rfl | ⟨-, he⟩)
    · exact hd
    · omega

theorem filter_declare (h : t.Sorted) (offset : Int) (line : Nat) (o : Int) :
    (t.declare offset line).pairs.toList.filter (·.1 == o) =
      t.pairs.toList.filter (·.1 == o) ++ [(offset, line)].filter (·.1 == o) := by
  have hsplit : t.pairs.toList.filter (·.1 == o) =
      (t.pairs.toList.filter (·.1 ≤ offset)).filter (·.1 == o) ++
        (t.pairs.toList.filter (offset < ·.1)).filter (·.1 == o) := by
    rw [← List.filter_append, filter_append_filter h]
  rw [toList_declare h, hsplit, ← List.singleton_append, List.filter_append, List.filter_append]
  -- the new pair is behind those of its offset, and before those of greater ones
  by_cases ho : o ≤ offset
  · have hnone : (t.pairs.toList.filter (offset < ·.1)).filter (·.1 == o) = [] := by
      simp only [List.filter_eq_nil_iff, List.mem_filter, decide_eq_true_eq, beq_iff_eq]
      rintro e ⟨-, he⟩ rfl
      omega
    simp [hnone]
  · have hother : offset ≠ o := by omega
    simp [hother]

-- ---------------------------------------------------------------------------
-- Declarations
-- ---------------------------------------------------------------------------

def ofDeclarations (ds : List (Int × Nat)) : LineTable :=
  ds.foldl (fun t (offset, line) => t.declare offset line) .empty

/-- The pairs of the table are those declared, sorted by offset, and those of one offset in the
order in which they were declared. -/
structure Files (t : LineTable) (ds : List (Int × Nat)) : Prop where
  sorted : t.Sorted
  inOrder : ∀ o, t.pairs.toList.filter (·.1 == o) = ds.filter (·.1 == o)

theorem files_empty : empty.Files [] := ⟨List.Pairwise.nil, fun _ => rfl⟩

theorem Files.declare (h : t.Files ds) (offset : Int) (line : Nat) :
    (t.declare offset line).Files (ds ++ [(offset, line)]) where
  sorted := h.sorted.declare offset line
  inOrder o := by rw [filter_declare h.sorted, h.inOrder, List.filter_append]

theorem Files.declareAll (h : t.Files ds) (es : List (Int × Nat)) :
    (es.foldl (fun t (offset, line) => t.declare offset line) t).Files (ds ++ es) := by
  induction es generalizing t ds with
  | nil => simpa using h
  | cons e es ih => simpa using ih (h.declare e.1 e.2)

theorem files_ofDeclarations (ds : List (Int × Nat)) : (ofDeclarations ds).Files ds :=
  files_empty.declareAll ds

theorem Files.mem_iff (h : t.Files ds) : d ∈ t.pairs.toList ↔ d ∈ ds := by
  simpa using congrArg (d ∈ ·) (h.inOrder d.1)

theorem Files.unique (ht : t.Files ds) (hu : u.Files es)
    (h : ∀ o, ds.filter (·.1 == o) = es.filter (·.1 == o)) : t = u := by
  have hpairs : t.pairs.toList = u.pairs.toList := eq_of_filter_eq ht.sorted hu.sorted fun o => by
    rw [ht.inOrder, hu.inOrder, h]
  cases t
  cases u
  simpa using hpairs

-- ---------------------------------------------------------------------------
-- The line of an offset
-- ---------------------------------------------------------------------------

/-- Of all declarations, `d` is the last of its offset, which is the greatest one not above `q`. -/
structure Governs (ds : List (Int × Nat)) (q : Int) (d : Int × Nat) : Prop where
  notAbove : d.1 ≤ q
  greatest : ∀ e ∈ ds, e.1 ≤ q → e.1 ≤ d.1
  last : (ds.filter (·.1 == d.1)).getLast? = some d

theorem Governs.mem (h : Governs ds q d) : d ∈ ds :=
  List.mem_of_mem_filter (List.mem_of_getLast? h.last)

theorem Governs.unique (hd : Governs ds q d) (he : Governs ds q e) : d = e := by
  have hoffset : d.1 = e.1 :=
    Int.le_antisymm (he.greatest d hd.mem hd.notAbove) (hd.greatest e he.mem he.notAbove)
  have hlast := hd.last
  rw [hoffset, he.last] at hlast
  exact (Option.some.inj hlast).symm

theorem line?_eq (h : t.Sorted) (q : Int) :
    t.line? q = (t.pairs.toList.filter (·.1 ≤ q)).getLast?.map (·.2) := by
  have hpairs : ∀ i, i < (t.pairs.toList.filter (·.1 ≤ q)).length →
      t.pairs[i]? = (t.pairs.toList.filter (·.1 ≤ q))[i]? := by
    intro i hi
    rw [← Array.getElem?_toList, ← List.getElem?_append_left hi, filter_append_filter h]
  rw [line?, upTo_eq h, List.getLast?_eq_getElem?]
  cases hn : (t.pairs.toList.filter (·.1 ≤ q)).length with
  | zero => simp [List.length_eq_zero_iff.mp hn]
  | succ n => simp [hpairs n (by omega)]

/-- The last pair that is not above an offset governs it. -/
theorem Files.governs_of_last (h : t.Files ds)
    (hd : (t.pairs.toList.filter (·.1 ≤ q)).getLast? = some d) : Governs ds q d := by
  obtain ⟨before, hbefore⟩ := List.getLast?_eq_some_iff.mp hd
  have hmem : ∀ e, e ∈ before ++ [d] ↔ e ∈ ds ∧ e.1 ≤ q := by
    intro e
    rw [← hbefore]
    simp [h.mem_iff]
  have hsorted : (before ++ [d]).Pairwise (·.1 ≤ ·.1) := hbefore ▸ List.Pairwise.filter _ h.sorted
  obtain ⟨-, hd⟩ := (hmem d).mp (by simp)
  refine ⟨hd, fun e he hq => ?_, ?_⟩
  · rcases List.mem_append.mp ((hmem e).mpr ⟨he, hq⟩) with he | he
    · exact (List.pairwise_append.mp hsorted).2.2 e he d List.mem_cons_self
    · simp [List.mem_singleton.mp he]
  · have hbehind : (t.pairs.toList.filter (q < ·.1)).filter (·.1 == d.1) = [] := by
      simp only [List.filter_eq_nil_iff, List.mem_filter, decide_eq_true_eq, beq_iff_eq]
      rintro e ⟨-, he⟩ heq
      omega
    rw [← h.inOrder, ← filter_append_filter h.sorted q, List.filter_append, hbefore, hbehind]
    simp

theorem Files.exists_last (h : t.Files ds) (hd : d ∈ ds) (hq : d.1 ≤ q) :
    ∃ e, (t.pairs.toList.filter (·.1 ≤ q)).getLast? = some e ∧ Governs ds q e := by
  cases hlast : (t.pairs.toList.filter (·.1 ≤ q)).getLast? with
  | none =>
    have hmem : d ∈ t.pairs.toList.filter (·.1 ≤ q) := by simp [h.mem_iff, hd, hq]
    simp [List.getLast?_eq_none_iff.mp hlast] at hmem
  | some e => exact ⟨e, rfl, h.governs_of_last hlast⟩

theorem Files.line?_governed (h : t.Files ds) (hd : Governs ds q d) : t.line? q = some d.2 := by
  obtain ⟨e, hlast, he⟩ := h.exists_last hd.mem hd.notAbove
  rw [line?_eq h.sorted, hlast, he.unique hd]
  rfl

theorem Files.line?_before (h : t.Files ds) (hq : ∀ d ∈ ds, q < d.1) : t.line? q = none := by
  have hnone : t.pairs.toList.filter (·.1 ≤ q) = [] := by
    simp only [List.filter_eq_nil_iff, h.mem_iff, decide_eq_true_eq]
    intro d hd
    have := hq d hd
    omega
  rw [line?_eq h.sorted, hnone]
  rfl

theorem exists_governs (hd : d ∈ ds) (hq : d.1 ≤ q) : ∃ e, Governs ds q e := by
  obtain ⟨e, -, he⟩ := (files_ofDeclarations ds).exists_last hd hq
  exact ⟨e, he⟩

end LineTable

open LineTable

def Code.withLines (c : Code) (ds : List (Int × Nat)) : Code :=
  { c with lines := .ofDeclarations ds }

/-- The line of an offset is that of the declaration that governs it, of which there is one unless
the offset is before all of them; then it is the first line. Declarations next to each other may be
exchanged if their offsets are different. A search of the table ends at a place in it or right
behind it, and the pair before that place, if there is one, has the line. -/
theorem line_of_last_declared (c : Code) (ds : List (Int × Nat)) :
    (∀ q d, Governs ds q d → (c.withLines ds).lineAt q = d.2) ∧
    (∀ q, (∃ d ∈ ds, d.1 ≤ q) → ∃ d, Governs ds q d) ∧
    (∀ q, (∀ d ∈ ds, q < d.1) → (c.withLines ds).lineAt q = c.firstLine) ∧
    (∀ before d e after, ds = before ++ d :: e :: after → d.1 ≠ e.1 →
      c.withLines (before ++ e :: d :: after) = c.withLines ds) ∧
    ∀ q, (ofDeclarations ds).upTo q ≤ (ofDeclarations ds).pairs.size ∧
      ∀ n, (ofDeclarations ds).upTo q = n + 1 → ∃ pair, (ofDeclarations ds).pairs[n]? = some pair ∧
        (c.withLines ds).lineAt q = pair.2 := by
  have h := files_ofDeclarations ds
  refine ⟨fun q d hd => ?_, fun q ⟨d, hd, hq⟩ => exists_governs hd hq, fun q hq => ?_, ?_,
    fun q => ⟨upTo_le_size _ q, fun n hn => ?_⟩⟩
  · simp [Code.lineAt, Code.withLines, h.line?_governed hd]
  · simp [Code.lineAt, Code.withLines, h.line?_before hq]
  · rintro before d e after rfl hne
    refine congrArg (fun t => { c with lines := t }) ((files_ofDeclarations _).unique h fun o => ?_)
    by_cases hd : d.1 = o
    · have he : e.1 ≠ o := fun he => hne (hd.trans he.symm)
      simp [hd, he]
    · simp [List.filter_cons, hd]
  · have hsize := upTo_le_size (ofDeclarations ds) q
    rw [hn] at hsize
    refine ⟨_, Array.getElem?_eq_getElem hsize, ?_⟩
    simp [Code.lineAt, Code.withLines, line?, hn, Array.getElem?_eq_getElem hsize]

theorem line_of_last_of_four :
    Governs [(4, 7), (-1, 2), (4, 9), (0, 3)] 5 (4, 9) ∧
    ∀ c : Code, (c.withLines [(4, 7), (-1, 2), (4, 9), (0, 3)]).lineAt 5 = 9 := by
  have h : Governs [(4, 7), (-1, 2), (4, 9), (0, 3)] 5 (4, 9) := ⟨by decide, by decide, rfl⟩
  exact ⟨h, fun c => (line_of_last_declared c _).1 5 (4, 9) h⟩

end Resumable
