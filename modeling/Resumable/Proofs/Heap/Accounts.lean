import Mathlib.Data.List.Induction
import Mathlib.Logic.Function.Basic
import Resumable.Proofs.Run.Tracking
import Resumable.Proofs.Storage.Snapshot

/-!
# What variables were assigned

A slot stands for a variable: itself, or the cell that it holds, which other slots may hold as well.
An account follows a memory through any operations on frames and cells, and says of each variable
what it was assigned since it was last cleared. The memory is always as the account says, so what a
slot reads as is what its variable was assigned, through whatever slot or cell that was.
-/

namespace Resumable

def Value.isPlumbing : Value → Bool
  | .unbound | .cell _ => true
  | _ => false

theorem Frame.slot_setSlot (f : Frame) (i j : Nat) (v : Value) :
    (f.setSlot i v).slot j = if j = i ∧ i < f.slots.size then v else f.slot j := by
  simp only [slot, setSlot, Array.getD_eq_getD_getElem?]
  by_cases hj : j = i
  · subst hj
    by_cases hi : j < f.slots.size
    · simp [hi]
    · simp [hi]
  · simp [hj, Array.getElem?_setIfInBounds_ne (Ne.symm hj)]

namespace Memory

variable {m : Memory} {f g : Ref .frame} {i j : Nat}

-- ---------------------------------------------------------------------------
-- Variables
-- ---------------------------------------------------------------------------

inductive Variable where
  | slot (f : Ref .frame) (index : Nat)
  | cell (r : Ref .cell)
  deriving DecidableEq

def Variable.isCell : Variable → Bool
  | slot .. => false
  | cell _ => true

/-- The variable that a slot stands for. -/
def variableAt (m : Memory) (f : Ref .frame) (index : Nat) : Variable :=
  match m.loadRaw f index with
  | .cell r => .cell r
  | _ => .slot f index

/-- The cell or the slot exists; what is written beyond a frame goes nowhere. -/
def Has (m : Memory) : Variable → Prop
  | .slot f index => m.frames.Valid f ∧ index < (m.frame f).slots.size
  | .cell r => m.cells.Valid r

instance (m : Memory) : (x : Variable) → Decidable (m.Has x)
  | .slot .. => inferInstanceAs (Decidable (_ ∧ _))
  | .cell _ => inferInstanceAs (Decidable (m.cells.Valid _))

def assign (m : Memory) : Variable → Option Value → Memory
  | .slot f index, v => m.storeRaw f index (v.getD .unbound)
  | .cell r, v => m.setCell r v

/-- The variable is as it is once the value is assigned, or once it is cleared. -/
def Holds (m : Memory) : Variable → Option Value → Prop
  | .slot f index, v => m.loadRaw f index = v.getD .unbound
  | .cell r, v => m.cell r = v

theorem loadRaw_storeRaw (m : Memory) (f g : Ref .frame) (i j : Nat) (v : Value) :
    (m.storeRaw f i v).loadRaw g j =
      if g = f ∧ j = i ∧ m.Has (.slot f i) then v else m.loadRaw g j := by
  simp only [loadRaw, frame, storeRaw]
  by_cases hg : g = f
  · subst hg
    by_cases hf : m.frames.Valid g
    · rw [Store.get_modify_self _ _ hf, Frame.slot_setSlot]
      simp [Has, hf, frame]
    · rw [Store.get_of_not_valid _ hf, Store.get_of_not_valid _ (by rwa [Store.valid_modify])]
      simp [Has, hf]
  · rw [Store.get_modify_of_ne _ _ hg]
    simp [hg]

theorem cell_setCell (m : Memory) (r q : Ref .cell) (v : Option Value) :
    (m.setCell r v).cell q = if q = r ∧ m.Has (.cell r) then v else m.cell q := by
  simp only [cell, setCell, Store.set]
  by_cases hq : q = r
  · subst hq
    by_cases hr : m.cells.Valid q
    · rw [Store.get_modify_self _ _ hr]
      simp [Has, hr]
    · rw [Store.get_of_not_valid _ hr, Store.get_of_not_valid _ (by rwa [Store.valid_modify])]
      simp [Has, hr]
  · rw [Store.get_modify_of_ne _ _ hq]
    simp [hq]

theorem holds_assign_self {x : Variable} (h : m.Has x) (v : Option Value) :
    (m.assign x v).Holds x v := by
  cases x with
  | slot f i => simp [assign, Holds, loadRaw_storeRaw, h]
  | cell r => simp [assign, Holds, cell_setCell, h]

/-- An assignment to a variable is to no other one, and to none if there is no such variable. -/
theorem holds_assign_of_not {x y : Variable} (h : ¬ (y = x ∧ m.Has x)) (u v : Option Value) :
    (m.assign x v).Holds y u ↔ m.Holds y u := by
  cases x with
  | slot f i =>
    cases y with
    | slot g j =>
      have hnot : ¬ (g = f ∧ j = i ∧ m.Has (.slot f i)) := by
        rintro ⟨rfl, rfl, hx⟩
        exact h ⟨rfl, hx⟩
      rw [assign, Holds, loadRaw_storeRaw, if_neg hnot, Holds]
    | cell q => rfl
  | cell r =>
    cases y with
    | slot g j => rfl
    | cell q =>
      have hnot : ¬ (q = r ∧ m.Has (.cell r)) := by
        rintro ⟨rfl, hx⟩
        exact h ⟨rfl, hx⟩
      rw [assign, Holds, cell_setCell, if_neg hnot, Holds]

-- ---------------------------------------------------------------------------
-- Operations
-- ---------------------------------------------------------------------------

namespace Write

def target (m : Memory) : Write → Variable
  | .store f index _ | .clear f index => m.variableAt f index
  | .storeRaw f index _ => .slot f index
  | .cell r _ => .cell r

/-- What the variable is assigned, unless it is cleared. -/
def value? : Write → Option Value
  | .store _ _ v | .storeRaw _ _ v => some v
  | .clear .. => none
  | .cell _ v => v

end Write

theorem store_eq_assign (m : Memory) (f : Ref .frame) (i : Nat) (v : Value) :
    m.store f i v = m.assign (m.variableAt f i) (some v) := by
  unfold store variableAt
  cases m.loadRaw f i <;> rfl

theorem clear_eq_assign (m : Memory) (f : Ref .frame) (i : Nat) :
    m.clear f i = m.assign (m.variableAt f i) none := by
  unfold clear variableAt
  cases m.loadRaw f i <;> rfl

theorem write_eq_assign (m : Memory) (w : Write) :
    m.write w = m.assign (w.target m) w.value? := by
  cases w with
  | store f i v => exact store_eq_assign m f i v
  | storeRaw f i v => rfl
  | clear f i => exact clear_eq_assign m f i
  | cell r v => rfl

theorem load_of_not_cell (h : ∀ r, m.loadRaw f i ≠ .cell r) :
    (m.load f i = if (m.loadRaw f i).isPlumbing then none else some (m.loadRaw f i)) ∧
      m.variableAt f i = .slot f i := by
  unfold load variableAt
  cases hraw : m.loadRaw f i with
  | cell r => exact absurd hraw (h r)
  | _ => exact ⟨rfl, rfl⟩

/-- What programs do with frames and cells. -/
inductive Operation where
  | newCell (v : Option Value)
  | newFrame (layout : FrameLayout)
  | write (w : Write)
  | storeName (f : Ref .frame) (name : String) (v : Value)

def apply (m : Memory) : Operation → Memory
  | .newCell v => { m with cells := m.cells.add v }
  | .newFrame layout => { m with frames := m.frames.add (.ofLayout layout) }
  | .write w => m.write w
  | .storeName f name v =>
    match (m.layout f).find? name with
    | some index => m.store f index v
    | none => m

def applyAll (m : Memory) (ops : List Operation) : Memory := ops.foldl apply m

theorem applyAll_append (m : Memory) (ops more : List Operation) :
    m.applyAll (ops ++ more) = (m.applyAll ops).applyAll more := List.foldl_append ..

/-- A memory, with what each variable was assigned since it was last cleared. -/
structure Account where
  memory : Memory
  assigned : Variable → Option Value

namespace Account

def start : Account := ⟨.empty, fun _ => none⟩

def noted (a : Account) (x : Variable) (v : Option Value) : Variable → Option Value :=
  if a.memory.Has x then Function.update a.assigned x v else a.assigned

def after (a : Account) (op : Operation) : Account where
  memory := a.memory.apply op
  assigned := match op with
    | .newCell v => Function.update a.assigned (.cell a.memory.cells.next) v
    | .newFrame _ => a.assigned
    | .write w => a.noted (w.target a.memory) w.value?
    | .storeName f name v =>
      match (a.memory.layout f).find? name with
      | some index => a.noted (a.memory.variableAt f index) (some v)
      | none => a.assigned

def run (ops : List Operation) : Account := ops.foldl after start

theorem run_snoc (ops : List Operation) (op : Operation) :
    run (ops ++ [op]) = (run ops).after op := by
  rw [run, List.foldl_append]
  rfl

theorem memory_run (ops : List Operation) : (run ops).memory = Memory.empty.applyAll ops := by
  induction ops using List.reverseRecOn with
  | nil => rfl
  | append_singleton ops op ih =>
    rw [run_snoc, applyAll_append, ← ih]
    rfl

def Right (a : Account) : Prop := ∀ x, a.memory.Holds x (a.assigned x)

variable {a : Account}

theorem right_start : start.Right := by
  rintro (⟨f, i⟩ | r) <;> rfl

theorem Right.assign (h : a.Right) (x : Variable) (v : Option Value) :
    (⟨a.memory.assign x v, a.noted x v⟩ : Account).Right := by
  intro y
  by_cases hy : y = x ∧ a.memory.Has x
  · obtain ⟨rfl, hx⟩ := hy
    simp only [noted, if_pos hx, Function.update_self]
    exact holds_assign_self hx v
  · have hsame : a.noted x v y = a.assigned y := by
      unfold noted
      split
      · next hx => exact Function.update_of_ne (fun he => hy ⟨he, hx⟩) _ _
      · rfl
    simp only [holds_assign_of_not hy, hsame]
    exact h y

theorem Right.newCell (h : a.Right) (v : Option Value) : (a.after (.newCell v)).Right := by
  rintro (⟨f, i⟩ | r)
  · exact h (.slot f i)
  · by_cases hr : r = a.memory.cells.next
    · subst hr
      simp only [after, Function.update_self]
      exact Store.get_add_next ..
    · have hne : Variable.cell r ≠ .cell a.memory.cells.next := fun he => hr (by cases he; rfl)
      simp only [after, Function.update_of_ne hne]
      exact (Store.get_add_of_ne _ _ hr).trans (h (.cell r))

theorem Right.newFrame (h : a.Right) (layout : FrameLayout) :
    (a.after (.newFrame layout)).Right := by
  rintro (⟨f, i⟩ | r)
  · refine Eq.trans ?_ (h (.slot f i))
    by_cases hf : f = a.memory.frames.next
    · subst hf
      have hold : a.memory.loadRaw a.memory.frames.next i = .unbound := by
        rw [loadRaw, frame, Store.get_of_not_valid _ (Store.not_valid_next _)]
        rfl
      rw [hold]
      change ((a.memory.frames.add _).get a.memory.frames.next).slot i = _
      rw [Store.get_add_next]
      simp only [Frame.slot, Frame.ofLayout, Array.getD_eq_getD_getElem?, Array.getElem?_replicate]
      split <;> rfl
    · exact congrArg (Frame.slot · i) (Store.get_add_of_ne _ _ hf)
  · exact h (.cell r)

theorem Right.after (h : a.Right) (op : Operation) : (a.after op).Right := by
  cases op with
  | newCell v => exact h.newCell v
  | newFrame layout => exact h.newFrame layout
  | write w =>
    have hassign := h.assign (w.target a.memory) w.value?
    rw [← write_eq_assign] at hassign
    exact hassign
  | storeName f name v =>
    rw [Account.after]
    simp only [apply]
    cases hfind : (a.memory.layout f).find? name with
    | none => exact h
    | some index =>
      have hassign := h.assign (a.memory.variableAt f index) (some v)
      rw [← store_eq_assign] at hassign
      exact hassign

theorem right_run (ops : List Operation) : (run ops).Right := by
  induction ops using List.reverseRecOn with
  | nil => exact right_start
  | append_singleton ops op ih =>
    rw [run_snoc]
    exact ih.after op

-- ---------------------------------------------------------------------------
-- Reads
-- ---------------------------------------------------------------------------

/-- The slot shows a value: its variable was assigned it. Only a cell shows the mark of an unbound
slot, or another cell. -/
def Shows (a : Account) (f : Ref .frame) (index : Nat) (v : Value) : Prop :=
  a.assigned (a.memory.variableAt f index) = some v ∧
    (v.isPlumbing = true → (a.memory.variableAt f index).isCell = true)

/-- What a slot reads as is what its variable was assigned, but a slot that holds no cell does not
show the mark of an unbound one. -/
theorem Right.load_iff (h : a.Right) (f : Ref .frame) (index : Nat) (v : Value) :
    a.memory.load f index = some v ↔ a.Shows f index v := by
  by_cases hcell : ∃ r, a.memory.loadRaw f index = .cell r
  · obtain ⟨r, hr⟩ := hcell
    have hassigned : a.memory.cell r = a.assigned (.cell r) := h (.cell r)
    simp [load, Shows, variableAt, hr, hassigned, Variable.isCell]
  · obtain ⟨hload, hvariable⟩ := load_of_not_cell (not_exists.mp hcell)
    have hassigned : a.memory.loadRaw f index = (a.assigned (.slot f index)).getD .unbound :=
      h (.slot f index)
    rw [hload, Shows, hvariable, hassigned]
    cases a.assigned (.slot f index) with
    | none => simp [Value.isPlumbing]
    | some u =>
      rw [Option.getD_some, Option.some.injEq]
      split
      · next hu =>
        refine iff_of_false nofun ?_
        rintro ⟨rfl, hv⟩
        cases hv hu
      · next hu =>
        refine ⟨fun he => ?_, fun he => congrArg some he.1⟩
        cases he
        exact ⟨rfl, fun hv => absurd hv hu⟩

theorem Right.bound_iff (h : a.Right) (f : Ref .frame) (index : Nat) :
    ((a.memory.load f index).isSome = (a.assigned (a.memory.variableAt f index)).isSome ∧
      ∀ v, a.memory.load f index = some v → v.isPlumbing = false) ↔
    ∀ v, a.assigned (a.memory.variableAt f index) = some v → v.isPlumbing = false := by
  constructor
  · rintro ⟨hbound, hvalue⟩ v hv
    rw [hv] at hbound
    obtain ⟨u, hu⟩ := Option.isSome_iff_exists.mp hbound
    have hassigned := ((h.load_iff f index u).mp hu).1
    rw [hv] at hassigned
    cases hassigned
    exact hvalue v hu
  · intro hvalue
    cases hassigned : a.assigned (a.memory.variableAt f index) with
    | none =>
      have hload : a.memory.load f index = none := by
        rw [Option.eq_none_iff_forall_ne_some]
        intro u hu
        have hu := ((h.load_iff f index u).mp hu).1
        rw [hassigned] at hu
        cases hu
      rw [hload]
      exact ⟨rfl, nofun⟩
    | some v =>
      have hv := hvalue v hassigned
      have hload := (h.load_iff f index v).mpr ⟨hassigned, fun hp => absurd hp (by simp [hv])⟩
      rw [hload]
      refine ⟨rfl, ?_⟩
      rintro _ ⟨⟩
      exact hv

end Account

end Memory

-- ---------------------------------------------------------------------------
-- Runs
-- ---------------------------------------------------------------------------

namespace World

variable {σ : Type} {w w' : World σ}

def Operates (w w' : World σ) : Prop := ∃ ops, w'.memory = w.memory.applyAll ops

theorem Operates.of_eq (h : w'.memory = w.memory) : w.Operates w' := ⟨[], h⟩

theorem Operates.trans {v : World σ} (h : w.Operates v) (h' : v.Operates w') : w.Operates w' := by
  obtain ⟨ops, hops⟩ := h
  obtain ⟨more, hmore⟩ := h'
  exact ⟨ops ++ more, by rw [hmore, hops, Memory.applyAll_append]⟩

theorem operates_edit (x : Edit) (c : Ref .context) (w : World σ) : w.Operates (x.apply c w) := by
  cases x with
  | cell r v => exact ⟨[.write (.cell r v)], rfl⟩
  | store f index v => exact ⟨[.write (.store f index v)], rfl⟩
  | storeRaw f index v => exact ⟨[.write (.storeRaw f index v)], rfl⟩
  | clear f index => exact ⟨[.write (.clear f index)], rfl⟩
  | _ => exact .of_eq rfl

theorem operates_generating (t : Target) (args : List Value) (w : World σ) :
    w.Operates (w.generating t args) := by
  refine ⟨.newFrame t.code.layout :: args.zipIdx.map fun x =>
    .write (.store w.memory.frames.next x.2 x.1), ?_⟩
  rw [Memory.applyAll, List.foldl_cons, List.foldl_map]
  rfl

theorem Step.operates (h : w.Step w') : w.Operates w' := by
  cases h with
  | cell v => exact ⟨[.newCell v], rfl⟩
  | frame layout => exact ⟨[.newFrame layout], rfl⟩
  | @generator t args g _ _ h =>
    obtain ⟨-, rfl⟩ := Exec.call_run h
    exact operates_generating t args w
  | _ => exact .of_eq rfl

/-- Whatever programs run, nothing but operations is done to frames and cells. -/
theorem Trail.operates {P : Ref .context → Edit → Prop} {Q : Linking} {own : Bool}
    (h : w.Trail P Q own w') : w.Operates w' := by
  induction h with
  | refl => exact .of_eq rfl
  | trans _ _ ih ih' => exact ih.trans ih'
  | step h => exact h.operates
  | edit c _ => exact operates_edit _ c _
  | chained | wrapped => exact .of_eq rfl
  | seen | activity =>
    unfold setActivity
    split <;> exact .of_eq rfl
  | within x _ ih => exact ih

end World

end Resumable
