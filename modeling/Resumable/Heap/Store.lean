import Resumable.Heap.Ref

/-!
# Stores

A store holds the objects of one kind. `get` of a reference that was never handed out is the
default object, and writing through such a reference does nothing.
-/

namespace Resumable

structure Store (kind : ObjectKind) (α : Type) where
  items : Array α

namespace Store

variable {kind : ObjectKind} {α : Type}

def empty : Store kind α := ⟨#[]⟩

instance : Inhabited (Store kind α) := ⟨empty⟩

/-- The reference has been handed out. -/
def Valid (s : Store kind α) (r : Ref kind) : Prop := r.index < s.items.size

instance (s : Store kind α) (r : Ref kind) : Decidable (s.Valid r) :=
  inferInstanceAs (Decidable (_ < _))

def next (s : Store kind α) : Ref kind := ⟨s.items.size⟩

def get [Inhabited α] (s : Store kind α) (r : Ref kind) : α := s.items.getD r.index default

def add (s : Store kind α) (a : α) : Store kind α := ⟨s.items.push a⟩

def modify (s : Store kind α) (r : Ref kind) (f : α → α) : Store kind α :=
  ⟨s.items.modify r.index f⟩

def set (s : Store kind α) (r : Ref kind) (a : α) : Store kind α := s.modify r fun _ => a

theorem not_valid_next (s : Store kind α) : ¬ s.Valid s.next := by simp [Valid, next]

@[simp] theorem valid_add (s : Store kind α) (a : α) (r : Ref kind) :
    (s.add a).Valid r ↔ s.Valid r ∨ r = s.next := by
  cases r
  simp only [Valid, add, next, Array.size_push, Ref.mk.injEq]
  omega

@[simp] theorem valid_modify (s : Store kind α) (r q : Ref kind) (f : α → α) :
    (s.modify r f).Valid q ↔ s.Valid q := by simp [Valid, modify]

@[simp] theorem next_modify (s : Store kind α) (r : Ref kind) (f : α → α) :
    (s.modify r f).next = s.next := by simp [next, modify]

theorem modify_modify (s : Store kind α) (r : Ref kind) (f g : α → α) :
    (s.modify r f).modify r g = s.modify r (g ∘ f) := by
  simp only [modify, Store.mk.injEq]
  refine Array.ext (by simp) fun i hi _ => ?_
  simp only [Array.getElem_modify]
  split <;> rfl

theorem modify_next_add (s : Store kind α) (a : α) (f : α → α) :
    (s.add a).modify s.next f = s.add (f a) := by
  simp only [add, modify, next, mk.injEq]
  refine Array.ext (by simp) fun i hi _ => ?_
  have hi : i < s.items.size + 1 := by simpa using hi
  simp only [Array.getElem_modify, Array.getElem_push]
  by_cases hlt : i < s.items.size
  · simp [hlt, Nat.ne_of_gt hlt]
  · obtain rfl : i = s.items.size := by omega
    simp

variable [Inhabited α]

theorem get_add_next (s : Store kind α) (a : α) : (s.add a).get s.next = a := by
  simp [get, add, next, Array.getD]

theorem get_add_of_valid (s : Store kind α) (a : α) {r : Ref kind} (h : s.Valid r) :
    (s.add a).get r = s.get r := by
  simp only [Valid] at h
  simp [get, add, Array.getD, h, Array.getElem_push, Nat.lt_succ_of_lt h]

theorem get_of_not_valid (s : Store kind α) {r : Ref kind} (h : ¬ s.Valid r) :
    s.get r = default := by
  simp only [Valid] at h
  simp [get, Array.getD, h]

theorem get_add_of_ne (s : Store kind α) (a : α) {r : Ref kind} (h : r ≠ s.next) :
    (s.add a).get r = s.get r := by
  by_cases hv : s.Valid r
  · exact get_add_of_valid s a hv
  · rw [get_of_not_valid s hv, get_of_not_valid]
    rw [valid_add]
    exact fun hr => hr.elim hv h

theorem get_modify_self (s : Store kind α) {r : Ref kind} (f : α → α) (h : s.Valid r) :
    (s.modify r f).get r = f (s.get r) := by
  simp only [Valid] at h
  simp [get, modify, Array.getD, h, Array.getElem_modify]

theorem get_modify_of_ne (s : Store kind α) {r q : Ref kind} (f : α → α) (h : q ≠ r) :
    (s.modify r f).get q = s.get q := by
  have h' : r.index ≠ q.index := fun e => h (by cases r; cases q; simp_all)
  simp only [get, modify, Array.getD, Array.size_modify, Array.getInternal_eq_getElem,
    Array.getElem_modify, h', if_false]

end Store

end Resumable
