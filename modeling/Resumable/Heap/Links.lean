import Resumable.Heap.Store
import Resumable.Value.Basic

/-!
# Links of exceptions

What an exception was raised for can change while it travels: its traceback grows, and it is
linked to the exception that was being handled when it was raised and to the one named as its
cause.
-/

namespace Resumable

structure Links where
  traceback : Option Traceback
  context : Option Exc
  cause : Option Exc

namespace Links

def none : Links := ⟨.none, .none, .none⟩

instance : Inhabited Links := ⟨none⟩

def pushTraceback (entry : TracebackEntry) (l : Links) : Links :=
  { l with traceback := some (Traceback.push entry l.traceback) }

/-- Links to the exception being handled, unless a link is there already or it is the same one. -/
def chain (self handled : Exc) (l : Links) : Links :=
  match l.context with
  | some _ => l
  | .none => if handled.same self then l else { l with context := some handled }

theorem context_chain_same {self handled : Exc} (h : handled.same self = true) (l : Links) :
    (l.chain self handled).context = l.context := by
  unfold chain
  split
  · rfl
  · simp [h]

theorem context_chain_linked {l : Links} (h : l.context.isSome) (self handled : Exc) :
    (l.chain self handled).context = l.context := by
  unfold chain
  split
  · rfl
  · next hnone => simp [hnone] at h

end Links

end Resumable
