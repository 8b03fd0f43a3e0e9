import Resumable.Run.World

/-!
# Running alike

`Alike x y w Q` says of two computations that they run alike from a world, and that `Q` holds of
the result and of the world after it, if there is a result. Of one computation (`Alike x x w Q`)
it says just the latter. The rules follow the monad, so a statement about two engines is proved by
walking through the code that they share.
-/

namespace Resumable.Exec

variable {σ : Type}

def Alike (x y : Exec σ α) (w : World σ) (Q : α → World σ → Prop) : Prop :=
  x.run w = y.run w ∧ ∀ a w', y.run w = some (a, w') → Q a w'

namespace Alike

variable {x y : Exec σ α} {w w' : World σ} {P Q : α → World σ → Prop}

theorem self (h : ∀ a w', x.run w = some (a, w') → Q a w') : Alike x x w Q := ⟨rfl, h⟩

theorem of_run {a : α} (h : x.run w = some (a, w')) (hq : Q a w') : Alike x x w Q := by
  refine self fun b v hb => ?_
  rw [h] at hb
  cases hb
  exact hq

theorem pure {a : α} (hq : Q a w) : Alike (Pure.pure a : Exec σ α) (Pure.pure a) w Q := of_run rfl hq

theorem ran : Alike x x w fun a w' => x.run w = some (a, w') := self fun _ _ h => h

theorem any : Alike x x w fun _ _ => True := self fun _ _ _ => trivial

theorem and (h : Alike x y w P) (h' : Alike x y w Q) : Alike x y w fun a w' => P a w' ∧ Q a w' :=
  ⟨h.1, fun a w' ha => ⟨h.2 a w' ha, h'.2 a w' ha⟩⟩

theorem mono (h : Alike x y w P) (hq : ∀ a w', P a w' → Q a w') : Alike x y w Q :=
  ⟨h.1, fun a w' ha => hq a w' (h.2 a w' ha)⟩

theorem bind {f g : α → Exec σ β} {Q : β → World σ → Prop} (hx : Alike x y w P)
    (hf : ∀ a w', P a w' → Alike (f a) (g a) w' Q) : Alike (x >>= f) (y >>= g) w Q := by
  obtain ⟨heq, hp⟩ := hx
  simp only [Alike, StateT.run_bind, heq]
  cases hr : y.run w with
  | none => exact ⟨rfl, fun a w' ha => nomatch ha⟩
  | some r => exact hf r.1 r.2 (hp r.1 r.2 hr)

theorem ite {c : Prop} [Decidable c] {x' y' : Exec σ α} (h : Alike x y w Q)
    (h' : Alike x' y' w Q) : Alike (if c then x else x') (if c then y else y') w Q := by
  split
  · exact h
  · exact h'

/-- Goes past a computation whose result is known. -/
theorem step {f g : α → Exec σ β} {Q : β → World σ → Prop} {a : α} (h : x.run w = some (a, w'))
    (hf : Alike (f a) (g a) w' Q) : Alike (x >>= f) (x >>= g) w Q := by
  refine bind (P := fun b v => b = a ∧ v = w') (of_run h ⟨rfl, rfl⟩) ?_
  rintro b v ⟨rfl, rfl⟩
  exact hf

end Alike

end Resumable.Exec
