import Resumable.Proofs.Run.Regime

/-!
# Computations that keep worlds coherent

Computations that are `Keeps`, one for each of two engines, run alike from settled worlds and lead
to worlds that are `Kept`. Two engines trust each other if what they ask for is.
-/

namespace Resumable

variable {σ : Type}

theorem World.Settled.modifyContext {w : World σ} (hw : w.Settled) (c : Ref .context)
    (f : Context → Context) : w.Kept (w.modifyContext c f) :=
  Idle.kept (.of_eq rfl rfl rfl) hw

def Regime.settled : Regime σ where
  Admits := World.Settled
  Leads := World.Kept
  admits h := h.settled
  trans h h' := h.trans h'
  calm hw h := h.kept hw
  handling hw c _ := (hw.modifyContext c _).settled
  handled hw h := ((hw.modifyContext _ _).trans h).trans (h.settled.modifyContext _ _)
  hook hw := hw.push fun _ => rfl
  hooked _ h := h.pop (fun _ => rfl) h.stack.eq_of_hook

abbrev Exec.Keeps (x y : Exec σ α) : Prop := Exec.Follows .settled x y

/-- Two engines of one host whose levels below keep worlds coherent, alike. -/
abbrev Engine.Trusts (e e' : Engine σ) : Prop := Engine.Under .settled e e'

theorem Engine.perform_keeps {e e' : Engine σ} (he : e.Trusts e') (c : Ref .context)
    (p : Prog σ α) : Exec.Keeps (e.perform c p) (e'.perform c p) := perform_follows he c p

end Resumable
