import Resumable.Value.Call
import Resumable.Value.Equality
import Resumable.Value.Hash

/-!
# Hooks that are related

A relation between computations that holds of equal results and is carried through binds is a
`Congruence`. Two computations that hash, compare or call the same values with hooks that are
related are related themselves. A `Simulation` is such a relation between the computations of two
monads, of those that may fail and end with the first failure.
-/

namespace Resumable

structure Simulation (m n : Type → Type) [Monad m] [Monad n]
    (K : {α : Type} → ExceptT Failure m α → ExceptT Failure n α → Prop) : Prop where
  pure : ∀ {α : Type} (a : α), K (Pure.pure a : ExceptT Failure m α) (Pure.pure a)
  throw : ∀ {α : Type} (f : Failure), K (MonadExcept.throw f : ExceptT Failure m α)
    (MonadExcept.throw f)
  bind : ∀ {α β : Type} {x : ExceptT Failure m α} {y : ExceptT Failure n α}
    {f : α → ExceptT Failure m β} {g : α → ExceptT Failure n β},
    K x y → (∀ a, K (f a) (g a)) → K (x >>= f) (y >>= g)

namespace Simulation

variable {m n : Type → Type} [Monad m] [Monad n]
  {K : {α : Type} → ExceptT Failure m α → ExceptT Failure n α → Prop} {h : Hooks m} {h' : Hooks n}
  (hK : Simulation m n @K)
include hK

theorem hashInstance
    (hhash : ∀ layer i, K (ExceptT.mk (h.hash layer i)) (ExceptT.mk (h'.hash layer i)))
    (hfail : ∀ f, K (h.fail f : ExceptT Failure m UInt64) (h'.fail f)) (i : Instance) :
    K (Value.hashInstance h i) (Value.hashInstance h' i) := by
  unfold Value.hashInstance
  split
  · exact hhash _ i
  · exact hfail _
  · exact hK.pure _

mutual

theorem hash
    (hhash : ∀ layer i, K (ExceptT.mk (h.hash layer i)) (ExceptT.mk (h'.hash layer i)))
    (hfail : ∀ f, K (h.fail f : ExceptT Failure m UInt64) (h'.fail f)) (v : Value) :
    K (v.hash h) (v.hash h') := by
  cases v with
  | unbound =>
    simp only [Value.hash]
    exact hK.throw _
  | tuple id items =>
    simp only [Value.hash]
    exact hK.bind (hashItems hhash hfail items) fun _ => hK.pure _
  | inst id cls payload =>
    simp only [Value.hash]
    exact hK.hashInstance hhash hfail _
  | _ =>
    simp only [Value.hash]
    exact hK.pure _

theorem hashItems
    (hhash : ∀ layer i, K (ExceptT.mk (h.hash layer i)) (ExceptT.mk (h'.hash layer i)))
    (hfail : ∀ f, K (h.fail f : ExceptT Failure m UInt64) (h'.fail f)) (items : List Value) :
    K (Value.hashItems h items) (Value.hashItems h' items) := by
  cases items with
  | nil =>
    simp only [Value.hashItems]
    exact hK.pure _
  | cons v rest =>
    simp only [Value.hashItems]
    exact hK.bind (hash hhash hfail v) fun _ =>
      hK.bind (hashItems hhash hfail rest) fun _ => hK.pure _

end

theorem compareByHook (hcompare : ∀ layer i other,
      K (ExceptT.mk (h.compare layer i other)) (ExceptT.mk (h'.compare layer i other)))
    (a b : Value) : K (Value.compareByHook h a b) (Value.compareByHook h' a b) := by
  unfold Value.compareByHook
  split
  · split
    · exact hK.bind (hcompare _ _ b) fun _ => hK.pure _
    · exact hK.pure _
  · exact hK.pure _

mutual

theorem equals (hcompare : ∀ layer i other,
      K (ExceptT.mk (h.compare layer i other)) (ExceptT.mk (h'.compare layer i other)))
    (a b : Value) : K (a.equals h b) (a.equals h' b) := by
  rw [Value.equals.eq_def, Value.equals.eq_def]
  refine hK.bind (hK.compareByHook hcompare a b) fun x => ?_
  split
  · exact hK.pure _
  · refine hK.bind (hK.compareByHook hcompare b a) fun y => ?_
    split
    · exact hK.pure _
    · split
      · next id xs id' ys =>
        split
        · exact equalsItems hcompare xs ys
        · exact hK.pure _
      · exact hK.pure _

theorem equalsItems (hcompare : ∀ layer i other,
      K (ExceptT.mk (h.compare layer i other)) (ExceptT.mk (h'.compare layer i other)))
    (xs ys : List Value) : K (Value.equalsItems h xs ys) (Value.equalsItems h' xs ys) := by
  rw [Value.equalsItems.eq_def, Value.equalsItems.eq_def]
  split
  · next x xs y ys =>
    split
    · exact equalsItems hcompare xs ys
    · refine hK.bind (equals hcompare x y) fun same => ?_
      split
      · exact equalsItems hcompare xs ys
      · exact hK.pure _
  · exact hK.pure _

end

end Simulation

structure Congruence (m : Type → Type) [Monad m] (K : {α : Type} → m α → m α → Prop) : Prop where
  pure : ∀ {α : Type} (a : α), K (Pure.pure a : m α) (Pure.pure a)
  bind : ∀ {α β : Type} {x y : m α} {f g : α → m β}, K x y → (∀ a, K (f a) (g a)) →
    K (x >>= f) (y >>= g)

structure Hooks.Related {m : Type → Type} (K : {α : Type} → m α → m α → Prop) (h h' : Hooks m) :
    Prop where
  hash : ∀ layer i, K (h.hash layer i) (h'.hash layer i)
  compare : ∀ layer i other, K (h.compare layer i other) (h'.compare layer i other)
  construct : ∀ layer cls args, K (h.construct layer cls args) (h'.construct layer cls args)
  newExc : ∀ type class? args, K (h.newExc type class? args) (h'.newExc type class? args)
  newText : ∀ text, K (h.newText text) (h'.newText text)
  newIdentity : K h.newIdentity h'.newIdentity

namespace Congruence

variable {m : Type → Type} [Monad m] {K : {α : Type} → m α → m α → Prop} (hK : Congruence m @K)
include hK

theorem bindT {x y : ExceptT Failure m α} {f g : α → ExceptT Failure m β}
    (hx : K x.run y.run) (hf : ∀ a, K (f a).run (g a).run) : K (x >>= f).run (y >>= g).run := by
  simp only [ExceptT.run_bind]
  refine hK.bind hx fun r => ?_
  cases r with
  | ok a => exact hf a
  | error f => exact hK.pure _

theorem liftT [LawfulMonad m] {x y : m α} (hx : K x y) :
    K (liftM x : ExceptT Failure m α).run (liftM y : ExceptT Failure m α).run := by
  have hrun : ∀ z : m α, (liftM z : ExceptT Failure m α).run =
      z >>= fun a => Pure.pure (Except.ok a) := fun z => (bind_pure_comp _ z).symm
  rw [hrun, hrun]
  exact hK.bind hx fun _ => hK.pure _

theorem simulation : Simulation m m fun x y => K x.run y.run where
  pure _ := hK.pure _
  throw _ := hK.pure _
  bind := hK.bindT

variable {h h' : Hooks m}

theorem fail (hh : h.Related @K h') (f : Fault) :
    K (h.fail f : ExceptT Failure m α).run (h'.fail f : ExceptT Failure m α).run :=
  hK.bind (hK.bind (hK.bind (hh.newText _) fun _ => hh.newExc _ _ _) fun _ => hK.pure _)
    fun _ => hK.pure _

theorem hash (hh : h.Related @K h') (v : Value) : K (v.hash h).run (v.hash h').run :=
  hK.simulation.hash hh.hash (hK.fail hh) v

theorem equals (hh : h.Related @K h') (a b : Value) : K (a.equals h b).run (a.equals h' b).run :=
  hK.simulation.equals hh.compare a b

theorem call [LawfulMonad m] (hh : h.Related @K h') (f : Value) (args : List Value) :
    K (f.call h args).run (f.call h' args).run := by
  unfold Value.call
  split
  · exact hK.bindT (hK.liftT (hh.newExc _ _ _)) fun _ => hK.pure _
  · unfold Value.construct
    split
    · exact hh.construct _ _ args
    · exact hK.bindT (hK.liftT (hh.newExc _ _ _)) fun _ => hK.pure _
    · exact hK.bindT (hK.liftT hh.newIdentity) fun _ => hK.pure _
  · exact hK.fail hh _

end Congruence

end Resumable
