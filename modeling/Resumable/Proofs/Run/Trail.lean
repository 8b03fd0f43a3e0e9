import Resumable.Proofs.Run.Resumption

/-!
# Trails

All that a run does to a world is done in steps of a few kinds. `Step` lists what the engine does
of itself, `Trail` adds what programs edit, what a body looks at, which exceptions are linked to
others, and what is done on a call of its own. What no step changes is not changed along a trail.
-/

namespace Resumable

variable {σ : Type}

-- ---------------------------------------------------------------------------
-- Steps
-- ---------------------------------------------------------------------------

def Generator.fixed (x : Generator) : Arguments × Code := (x.template, x.code)

/-- Says which exceptions may be linked to which as their contexts, as long as all are linked in
some way. -/
abbrev Linking := Store .exception Links → Ref .exception → Exc → Prop

def Linking.any : Linking := fun _ _ _ => True

def TraceEvent.isLookup : TraceEvent → Bool
  | lookup _ => true
  | _ => false

namespace World

/-- One thing that is done without running a program. -/
inductive Step : World σ → World σ → Prop
  | host (f : σ → σ) : Step w { w with host := f w.host }
  | identity : Step w { w with identities := w.identities + 1 }
  | cell (v : Option Value) : Step w (w.modifyMemory fun m => { m with cells := m.cells.add v })
  | frame (layout : FrameLayout) :
      Step w (w.modifyMemory fun m => { m with frames := m.frames.add (.ofLayout layout) })
  | exception : Step w { w with links := w.links.add .none }
  | links (e : Exc) (f : Links → Links) :
      (∀ l, (f l).context = l.context ∨ (f l).context = none) → Step w (w.modifyLinks e f)
  | context (k : Context) : Step w { w with contexts := w.contexts.add k }
  | generator : (Exec.call t args).run w = some (.ok g, w') → Step w w'
  | meter (c : Ref .context) (f : Context → Context) :
      (f (w.context c)).tracer = (w.context c).tracer → Step w (w.modifyContext c f)
  | course (g : Ref .generator) (f : Generator → Generator) : (∀ x, (f x).fixed = x.fixed) →
      Step w (w.modifyGenerator g f)
  | record (h : Happening) : (∀ c g e, h ≠ .traced c g e) → Step w (w.record h)
  | told (c : Ref .context) (g : Ref .generator) (e : TraceEvent) : e.isLookup = false →
      Step w (w.told c g e)

/-- What leads from one world to another. The activity of the call on top of the stack is changed
only by who made the call; whoever else runs on top of it is a body that may look at its
arguments. -/
inductive Trail (P : Ref .context → Edit → Prop) (Q : Linking) : Bool → World σ → World σ → Prop
  | refl : Trail P Q own w w
  | trans : Trail P Q own w v → Trail P Q own v w' → Trail P Q own w w'
  | step : Step w w' → Trail P Q own w w'
  | edit (c : Ref .context) : P c x → Trail P Q own w (x.apply c w)
  | chained : Q w.links e.ref handled → Trail P Q own w (w.modifyLinks e (.chain e handled))
  | wrapped (x : Exc) (t : Option Traceback) : Q w.links w.links.next x →
      Trail P Q own w { w with links := w.links.add ⟨t, some x, some x⟩ }
  | seen : w.calls = .level ⟨g, c, .running a⟩ :: rest →
      b.arguments.payload = a.arguments.payload ∨ b.arguments.payload = none →
      Trail P Q own w (w.setActivity (.running b))
  | activity (a : Activity) : Trail P Q true w (w.setActivity a)
  | within (x : Call) : Trail P Q true (w.push x) v → Trail P Q own w v.pop

theorem Trail.owned {w w' : World σ} (h : w.Trail P Q false w') : w.Trail P Q own w' := by
  cases own with
  | false => exact h
  | true =>
    generalize hb : false = b at h
    induction h with
    | refl => exact .refl
    | trans _ _ ih ih' => exact .trans (ih hb) (ih' hb)
    | step h => exact .step h
    | edit c h => exact .edit c h
    | chained h => exact .chained h
    | wrapped x t h => exact .wrapped x t h
    | seen hc h => exact .seen hc h
    | activity => cases hb
    | within x h => exact .within x h

end World

-- ---------------------------------------------------------------------------
-- What no step changes
-- ---------------------------------------------------------------------------

/-- The world once a generator for a call of a target is made. -/
def World.generating (t : Target) (args : List Value) (w : World σ) : World σ :=
  ({ w with
    memory := args.zipIdx.foldl (fun m (v, index) => m.store w.memory.frames.next index v)
      { w.memory with frames := w.memory.frames.add (.ofLayout t.code.layout) }
    generators := w.generators.add (.create t w.memory.frames.next args) } : World σ).record
      (.created w.generators.next t)

theorem Exec.call_run {w w' : World σ} (h : (Exec.call t args).run w = some (.ok g, w')) :
    g = w.generators.next ∧ w' = w.generating t args := by
  unfold Exec.call at h
  split at h
  · cases h
    exact ⟨rfl, rfl⟩
  · cases h

namespace Memory

variable {m : Memory} {f r : Ref .frame}

theorem valid_store (index : Nat) (v : Value) :
    (m.store f index v).frames.Valid r ↔ m.frames.Valid r := by
  unfold store
  split
  · rfl
  · exact Store.valid_modify ..

theorem valid_clear (index : Nat) : (m.clear f index).frames.Valid r ↔ m.frames.Valid r := by
  unfold clear
  split
  · rfl
  · exact Store.valid_modify ..

theorem frame_storeRaw_of_ne (h : r ≠ f) (index : Nat) (v : Value) :
    (m.storeRaw f index v).frame r = m.frame r := Store.get_modify_of_ne _ _ h

theorem frame_store_of_ne (h : r ≠ f) (index : Nat) (v : Value) :
    (m.store f index v).frame r = m.frame r := by
  unfold store
  split
  · rfl
  · exact frame_storeRaw_of_ne h index v

theorem frame_clear_of_ne (h : r ≠ f) (index : Nat) : (m.clear f index).frame r = m.frame r := by
  unfold clear
  split
  · rfl
  · exact frame_storeRaw_of_ne h index _

theorem valid_foldl_store (args : List (Value × Nat)) (m : Memory) :
    (args.foldl (fun m (v, index) => m.store f index v) m).frames.Valid r ↔ m.frames.Valid r := by
  induction args generalizing m with
  | nil => rfl
  | cons x rest ih => exact (ih _).trans (valid_store _ _)

theorem frame_foldl_store (h : r ≠ f) (args : List (Value × Nat)) (m : Memory) :
    (args.foldl (fun m (v, index) => m.store f index v) m).frame r = m.frame r := by
  induction args generalizing m with
  | nil => rfl
  | cons x rest ih => exact (ih _).trans (frame_store_of_ne h _ _)

end Memory

/-- The stacks are the same, but that the body on top may have taken what was delivered to it. -/
inductive Looked : List Call → List Call → Prop
  | refl : Looked calls calls
  | seen : b.arguments.payload = a.arguments.payload ∨ b.arguments.payload = none →
      Looked (.level ⟨g, c, .running a⟩ :: rest) (.level ⟨g, c, .running b⟩ :: rest)

theorem Looked.trans (h : Looked x y) (h' : Looked y z) : Looked x z := by
  cases h with
  | refl => exact h'
  | seen h =>
    cases h' with
    | refl => exact .seen h
    | seen h' =>
      refine .seen ?_
      rcases h' with h' | h'
      · rwa [h']
      · exact .inr h'

def Edit.Writes (f : Ref .frame) : Edit → Prop
  | .store f' _ _ | .storeRaw f' _ _ | .clear f' _ => f' = f
  | _ => False

namespace World

variable {P : Ref .context → Edit → Prop} {Q : Linking} {own : Bool} {w v w' : World σ}

theorem Step.calls (h : w.Step w') : w'.calls = w.calls := by
  cases h with
  | generator h =>
    obtain ⟨-, rfl⟩ := Exec.call_run h
    rfl
  | _ => rfl

theorem tail_setActivity (a : Activity) : (w.setActivity a).calls.tail = w.calls.tail := by
  unfold setActivity
  split
  · next h => simp [h]
  · rfl

/-- Who leaves a trail has left the calls below as they were, and the call on top as well if it is
not his. -/
theorem Trail.calls (h : w.Trail P Q own w') :
    w'.calls.tail = w.calls.tail ∧ (own = false → Looked w.calls w'.calls) := by
  induction h with
  | refl => exact ⟨rfl, fun _ => .refl⟩
  | trans _ _ ih ih' => exact ⟨ih'.1.trans ih.1, fun ho => (ih.2 ho).trans (ih'.2 ho)⟩
  | step h => exact ⟨by rw [h.calls], fun _ => h.calls ▸ .refl⟩
  | @edit x _ w c _ =>
    have hcalls : (x.apply c w).calls = w.calls := by cases x <;> rfl
    exact ⟨by rw [hcalls], fun _ => hcalls ▸ .refl⟩
  | chained | wrapped => exact ⟨rfl, fun _ => .refl⟩
  | seen hc h =>
    rw [calls_setActivity hc, hc]
    exact ⟨rfl, fun _ => .seen h⟩
  | activity a => exact ⟨tail_setActivity a, nofun⟩
  | within x _ ih =>
    simp only [pop, ih.1, push, List.tail_cons]
    exact ⟨trivial, fun _ => .refl⟩

theorem Trail.not_pending (h : w.Trail P Q false w')
    (hw : w.activation?.any (·.hasPendingThrow) = false) :
    w'.activation?.any (·.hasPendingThrow) = false := by
  have hlooked := h.calls.2 rfl
  unfold activation? at hw ⊢
  generalize w.calls = x at hw hlooked
  generalize w'.calls = y at hlooked
  cases hlooked with
  | refl => exact hw
  | seen h =>
    simp only [Option.any_some, Activation.hasPendingThrow] at hw ⊢
    rcases h with h | h
    · rwa [h]
    · rw [h]
      rfl

/-- Everything there was is there still, and generators are what they were made as. -/
structure Grown (w w' : World σ) : Prop where
  exceptions : ∀ r, w.links.Valid r → w'.links.Valid r
  frames : ∀ r, w.memory.frames.Valid r → w'.memory.frames.Valid r
  contexts : ∀ r, w.contexts.Valid r → w'.contexts.Valid r
  generators : ∀ g, w.generators.Valid g → w'.generators.Valid g
  fixed : ∀ g, w.generators.Valid g → (w'.generator g).fixed = (w.generator g).fixed
  made : ∀ g, w'.generators.Valid g →
    w.generators.Valid g ∨ w'.memory.frames.Valid (w'.generator g).frame

/-- The frames of all generators exist. -/
def Framed (w : World σ) : Prop :=
  ∀ g, w.generators.Valid g → w.memory.frames.Valid (w.generator g).frame

namespace Grown

theorem frame_eq (h : w.Grown w') (hg : w.generators.Valid g) :
    (w'.generator g).frame = (w.generator g).frame :=
  congrArg (fun x : Arguments × Code => x.1.frame) (h.fixed g hg)

theorem framed (h : w.Grown w') (hw : w.Framed) : w'.Framed := fun g hg =>
  (h.made g hg).elim (fun hv => h.frame_eq hv ▸ h.frames _ (hw g hv)) id

theorem trans (h : w.Grown v) (h' : v.Grown w') : w.Grown w' where
  exceptions r hr := h'.exceptions r (h.exceptions r hr)
  frames r hr := h'.frames r (h.frames r hr)
  contexts r hr := h'.contexts r (h.contexts r hr)
  generators g hg := h'.generators g (h.generators g hg)
  fixed g hg := (h'.fixed g (h.generators g hg)).trans (h.fixed g hg)
  made g hg := (h'.made g hg).elim (fun hv => (h.made g hv).imp id fun hf => by
    rw [h'.frame_eq hv]
    exact h'.frames _ hf) .inr

theorem refl (w : World σ) : w.Grown w :=
  ⟨fun _ h => h, fun _ h => h, fun _ h => h, fun _ h => h, fun _ _ => rfl, fun _ h => .inl h⟩

theorem of_memory {m : Memory} (hf : ∀ r, w.memory.frames.Valid r → m.frames.Valid r) :
    w.Grown { w with memory := m } :=
  { refl w with
    frames := hf
    made := fun _ h => .inl h }

theorem modifyGenerator {f : Generator → Generator} (hf : ∀ x, (f x).fixed = x.fixed)
    (g : Ref .generator) : w.Grown (w.modifyGenerator g f) :=
  { refl w with
    generators := fun _ h => valid_modifyGenerator.mpr h
    made := fun _ h => .inl (valid_modifyGenerator.mp h)
    fixed := fun g' _ => part_modifyGenerator hf w g g' }

theorem setActivity (a : Activity) : w.Grown (w.setActivity a) := by
  unfold World.setActivity
  split <;> exact { refl w with }

end Grown

theorem valid_generating {r : Ref .frame} :
    (w.generating t args).memory.frames.Valid r ↔
      w.memory.frames.Valid r ∨ r = w.memory.frames.next :=
  (Memory.valid_foldl_store ..).trans (Store.valid_add ..)

theorem frame_generating {r : Ref .frame} (hr : w.memory.frames.Valid r) (t : Target)
    (args : List Value) : (w.generating t args).memory.frame r = w.memory.frame r := by
  have hne : r ≠ w.memory.frames.next := fun he => w.memory.frames.not_valid_next (he ▸ hr)
  exact (Memory.frame_foldl_store hne _ _).trans (Store.get_add_of_valid _ _ hr)

theorem Step.grown (h : w.Step w') : w.Grown w' := by
  cases h with
  | host | identity | cell | record => exact { Grown.refl w with }
  | frame layout =>
    exact .of_memory fun _ h => (Store.valid_add ..).mpr (.inl h)
  | exception =>
    exact { Grown.refl w with exceptions := fun _ h => (Store.valid_add ..).mpr (.inl h) }
  | links e f _ =>
    exact { Grown.refl w with exceptions := fun _ h => (Store.valid_modify ..).mpr h }
  | context k =>
    exact { Grown.refl w with contexts := fun _ h => (Store.valid_add ..).mpr (.inl h) }
  | @generator t args g _ _ h =>
    obtain ⟨-, rfl⟩ := Exec.call_run h
    have hframe : (w.generating t args).memory.frames.Valid w.memory.frames.next :=
      valid_generating.mpr (.inr rfl)
    exact { Grown.refl w with
      frames := fun _ h => valid_generating.mpr (.inl h)
      generators := fun _ h => (Store.valid_add ..).mpr (.inl h)
      fixed := fun _ h => congrArg Generator.fixed (Store.get_add_of_valid _ _ h)
      made := fun g hg => ((Store.valid_add ..).mp hg).imp id fun he => by
        subst he
        exact (congrArg (fun x : Generator => (w.generating t args).memory.frames.Valid x.frame)
          (Store.get_add_next w.generators _)).mpr hframe }
  | meter c f => exact { Grown.refl w with contexts := fun _ h => (Store.valid_modify ..).mpr h }
  | course g f hf => exact .modifyGenerator hf g
  | told c g e _ => exact { Grown.refl w with contexts := fun _ h => (Store.valid_modify ..).mpr h }

theorem grown_edit (x : Edit) (c : Ref .context) : w.Grown (x.apply c w) := by
  cases x with
  | cell => exact { Grown.refl w with }
  | store f index v =>
    exact .of_memory (m := w.memory.store f index v) fun _ h => (Memory.valid_store _ _).mpr h
  | storeRaw f index v =>
    exact .of_memory (m := w.memory.storeRaw f index v) fun _ h => (Store.valid_modify ..).mpr h
  | clear f index =>
    exact .of_memory (m := w.memory.clear f index) fun _ h => (Memory.valid_clear _).mpr h
  | traceback | context | cause =>
    exact { Grown.refl w with exceptions := fun _ h => (Store.valid_modify ..).mpr h }
  | name g s => exact .modifyGenerator (f := ({ · with name := s })) (fun _ => rfl) g
  | qualifiedName g s =>
    exact .modifyGenerator (f := ({ · with qualifiedName := s })) (fun _ => rfl) g
  | emit | clearEvents =>
    exact { Grown.refl w with contexts := fun _ h => (Store.valid_modify ..).mpr h }

theorem Trail.grown (h : w.Trail P Q own w') : w.Grown w' := by
  induction h with
  | refl => exact .refl _
  | trans _ _ ih ih' => exact ih.trans ih'
  | step h => exact h.grown
  | edit c _ => exact grown_edit _ c
  | chained _ => exact { Grown.refl _ with exceptions := fun _ h => (Store.valid_modify ..).mpr h }
  | wrapped x t _ =>
    exact { Grown.refl _ with exceptions := fun _ h => (Store.valid_add ..).mpr (.inl h) }
  | seen | activity => exact .setActivity _
  | within x _ ih => exact ⟨ih.exceptions, ih.frames, ih.contexts, ih.generators, ih.fixed, ih.made⟩

-- ---------------------------------------------------------------------------
-- Frames
-- ---------------------------------------------------------------------------

theorem Step.frame_eq {f : Ref .frame} (h : w.Step w') (hf : w.memory.frames.Valid f) :
    w'.memory.frame f = w.memory.frame f := by
  cases h with
  | frame layout => exact Store.get_add_of_valid _ _ hf
  | generator h =>
    obtain ⟨-, rfl⟩ := Exec.call_run h
    exact frame_generating hf _ _
  | _ => rfl

theorem frame_edit {x : Edit} {f : Ref .frame} (hx : ¬ x.Writes f) (c : Ref .context)
    (w : World σ) : (x.apply c w).memory.frame f = w.memory.frame f := by
  cases x with
  | store f' index v => exact Memory.frame_store_of_ne (Ne.symm hx) _ _
  | storeRaw f' index v => exact Memory.frame_storeRaw_of_ne (Ne.symm hx) _ _
  | clear f' index => exact Memory.frame_clear_of_ne (Ne.symm hx) _
  | _ => rfl

theorem Trail.frame_eq {f : Ref .frame} (h : w.Trail P Q own w') (hP : ∀ c x, P c x → ¬ x.Writes f)
    (hf : w.memory.frames.Valid f) : w'.memory.frame f = w.memory.frame f := by
  induction h with
  | refl => rfl
  | trans h _ ih ih' => exact (ih' (h.grown.frames f hf)).trans (ih hf)
  | step h => exact h.frame_eq hf
  | edit c hx => exact frame_edit (hP c _ hx) c _
  | chained | wrapped => rfl
  | seen | activity =>
    unfold setActivity
    split <;> rfl
  | within x _ ih => exact ih hf

end World

end Resumable
