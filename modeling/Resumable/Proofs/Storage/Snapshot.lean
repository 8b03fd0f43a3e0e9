import Resumable.Proofs.Storage.Promotion
import Resumable.Proofs.Value.PureHooks

/-!
# Views among writes

A program writes to a frame and uses a storage of its variables, in any order. A view follows the
writes until it is written to itself; the map that is made then holds the variables of that moment,
and no later write reaches it. No use of the storage changes a variable.
-/

namespace Resumable

namespace Memory

inductive Write where
  | store (f : Ref .frame) (index : Nat) (v : Value)
  | storeRaw (f : Ref .frame) (index : Nat) (v : Value)
  | clear (f : Ref .frame) (index : Nat)
  | cell (r : Ref .cell) (v : Option Value)

def write (mem : Memory) : Write → Memory
  | .store f index v => mem.store f index v
  | .storeRaw f index v => mem.storeRaw f index v
  | .clear f index => mem.clear f index
  | .cell r v => mem.setCell r v

def writeAll (mem : Memory) (ws : List Write) : Memory := ws.foldl write mem

theorem layout_storeRaw (mem : Memory) (f g : Ref .frame) (index : Nat) (v : Value) :
    (mem.storeRaw f index v).layout g = mem.layout g := by
  simp only [layout, frame, storeRaw]
  by_cases hg : g = f
  · by_cases hv : mem.frames.Valid f
    · rw [hg, Store.get_modify_self _ _ hv]
      rfl
    · rw [hg, Store.get_of_not_valid _ hv, Store.get_of_not_valid]
      rwa [Store.valid_modify]
  · rw [Store.get_modify_of_ne _ _ hg]

theorem layout_write (mem : Memory) (w : Write) (f : Ref .frame) :
    (mem.write w).layout f = mem.layout f := by
  cases w with
  | store g index v =>
    simp only [write, store]
    split
    · rfl
    · exact layout_storeRaw ..
  | storeRaw g index v => exact layout_storeRaw ..
  | clear g index =>
    simp only [write, clear]
    split
    · rfl
    · exact layout_storeRaw ..
  | cell r v => rfl

theorem layout_writeAll (mem : Memory) (ws : List Write) (f : Ref .frame) :
    (mem.writeAll ws).layout f = mem.layout f := by
  induction ws generalizing mem with
  | nil => rfl
  | cons w ws ih => exact (ih (mem.write w)).trans (layout_write mem w f)

end Memory

namespace Storage

-- ---------------------------------------------------------------------------
-- Runs
-- ---------------------------------------------------------------------------

inductive Step (α : Type) where
  | write (w : Memory.Write)
  | op (op : Op α)

section

variable {α : Type}

def writes : List (Step α) → List Memory.Write
  | [] => []
  | .write w :: steps => w :: writes steps
  | .op _ :: steps => writes steps

def ops : List (Step α) → List (Op α)
  | [] => []
  | .write _ :: steps => ops steps
  | .op op :: steps => op :: ops steps

def Contents.run (fits : Value → Value → Bool) (f : Ref .frame) :
    List (Step α) → Memory → Contents → Contents
  | [], _, c => c
  | .write w :: steps, mem, c => run fits f steps (mem.write w) c
  | .op op :: steps, mem, c => run fits f steps mem (c.after fits mem f op)

theorem Contents.run_writes {fits : Value → Value → Bool} {f : Ref .frame}
    {steps : List (Step α)} (hs : ops steps = []) (mem : Memory) (c : Contents) :
    c.run fits f steps mem = c := by
  induction steps generalizing mem with
  | nil => rfl
  | cons step steps ih =>
    cases step with
    | write w => exact ih hs (mem.write w)
    | op op => cases hs

end

variable {m : Type → Type} [Monad m] {α : Type}

def run (h : Hooks (StateT Setting m)) : List (Step α) → StateT Setting m (List (Answer α))
  | [] => return []
  | .write w :: steps => do
    StateT.modifyGet fun t => ((), { t with memory := t.memory.write w })
    run h steps
  | .op op :: steps => do
    let answer ← perform h op
    let answers ← run h steps
    return answer :: answers

section

variable {h : Hooks (StateT Setting m)} {law : KeyLaw h} {o : Objects} {mem : Memory}
  {f : Ref .frame} {c : Contents} {s : Storage}

theorem Stands.write (hs : Stands law o mem f c s) (w : Memory.Write) :
    Stands law o (mem.write w) f c s := by
  cases c with
  | live =>
    obtain ⟨l, hl, hframe, hc⟩ := hs
    exact ⟨l, hl, hframe, by rwa [Memory.layout_write]⟩
  | fixed l => exact hs

theorem Stands.holds {map : Map} (hs : Stands law o mem f c (.map map)) : law.Holds map := by
  cases c with
  | live =>
    obtain ⟨l, hl, -⟩ := hs
    cases hl
  | fixed l =>
    obtain ⟨map', hmap, hm, -⟩ := hs
    cases hmap
    exact hm

variable [LawfulMonad m]

theorem run_stands (hv : SoundLayout law o (mem.layout f)) (hs : Stands law o mem f c s)
    {steps : List (Step α)} (hops : ∀ op ∈ ops steps, op.Uses law.good law.hash)
    (lookups : List Bool) :
    ∃ answers s' later, (run h steps).run ⟨mem, s, lookups⟩ =
        pure (answers, ⟨mem.writeAll (writes steps), s', later⟩) ∧
      Stands law o (mem.writeAll (writes steps)) f (c.run law.fits f steps mem) s' := by
  induction steps generalizing mem c s lookups with
  | nil => exact ⟨[], s, lookups, rfl, hs⟩
  | cons step steps ih =>
    cases step with
    | write w =>
      rw [← Memory.layout_write mem w] at hv
      obtain ⟨answers, s', later, hrun, hs'⟩ := ih hv (hs.write w) hops lookups
      refine ⟨answers, s', later, ?_, hs'⟩
      simp only [run, StateT.run_bind, run_modifyGet, pure_bind]
      exact hrun
    | op op =>
      obtain ⟨answer, s₁, later₁, hop, hs₁⟩ := perform_stands hv hs (hops op (by simp [ops])) lookups
      obtain ⟨answers, s₂, later₂, hrun, hs₂⟩ :=
        ih hv hs₁ (fun other hother => hops other (by simp [ops, hother])) later₁
      refine ⟨answer :: answers, s₂, later₂, ?_, hs₂⟩
      simp only [run, StateT.run_bind, hop, hrun, pure_bind]
      rfl

theorem run_map {map : Map} (hm : law.Holds map) {steps : List (Step α)}
    (hops : ∀ op ∈ ops steps, op.Uses law.good law.hash) (mem : Memory) (lookups : List Bool) :
    ∃ map' later, (run h steps).run ⟨mem, .map map, lookups⟩ =
        pure ((Assoc.performAll law.fits (ops steps) map.pairs).1,
          ⟨mem.writeAll (writes steps), .map map', later⟩) ∧
      map'.pairs = (Assoc.performAll law.fits (ops steps) map.pairs).2 := by
  induction steps generalizing mem map lookups with
  | nil => exact ⟨map, lookups, rfl, rfl⟩
  | cons step steps ih =>
    cases step with
    | write w =>
      obtain ⟨map', later, hrun, hp⟩ := ih hm hops (mem.write w) lookups
      refine ⟨map', later, ?_, hp⟩
      simp only [run, StateT.run_bind, run_modifyGet, pure_bind]
      exact hrun
    | op op =>
      obtain ⟨map₁, later₁, hop, hm₁, hp₁⟩ :=
        KeyLaw.perform_holds hm (hops op (by simp [ops])) mem lookups
      obtain ⟨map₂, later₂, hrun, hp₂⟩ :=
        ih hm₁ (fun other hother => hops other (by simp [ops, hother])) mem later₁
      rw [hp₁] at hrun hp₂
      refine ⟨map₂, later₂, ?_, hp₂⟩
      simp only [run, StateT.run_bind, hop, hrun, pure_bind]
      rfl

end

-- ---------------------------------------------------------------------------
-- Keys
-- ---------------------------------------------------------------------------

/-- The key runs no code, or is an instance whose hooks do nothing but answer, equal to one visible
name at most. -/
def ViewKey (p : PureHooks) (h : Hooks (StateT Setting m)) (o : Objects) (layout : FrameLayout)
    (key : Value) : Prop :=
  key.In o ∧ (key.mayRunCode = false ∨
    ∃ i : Instance, key = i.value ∧ p.Answers h i ∧ Once p.equals layout key)

section

variable {p : PureHooks} {h : Hooks (StateT Setting m)} {o : Objects} {layout : FrameLayout}
  {key : Value}

theorem ViewKey.settled (hk : ViewKey p h o layout key) : p.Settled h key := by
  obtain ⟨-, hk | ⟨i, hi, ha, -⟩⟩ := hk
  · exact .inl hk
  · exact .inr ⟨i, hi, ha⟩

theorem plainEquals_text (key : Value) (t : TextRef) :
    key.plainEquals (.text t) = (key.asText == some t.text) := by
  cases key <;> simp [Value.plainEquals, Value.equalsPlain, Value.asText, Value.asInt,
    Value.identical]

theorem ViewKey.once (hd : layout.Distinct) (hk : ViewKey p h o layout key) :
    Once p.equals layout key := by
  obtain ⟨-, hk | ⟨i, rfl, -, hone⟩⟩ := hk
  · refine (List.pairwise_map.mp hd).imp fun {s t} hst hs => ?_
    rw [PureHooks.equals_plain hk rfl, plainEquals_text] at hs ⊢
    rw [beq_iff_eq] at hs
    simpa [hs] using hst
  · exact hone

variable (p h o layout) in
def viewLaw [LawfulMonad m] : KeyLaw h where
  good := ViewKey p h o layout
  hash := p.hashOf
  equals := p.equals
  hash_good _ hk := PureHooks.hash_settled hk.settled
  equals_good _ _ ha hb := PureHooks.equals_settled ha.settled hb.settled
  hash_text _ := rfl
  equals_text _ _ := rfl

variable [LawfulMonad m]

theorem soundLayout (hd : layout.Distinct) (hn : layout.In o) :
    SoundLayout (viewLaw p h o layout) o layout where
  distinct := hd
  named := hn
  good s hs := ⟨hn s hs, .inl rfl⟩
  within _ hk := hk.1
  once _ hk := ViewKey.once hd hk

end

variable [LawfulMonad m]

-- ---------------------------------------------------------------------------
-- A frame of one
-- ---------------------------------------------------------------------------

/-- A frame whose one variable is `x`. -/
def frameOfX (v : Value) : Memory := ⟨.empty, ⟨#[⟨⟨0, [.named ⟨0, "x"⟩]⟩, #[v]⟩]⟩⟩

def objectsOfX : Objects := ⟨fun _ => "x", fun _ => []⟩

theorem visibleSlots_frameOfX (v : Value) :
    ((frameOfX v).layout ⟨0⟩).visibleSlots = [(0, ⟨0, "x"⟩)] := rfl

theorem distinct_frameOfX (v : Value) : ((frameOfX v).layout ⟨0⟩).Distinct := by
  simp [FrameLayout.Distinct, visibleSlots_frameOfX]

theorem in_frameOfX (v : Value) : ((frameOfX v).layout ⟨0⟩).In objectsOfX := by
  simp [FrameLayout.In, visibleSlots_frameOfX, Value.In, objectsOfX]

/-- Hooks of instances that are equal to the texts `x`, and to nothing else. -/
def hooksOfX : PureHooks :=
  ⟨fun _ _ => Hash.ofText "x", fun _ _ other => other.asText == some "x"⟩

def likeX (id : Identity) : Value := .inst id (.root ⟨1, "Alias", true, true, false⟩) .none

def notANumber : Value := .float ⟨0x7ff8000000000000⟩

theorem viewKey_likeX (id : Identity) (v : Value) :
    ViewKey hooksOfX (hooksOfX.hooks (m := StateT Setting Id)) objectsOfX ((frameOfX v).layout ⟨0⟩)
      (likeX id) := by
  refine ⟨trivial, .inr ⟨⟨id, _, .none⟩, rfl, hooksOfX.answers_hooks rfl, ?_⟩⟩
  rw [Once, visibleSlots_frameOfX]
  exact List.pairwise_singleton _ _

theorem fits_likeX (id : Identity) :
    Map.fits hooksOfX.hashOf (hooksOfX.equals (likeX id)) (likeX id) (.text ⟨0, "x"⟩) = true := by
  have hh : hooksOfX.hashOf (likeX id) = hooksOfX.hashOf (.text ⟨0, "x"⟩) := rfl
  have he : hooksOfX.equals (likeX id) (.text ⟨0, "x"⟩) = true := rfl
  simp [Map.fits, hh, he]

theorem fits_notANumber :
    Map.fits hooksOfX.hashOf (hooksOfX.equals notANumber) notANumber (.text ⟨0, "x"⟩) = false ∧
      Map.fits hooksOfX.hashOf (hooksOfX.equals notANumber) notANumber notANumber = true := by
  have he : hooksOfX.equals notANumber (.text ⟨0, "x"⟩) = false := rfl
  have hi : (Value.text ⟨0, "x"⟩).identical notANumber = false := rfl
  have hs : notANumber.identical notANumber = true := rfl
  simp [Map.fits, he, hi, hs]

theorem set_then_get {h : Hooks (StateT Setting m)} {law : KeyLaw h} {o : Objects} {mem : Memory}
    {f : Ref .frame} {key other : Value} (hv : SoundLayout law o (mem.layout f))
    (hk : law.good key) (ho : law.good other) (v : Value) :
    ∃ s s' s'', Gives (getItem (surroundings h) other none) mem (.locals (.ofFrame f))
        (Assoc.lookup law.fits other (bindings mem f)) s ∧
      Gives (setItem (surroundings h) key v) mem (.locals (.ofFrame f))
        (Assoc.lookup law.fits key (bindings mem f)) s' ∧
      Gives (getItem (surroundings h) other none) mem s'
        (Assoc.lookup law.fits other (Assoc.insert law.fits key v (bindings mem f))) s'' := by
  have hview : Stands law o mem f .live (.locals (.ofFrame f)) :=
    ⟨.ofFrame f, rfl, rfl, soundCache_ofFrame f⟩
  have hgiven : Given law.hash other none := by simp [Given]
  obtain ⟨s, hget, -⟩ := getItem_stands hv hview ho hgiven
  obtain ⟨map, hset, hm, hp⟩ := setItem_stands hv hview hk v
  refine ⟨s, .map map, .map map, hget, hset, ?_⟩
  rw [Contents.pairs] at hp
  rw [← hp]
  exact KeyLaw.getItem_holds mem hm ho hgiven

theorem bindings_frameOfX (i : Int64) :
    bindings (frameOfX (.int i)) ⟨0⟩ = [(.text ⟨0, "x"⟩, .int i)] := rfl

-- ---------------------------------------------------------------------------
-- Results
-- ---------------------------------------------------------------------------

/-- Whatever was written to the variables of a frame and done to a storage that began as a view of
them, no operation changed a variable, reading and writing the storage is reading and writing its
contents, and nothing but operations changes a map. -/
theorem promotion_lossless_isolating (h : Hooks (StateT Setting m)) (p : PureHooks) (o : Objects)
    (mem : Memory) (f : Ref .frame) (hd : (mem.layout f).Distinct) (hn : (mem.layout f).In o)
    (steps : List (Step α))
    (hops : ∀ op ∈ ops steps, op.Uses (ViewKey p h o (mem.layout f)) p.hashOf)
    (lookups : List Bool) :
    let law := viewLaw p h o (mem.layout f)
    let now := mem.writeAll (writes steps)
    let c := Contents.live.run law.fits f steps mem
    ∃ answers s later,
      (run h steps).run ⟨mem, .locals (.ofFrame f), lookups⟩ = pure (answers, ⟨now, s, later⟩) ∧
      Stands law o now f c s ∧
      (ops steps = [] → c = .live) ∧
      Lossless law o now f c s ∧
      ∀ map, s = .map map → ∀ more : List (Step α),
        (∀ op ∈ ops more, op.Uses (ViewKey p h o (mem.layout f)) p.hashOf) →
        ∃ map' last, (run h more).run ⟨now, .map map, later⟩ =
            pure ((Assoc.performAll law.fits (ops more) map.pairs).1,
              ⟨now.writeAll (writes more), .map map', last⟩) ∧
          map'.pairs = (Assoc.performAll law.fits (ops more) map.pairs).2 := by
  intro law now c
  have hv : SoundLayout law o (mem.layout f) := soundLayout hd hn
  have hstart : Stands law o mem f .live (.locals (.ofFrame f)) :=
    ⟨.ofFrame f, rfl, rfl, soundCache_ofFrame f⟩
  obtain ⟨answers, s, later, hrun, hs⟩ := run_stands hv hstart hops lookups
  have hnow : SoundLayout law o (now.layout f) := by rwa [Memory.layout_writeAll]
  refine ⟨answers, s, later, hrun, hs, fun hw => Contents.run_writes hw mem .live,
    lossless hnow hs, ?_⟩
  rintro map rfl more hmore
  exact run_map (Stands.holds hs) hmore now later

theorem promotion_lossless_isolating_one_name :
    ((frameOfX .unbound).layout ⟨0⟩).Distinct ∧ ((frameOfX .unbound).layout ⟨0⟩).In objectsOfX ∧
      ViewKey hooksOfX (hooksOfX.hooks (m := StateT Setting Id)) objectsOfX
        ((frameOfX .unbound).layout ⟨0⟩) (likeX 1) ∧
      ∃ answers map later,
        (run (α := Nat) (m := Id) hooksOfX.hooks
          [.write (.store ⟨0⟩ 0 (.int 1)), .op (.set (likeX 1) (.int 2)),
            .write (.store ⟨0⟩ 0 (.int 3))]).run
          ⟨frameOfX .unbound, .locals (.ofFrame ⟨0⟩), []⟩ =
        pure (answers, ⟨frameOfX (.int 3), .map map, later⟩) ∧
        map.pairs = [(.text ⟨0, "x"⟩, .int 2)] := by
  have hd := distinct_frameOfX .unbound
  have hn := in_frameOfX .unbound
  have hx := viewKey_likeX 1 .unbound
  obtain ⟨answers, s, later, hrun, hs, -⟩ :=
    promotion_lossless_isolating (m := Id) (α := Nat) hooksOfX.hooks hooksOfX objectsOfX
      (frameOfX .unbound) ⟨0⟩ hd hn
      [.write (.store ⟨0⟩ 0 (.int 1)), .op (.set (likeX 1) (.int 2)),
        .write (.store ⟨0⟩ 0 (.int 3))]
      (by simpa [ops, Op.Uses] using hx) []
  have hb : bindings ((frameOfX .unbound).write (.store ⟨0⟩ 0 (.int 1))) ⟨0⟩ =
      [(.text ⟨0, "x"⟩, .int 1)] := rfl
  have hu : (likeX 1).containsUnbound = false := rfl
  simp only [Contents.run, Contents.after, Contents.pairs, hb, Assoc.insert, Assoc.set, Assoc.get?,
    Assoc.replace, KeyLaw.fits, viewLaw, fits_likeX, hu, if_true, Option.isSome_some,
    Bool.false_eq_true, if_false] at hs
  obtain ⟨map, rfl, -, hp⟩ := hs
  exact ⟨hd, hn, hx, answers, map, later, hrun, hp⟩

/-- Two instances that are equal to `x` and not to one another have one entry; a number that is not
equal to itself has an entry once it is written. -/
theorem set_changes_unequal_keys :
    let h := hooksOfX.hooks (m := StateT Setting Id)
    let mem := frameOfX (.int 1)
    let view := Storage.locals (.ofFrame ⟨0⟩)
    (ViewKey hooksOfX h objectsOfX (mem.layout ⟨0⟩) (likeX 1) ∧
      ViewKey hooksOfX h objectsOfX (mem.layout ⟨0⟩) (likeX 2) ∧
      hooksOfX.equals (likeX 1) (likeX 2) = false ∧ hooksOfX.equals (likeX 2) (likeX 1) = false ∧
      ∃ s s' s'', Gives (getItem (surroundings h) (likeX 2) none) mem view (.ok (some (.int 1))) s ∧
        Gives (setItem (surroundings h) (likeX 1) (.int 2)) mem view (.ok (some (.int 1))) s' ∧
        Gives (getItem (surroundings h) (likeX 2) none) mem s' (.ok (some (.int 2))) s'') ∧
    (ViewKey hooksOfX h objectsOfX (mem.layout ⟨0⟩) notANumber ∧
      hooksOfX.equals notANumber notANumber = false ∧
      ∃ s s' s'', Gives (getItem (surroundings h) notANumber none) mem view (.ok none) s ∧
        Gives (setItem (surroundings h) notANumber (.int 2)) mem view (.ok none) s' ∧
        Gives (getItem (surroundings h) notANumber none) mem s' (.ok (some (.int 2))) s'') := by
  intro h mem view
  have hv := soundLayout (p := hooksOfX) (h := h) (distinct_frameOfX (.int 1))
    (in_frameOfX (.int 1))
  have hx₁ := viewKey_likeX 1 (.int 1)
  have hx₂ := viewKey_likeX 2 (.int 1)
  have hn : ViewKey hooksOfX h objectsOfX (mem.layout ⟨0⟩) notANumber := ⟨trivial, .inl rfl⟩
  refine ⟨⟨hx₁, hx₂, by decide, by decide, ?_⟩, hn, by decide, ?_⟩
  · have hb₁ : (likeX 1).containsUnbound = false := rfl
    have hb₂ : (likeX 2).containsUnbound = false := rfl
    have hg := set_then_get hv hx₁ hx₂ (.int 2)
    simpa [Assoc.lookup, Assoc.insert, Assoc.set, Assoc.replace, Assoc.get?, bindings_frameOfX,
      KeyLaw.fits, viewLaw, fits_likeX, hb₁, hb₂] using hg
  · have hb : notANumber.containsUnbound = false := rfl
    have hg := set_then_get hv hn hn (.int 2)
    simpa [Assoc.lookup, Assoc.insert, Assoc.set, Assoc.get?, bindings_frameOfX, KeyLaw.fits,
      viewLaw, fits_notANumber.1, fits_notANumber.2, hb] using hg

end Storage

end Resumable
