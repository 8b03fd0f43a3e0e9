import Mathlib.Data.List.Find
import Resumable.Proofs.Storage.Keys
import Resumable.Proofs.Value.Canonical

/-!
# Look-ups in views

A view of a frame answers as the list of its bindings does: a look-up through the cache and a scan
of the names find the same variable, if a key is equal to one visible name at most. The slot cache
is sound as long as the layout of the frame stays, which it always does.
-/

namespace Resumable

universe u

namespace FrameLayout

def visibleFrom (start : Nat) (slots : List SlotName) : List (Nat × TextRef) :=
  (slots.zipIdx start).filterMap fun (s, index) => s.visible?.map (index, ·)

theorem visibleFrom_cons (start : Nat) (s : SlotName) (slots : List SlotName) :
    visibleFrom start (s :: slots) =
      (s.visible?.map (start, ·)).toList ++ visibleFrom (start + 1) slots := by
  rw [visibleFrom, List.zipIdx_cons, List.filterMap_cons]
  dsimp only
  cases s.visible? with
  | none => rfl
  | some name => rfl

theorem findIdx?_visible (start : Nat) (slots : List SlotName) (text : String) :
    (slots.findIdx? fun s => s.visible?.any (·.text == text)).map (start + ·) =
      ((visibleFrom start slots).find? fun s => s.2.text == text).map (·.1) := by
  induction slots generalizing start with
  | nil => rfl
  | cons s slots ih =>
    have hshift : ((slots.findIdx? fun s => s.visible?.any (·.text == text)).map (· + 1)).map
        (start + ·) =
        (slots.findIdx? fun s => s.visible?.any (·.text == text)).map (start + 1 + ·) := by
      rw [Option.map_map]
      refine congrArg (Option.map · _) (funext fun i => ?_)
      simp only [Function.comp_apply]
      omega
    rw [List.findIdx?_cons, visibleFrom_cons]
    cases s.visible? with
    | none => simpa [hshift] using ih (start + 1)
    | some name =>
      by_cases ht : name.text = text
      · simp [ht]
      · simpa [ht, hshift] using ih (start + 1)

theorem findVisible?_eq (l : FrameLayout) (text : String) :
    l.findVisible? text = (l.visibleSlots.find? fun s => s.2.text == text).map (·.1) := by
  have h := findIdx?_visible 0 l.slots text
  rw [show visibleFrom 0 l.slots = l.visibleSlots from rfl] at h
  simpa [findVisible?] using h

def Distinct (l : FrameLayout) : Prop := (l.visibleSlots.map (·.2.text)).Nodup

def In (o : Objects) (l : FrameLayout) : Prop := ∀ s ∈ l.visibleSlots, (Value.text s.2).In o

end FrameLayout

namespace Storage

variable {mem : Memory} {f : Ref .frame} {fits : Value → Bool}

def bindings (mem : Memory) (f : Ref .frame) : List (Value × Value) :=
  (mem.bindings f).map fun (name, v) => (.text name, v)

theorem get?_bindings
    (h : (mem.layout f).visibleSlots.Pairwise fun s t =>
      fits (.text s.2) = true → fits (.text t.2) = false) :
    Assoc.get? fits (bindings mem f) =
      ((mem.layout f).visibleSlots.find? fun s => fits (.text s.2)).bind
        fun s => mem.load f s.1 := by
  rw [bindings, Memory.bindings]
  generalize (mem.layout f).visibleSlots = slots at h ⊢
  induction slots with
  | nil => rfl
  | cons s slots ih =>
    obtain ⟨hs, hr⟩ := List.pairwise_cons.mp h
    obtain ⟨index, name⟩ := s
    have ih := ih hr
    rw [List.filterMap_cons, List.find?_cons]
    by_cases hf : fits (.text name) = true
    · have hnone : slots.find? (fun s => fits (.text s.2)) = none := by
        rw [List.find?_eq_none]
        intro t ht
        simp [hs t ht hf]
      cases hl : mem.load f index with
      | none =>
        rw [hnone] at ih
        simpa [hl, hf] using ih
      | some v => simp [hl, hf, Assoc.get?]
    · cases hl : mem.load f index with
      | none => simpa [hl, hf] using ih
      | some v => simpa [hl, hf, Assoc.get?] using ih

-- ---------------------------------------------------------------------------
-- Look-ups
-- ---------------------------------------------------------------------------

/-- What the view remembers of names is what the layout says of them. -/
def SoundCache (o : Objects) (layout : FrameLayout) (l : Locals) : Prop :=
  ∀ c ∈ l.cache, (Value.text c.key).In o ∧
    (c.layout = layout.id → c.slot = layout.findVisible? c.key.text)

variable {o : Objects} {layout : FrameLayout} {l : Locals} {name : TextRef}

theorem soundCache_ofFrame (f : Ref .frame) : SoundCache o layout (.ofFrame f) :=
  fun c hc => by simp [Locals.ofFrame] at hc

theorem findSlot_sound (hl : SoundCache o layout l) (hn : (Value.text name).In o) :
    (l.findSlot layout name).1 = layout.findVisible? name.text ∧
      SoundCache o layout (l.findSlot layout name).2.2 ∧
      (l.findSlot layout name).2.2.frame = l.frame := by
  rw [Locals.findSlot]
  cases hc : l.cached? layout name with
  | some c =>
    have hmem := List.mem_of_find?_eq_some hc
    have hsame := List.find?_some hc
    simp only [TextRef.same, Bool.and_eq_true, beq_iff_eq] at hsame
    obtain ⟨hin, hslot⟩ := hl c hmem
    have ht : c.key.text = name.text := by
      have h₁ : c.key.text = o.text c.key.id := by simpa [Value.In] using hin
      have h₂ : name.text = o.text name.id := by simpa [Value.In] using hn
      rw [h₁, h₂, hsame.1]
    exact ⟨(hslot hsame.2).trans (by rw [ht]), hl, rfl⟩
  | none =>
    refine ⟨rfl, ?_, ?_⟩
    · dsimp only
      split
      · intro c hmem
        rw [List.mem_append, List.mem_singleton] at hmem
        obtain hmem | rfl := hmem
        · exact hl c hmem
        · exact ⟨hn, fun _ => rfl⟩
      · exact hl
    · dsimp only
      split
      · rfl
      · rfl

section

variable {m : Type → Type} [Monad m] [LawfulMonad m] {h : Hooks (StateT Setting m)}
  {law : KeyLaw h} {key : Value}

theorem lookupName_gives (l : Locals) (name : TextRef) :
    Gives (lookupName (surroundings h) l name) mem (.locals l)
      (.ok ((l.findSlot (mem.layout l.frame) name).1.bind (mem.load l.frame)))
      (.locals (l.findSlot (mem.layout l.frame) name).2.2) := by
  refine .bind (.memory h) ?_
  refine .bind (.set (.locals (l.findSlot (mem.layout l.frame) name).2.2)) ?_
  exact .bind (.noteLookup h _) (.pure _)

theorem searchNames_gives {s : Storage} (hash : UInt64) (slots : List (Nat × TextRef))
    (hk : law.good key) (hs : ∀ t ∈ slots, law.good (.text t.2)) :
    Gives (searchNames (surroundings h) f key hash slots) mem s
      (.ok ((slots.find? fun t =>
        Hash.ofText t.2.text == hash && law.equals key (.text t.2)).bind fun t => mem.load f t.1))
      s := by
  induction slots with
  | nil => exact .pure none
  | cons t slots ih =>
    obtain ⟨index, name⟩ := t
    have ih := ih fun u hu => hs u (by simp [hu])
    have he : (surroundings h).keys.equals key (.text name) = pure (law.equals key (.text name)) :=
      law.equals_good _ _ hk (hs (index, name) (by simp))
    rw [searchNames, List.find?_cons]
    dsimp only
    by_cases hh : Hash.ofText name.text = hash
    · have hp : (Hash.ofText name.text == hash && law.equals key (.text name)) =
          law.equals key (.text name) := by simp [hh]
      rw [hp, if_neg (by simp [hh]), he, pure_bind]
      cases law.equals key (.text name) with
      | true => exact .bind (.memory h) (.pure _)
      | false => exact ih
    · have hp : (Hash.ofText name.text == hash && law.equals key (.text name)) = false := by
        simp [hh]
      rw [hp, if_pos (by simpa using hh)]
      exact ih

omit [LawfulMonad m]

/-- The key is equal to one visible name at most. -/
def Once (equals : Value → Value → Bool) (layout : FrameLayout) (key : Value) : Prop :=
  layout.visibleSlots.Pairwise fun s t =>
    equals key (.text s.2) = true → equals key (.text t.2) = false

theorem fits_text {name other : TextRef} (hn : (Value.text name).In o)
    (hi : (Value.text other).In o) :
    law.fits (.text name) (.text other) = (other.text == name.text) := by
  have h₁ : name.text = o.text name.id := by simpa [Value.In] using hn
  have h₂ : other.text = o.text other.id := by simpa [Value.In] using hi
  rw [KeyLaw.fits, Map.fits, law.hash_text, law.hash_text, law.equals_text, Value.identical,
    TextRef.same, Bool.eq_iff_iff]
  by_cases ht : other.text = name.text
  · simp [ht]
  · have hid : other.id ≠ name.id := fun he => ht (by rw [h₁, h₂, he])
    simp [ht, Ne.symm ht, hid]

theorem fits_of_not_text {name : TextRef} (hk : ∀ t, key ≠ .text t) :
    law.fits key (.text name) =
      (Hash.ofText name.text == law.hash key && law.equals key (.text name)) := by
  have hi : (Value.text name).identical key = false := by
    cases key with
    | text t => exact absurd rfl (hk t)
    | _ => rfl
  rw [KeyLaw.fits, Map.fits, law.hash_text, hi, Bool.false_or]

theorem lookupKey_of_not_text {n : Type → Type u} [Monad n] [MonadStateOf Storage n]
    (s : Surroundings n) (l : Locals) (hash? : Option UInt64) (hk : ∀ t, key ≠ .text t) :
    lookupKey s l key hash? = (do
      let hash ← Map.hashOf s.keys key hash?
      let mem ← ExceptT.lift s.memory
      searchNames s l.frame key hash (mem.layout l.frame).visibleSlots) := by
  cases key with
  | text t => exact absurd rfl (hk t)
  | _ => rfl

/-- Visible names are different good keys, and a good key is equal to one of them at most. -/
structure SoundLayout (law : KeyLaw h) (o : Objects) (layout : FrameLayout) : Prop where
  distinct : layout.Distinct
  named : layout.In o
  good : ∀ s ∈ layout.visibleSlots, law.good (.text s.2)
  within : ∀ key, law.good key → key.In o
  once : ∀ key, law.good key → Once law.equals layout key

theorem find?_text (hv : SoundLayout law o layout) (hn : (Value.text name).In o) :
    (layout.visibleSlots.find? fun s => law.fits (.text name) (.text s.2)) =
      layout.visibleSlots.find? fun s => s.2.text == name.text :=
  List.find?_congr fun s hs => fits_text hn (hv.named s hs)

theorem once_text (hv : SoundLayout law o layout) (hn : (Value.text name).In o) :
    layout.visibleSlots.Pairwise fun s t =>
      law.fits (.text name) (.text s.2) = true → law.fits (.text name) (.text t.2) = false := by
  refine List.Pairwise.imp_of_mem ?_ (List.pairwise_map.mp hv.distinct)
  intro s t hs ht hne hfs
  rw [fits_text hn (hv.named s hs), beq_iff_eq] at hfs
  rw [fits_text hn (hv.named t ht), beq_eq_false_iff_ne, ← hfs]
  exact hne.symm

theorem once_key (ho : Once law.equals layout key) (hk : ∀ t, key ≠ .text t) :
    layout.visibleSlots.Pairwise fun s t =>
      law.fits key (.text s.2) = true → law.fits key (.text t.2) = false := by
  refine ho.imp fun {s t} hst hfs => ?_
  rw [fits_of_not_text hk, Bool.and_eq_true] at hfs
  rw [fits_of_not_text hk, hst hfs.2, Bool.and_false]

variable [LawfulMonad m]

/-- A look-up in a view is a look-up in the list of the bindings. -/
theorem lookupKey_gives (hv : SoundLayout law o (mem.layout l.frame))
    (hc : SoundCache o (mem.layout l.frame) l) (hk : law.good key) (hash? : Option UInt64)
    (hh : Given law.hash key hash?) :
    ∃ l', l'.frame = l.frame ∧ SoundCache o (mem.layout l.frame) l' ∧
      Gives (lookupKey (surroundings h) l key hash?) mem (.locals l)
        (Assoc.lookup law.fits key (bindings mem l.frame)) (.locals l') := by
  have hin := hv.within key hk
  by_cases ht : ∃ t, key = .text t
  · obtain ⟨name, rfl⟩ := ht
    obtain ⟨hslot, hcache, hframe⟩ := findSlot_sound hc hin
    refine ⟨_, hframe, hcache, ?_⟩
    have hx : Gives (lookupName (surroundings h) l name) mem _ _ _ := lookupName_gives l name
    rw [hslot, FrameLayout.findVisible?_eq, Option.bind_map] at hx
    have hb : Assoc.lookup law.fits (.text name) (bindings mem l.frame) = .ok _ :=
      congrArg Except.ok (get?_bindings (once_text hv hin))
    rw [hb, find?_text hv hin]
    exact hx
  · have ht := not_exists.mp ht
    refine ⟨l, rfl, hc, ?_⟩
    have hhash := KeyLaw.hashOf_given hk hh
    rw [lookupKey_of_not_text _ _ _ ht, Assoc.lookup, hhash]
    split
    · exact .fail (.throw _)
    · rw [pure_bind, get?_bindings (once_key (hv.once key hk) ht)]
      refine .bind (.memory h) ?_
      simp only [fits_of_not_text ht]
      exact searchNames_gives _ _ hk hv.good

end

end Storage

end Resumable
