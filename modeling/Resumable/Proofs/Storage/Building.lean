import Mathlib.Data.List.Induction
import Resumable.Proofs.Storage.Interchange
import Resumable.Script.Perform

/-!
# Building maps of names

A map of names comes from writing them into an empty map one after the other, from an ordered map
that has each name once, at the place of its first mention and with the value of its last one, or
from a frame whose slots carry them. The three find a name that is there by equality, not at all,
and by its characters. They make the same map, but for the objects of the names.
-/

namespace Resumable

open Map (textHash)
open Script.Eval (textPairs)

variable {σ : Type}

/-- The characters of names, with their values. -/
def contents (pairs : List (TextRef × Value)) : List (String × Value) :=
  pairs.map fun x => (x.1.text, x.2)

-- ---------------------------------------------------------------------------
-- Names with their last values
-- ---------------------------------------------------------------------------

section

variable (l : List (String × Value)) (name : String) (v : Value)

end

/-- Where each name has one pair, a name stands at its first place and no other. -/
theorem name_eq_iff {l : List (String × Value)} (hl : (l.map (·.1)).Nodup) {name : String}
    {place other : Nat} {x : String × Value} (hp : l.findIdx? (·.1 == name) = some place)
    (hx : l[other]? = some x) : x.1 = name ↔ place = other := by
  obtain ⟨hlt, hname, -⟩ := List.findIdx?_eq_some_iff_getElem.mp hp
  have hplace : l[place]? = some l[place] := List.getElem?_eq_getElem hlt
  have hname : l[place].1 = name := by simpa using hname
  constructor
  · intro h
    refine (List.getElem?_inj (by simpa using hlt) hl).mp ?_
    simp [hplace, hx, hname, h]
  · rintro rfl
    rw [hplace] at hx
    rw [← hname, Option.some.inj hx]

-- ---------------------------------------------------------------------------
-- Maps that list names
-- ---------------------------------------------------------------------------

/-- The entry of a name and its value, filed under the hash of the name. -/
structure Entry.Names (e : Entry) (x : String × Value) : Prop where
  key : e.key.asText = some x.1
  value : e.value = x.2
  hash : e.hash = Hash.ofText x.1

namespace Map

/-- The entries are those of the names, in order; none of the keys runs code. -/
structure Lists (m : Map) (l : List (String × Value)) : Prop where
  entry : ∀ place : Nat, Option.Rel Entry.Names m.entries[place]? l[place]?
  indexed : m.Indexed
  runsCode : m.runsCode = false

namespace Lists

variable {m : Map} {l : List (String × Value)} {t : TextRef}

theorem texts (h : m.Lists l) : m.pairs.map (·.1.asText) = l.map (some ·.1) := by
  apply List.ext_getElem?
  intro place
  simpa [pairs, Function.comp_def] using map_eq_of_rel (h.entry place) fun _ _ he => he.key

theorem size_eq (h : m.Lists l) : m.entries.size = l.length := by
  simpa [pairs] using congrArg List.length h.texts

theorem filed (h : m.Lists l) : m.Filed textHash := by
  refine ⟨h.indexed, fun e he => ?_⟩
  obtain ⟨place, hplace⟩ := List.mem_iff_getElem?.mp he
  rw [Array.getElem?_toList] at hplace
  have hentry := h.entry place
  rw [hplace] at hentry
  generalize l[place]? = x at hentry
  cases hentry with
  | some hx => simp [textHash, hx.key, hx.hash]

theorem findText?_eq (h : m.Lists l) (text : String) :
    m.findText? text = l.findIdx? (·.1 == text) := by
  have hpairs := congrArg (List.findIdx? (· == some text)) h.texts
  rw [List.findIdx?_map, List.findIdx?_map] at hpairs
  rw [h.filed.findText?]
  simpa [Function.comp_def] using hpairs

theorem append (h : m.Lists l) (t : TextRef) (v : Value) :
    (m.append ⟨.text t, v, Hash.ofText t.text⟩).Lists (l ++ [(t.text, v)]) := by
  refine ⟨fun place => ?_, h.indexed.append _, h.runsCode⟩
  simp only [Map.append, Array.getElem?_push, List.getElem?_append, h.size_eq]
  split
  · next hp =>
    subst hp
    simp only [Nat.lt_irrefl, if_false, Nat.sub_self]
    exact .some ⟨rfl, rfl, rfl⟩
  · next hp =>
    split
    · exact h.entry place
    · next hlt =>
      have hend : m.entries[place]? = none := Array.getElem?_eq_none (by rw [h.size_eq]; omega)
      have hend' : [(t.text, v)][place - l.length]? = none :=
        List.getElem?_eq_none (by simp; omega)
      rw [hend, hend']
      exact .none

theorem setText (h : m.Lists l) (hl : (l.map (·.1)).Nodup) (t : TextRef) (v : Value) :
    (m.setText t v).2.Lists
      (if l.any (·.1 == t.text) then l.map fun x => if x.1 == t.text then (x.1, v) else x
      else l ++ [(t.text, v)]) := by
  unfold Map.setText
  rw [h.findText?_eq]
  cases hp : l.findIdx? (·.1 == t.text) with
  | none =>
    have hnew : l.any (·.1 == t.text) = false := by simpa using hp
    rw [hnew]
    exact h.append t v
  | some place =>
    have hknown : l.any (·.1 == t.text) = true := by
      rw [← List.findIdx?_isSome, hp]
      rfl
    rw [hknown, if_pos rfl]
    refine ⟨fun other => ?_, h.indexed.replaceValue place v, h.runsCode⟩
    have hother := h.entry other
    have hname : ∀ x, l[other]? = some x → (x.1 = t.text ↔ place = other) := fun _ hx =>
      name_eq_iff hl hp hx
    simp only [Map.replaceValue, Array.getElem?_modify, List.getElem?_map]
    generalize m.entries[other]? = y, l[other]? = x at hother hname ⊢
    cases hother with
    | none => simp
    | @some e x he =>
      have hiff := hname x rfl
      by_cases heq : place = other
      · simp only [heq, hiff.mpr heq, if_true, Option.map_some, beq_self_eq_true]
        obtain ⟨hkey, -, hhash⟩ := he
        rw [hiff.mpr heq] at hkey hhash
        exact .some ⟨hkey, rfl, hhash⟩
      · simp only [heq, if_false, Option.map_some, beq_iff_eq, mt hiff.mp heq]
        exact .some he

end Lists

def setTexts (m : Map) (pairs : List (TextRef × Value)) : Map :=
  pairs.foldl (fun m x => (m.setText x.1 x.2).2) m

variable {m : Map} {o : Objects}

end Map

-- ---------------------------------------------------------------------------
-- Writing names one after the other
-- ---------------------------------------------------------------------------

namespace Map

theorem mem_keys {m : Map} {place : Nat} {e : Entry} (he : m.entries[place]? = some e) :
    e.key ∈ m.keys := List.mem_map_of_mem (Array.mem_toList_iff.mpr (Array.mem_of_getElem? he))

def TextsIn (o : Objects) (m : Map) : Prop := ∀ key ∈ m.keys, ∃ t, key = .text t ∧ key.In o

variable {m : Map} {o : Objects}

theorem TextsIn.setText (h : m.TextsIn o) {t : TextRef} (ht : (Value.text t).In o) (v : Value) :
    (m.setText t v).2.TextsIn o := by
  unfold Map.setText
  split
  · simpa only [TextsIn, keys_replaceValue] using h
  · intro key hkey
    rw [keys_append, List.mem_append, List.mem_singleton] at hkey
    obtain hkey | rfl := hkey
    · exact h key hkey
    · exact ⟨t, rfl, ht⟩

end Map

theorem Map.Filed.other_text {m : Map} (h : m.Filed textHash) {text : String} {place : Nat}
    (he : m.holder? (Hash.ofText text) place = none) :
    m.entries[place]?.any (·.key.asText == some text) = false := by
  cases hplace : m.entries[place]? with
  | none => rfl
  | some e =>
    have hhash : e.hash ≠ Hash.ofText text := by simpa [holder?, hplace] using he
    have hmem : e ∈ m.entries.toList := Array.mem_toList_iff.mpr (Array.mem_of_getElem? hplace)
    rw [h.hashed e hmem, textHash] at hhash
    rw [Option.any_some, beq_eq_false_iff_ne]
    exact fun htext => hhash (by rw [htext]; rfl)

def Storage.setTexts : List (TextRef × Value) → OnStorage σ PUnit
  | [] => return ⟨⟩
  | (t, v) :: rest => do
    let _ ← Storage.setItem hosted.toSurroundings (.text t) v
    Storage.setTexts rest

namespace Settles

variable {o : Objects} {m : Map} {l : List (String × Value)} {t : TextRef}

theorem search_text (hm : m.TextsIn o) (hf : m.Filed textHash) (ht : (Value.text t).In o)
    (c : Ref .context) (w : World σ) (s : Storage) (places : List Nat) :
    Settles c (m.search (hosted (σ := σ)).keys (.text t) (Hash.ofText t.text) places) w s
      (places.find? fun place => m.entries[place]?.any (·.key.asText == some t.text)) w s := by
  induction places with
  | nil =>
    rw [Map.search_nil]
    exact .pure none
  | cons place rest ih =>
    rw [List.find?_cons]
    cases he : m.holder? (Hash.ofText t.text) place with
    | none =>
      rw [Map.search_none he, hf.other_text he]
      exact ih
    | some e =>
      obtain ⟨hplace, -⟩ := Option.filter_eq_some_iff.mp he
      obtain ⟨u, hu, hin⟩ := hm e.key (Map.mem_keys hplace)
      have htexts : (e.key.asText == some t.text) = (t.text == u.text) := by
        simp [hu, Value.asText, Bool.beq_comm]
      rw [search_checks he, hplace, Option.any_some, htexts, hu]
      rw [hu] at hin
      refine bind (fun host n => checks_text host n c hin ht s w) ?_
      cases t.text == u.text with
      | true => exact pure (some place)
      | false => exact ih

theorem setItem_text (hm : m.TextsIn o) (hf : m.Filed textHash) (ht : (Value.text t).In o)
    (v : Value) (c : Ref .context) (w : World σ) :
    Settles c (Storage.setItem hosted.toSurroundings (.text t) v) w (.map m) (m.setText t v).1 w
      (.map (m.setText t v).2) := by
  have hfind : Settles c (m.find? (hosted (σ := σ)).keys (.text t) (Hash.ofText t.text)) w (.map m)
      (m.findText? t.text) w (.map m) := search_text hm hf ht c w _ _
  refine promote.bind ?_
  refine bind (b := (m.setText t v).1) (a := m.setText t v) (t := .map m) (v := w) ?_ ?_
  · refine (hash rfl rfl).bind (hfind.bind ?_)
    unfold Map.setText
    cases m.findText? t.text with
    | none => exact pure _
    | some place => exact pure _
  · exact setStorage.bind (pure _)

theorem setTexts (hm : m.TextsIn o) (hf : m.Filed textHash) (pairs : List (TextRef × Value))
    (hin : ∀ x ∈ pairs, (Value.text x.1).In o) (c : Ref .context) (w : World σ) :
    Settles c (Storage.setTexts pairs) w (.map m) ⟨⟩ w (.map (m.setTexts pairs)) := by
  induction pairs generalizing m with
  | nil => exact pure _
  | cons x pairs ih =>
    obtain ⟨hx, hin⟩ := List.forall_mem_cons.mp hin
    exact (setItem_text hm hf hx x.2 c w).bind (ih (hm.setText hx x.2) (hf.setText x.1 x.2).1 hin)

end Settles

-- ---------------------------------------------------------------------------
-- Frames that carry names
-- ---------------------------------------------------------------------------

/-- The slots of the frame are those of the names, all visible and bound without a cell. -/
structure Memory.Carries (mem : Memory) (f : Ref .frame) (pairs : List (TextRef × Value)) :
    Prop where
  names : (mem.layout f).slots = pairs.map fun x => .named x.1
  values : (mem.frame f).slots.toList = pairs.map (·.2)
  visible : ∀ x ∈ pairs, SlotName.isTemporary x.1.text = false
  bound : ∀ x ∈ pairs, x.2 ≠ .unbound ∧ ∀ r, x.2 ≠ .cell r

namespace Memory.Carries

variable {mem : Memory} {f : Ref .frame} {pairs : List (TextRef × Value)}

theorem load (h : mem.Carries f pairs) {index : Nat} {x : TextRef × Value}
    (hx : pairs[index]? = some x) : mem.load f index = some x.2 := by
  have hraw : mem.loadRaw f index = x.2 := by
    have hslot : (mem.frame f).slots[index]? = some x.2 := by
      rw [← Array.getElem?_toList, h.values, List.getElem?_map, hx]
      rfl
    simp [loadRaw, Frame.slot, Array.getD_eq_getD_getElem?, hslot]
  obtain ⟨hbound, hcell⟩ := h.bound x (List.mem_of_getElem? hx)
  rw [Memory.load, hraw]
  cases hv : x.2 with
  | unbound => exact absurd hv hbound
  | cell r => exact absurd hv (hcell r)
  | _ => rfl

end Memory.Carries

-- ---------------------------------------------------------------------------
-- Maps of the same names
-- ---------------------------------------------------------------------------

namespace Map

variable {host : Host σ} {o : Objects} {m m' : Map} {l : List (String × Value)}

end Map

end Resumable
