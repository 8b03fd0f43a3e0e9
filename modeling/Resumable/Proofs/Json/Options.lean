import Mathlib.Data.List.Basic
import Resumable.Options
import Resumable.Proofs.Json.Documents

/-!
# Options and their documents

Options are read back from the text they are written as. They are also read from any document whose
objects have some of their fields, in any order and among others: what a document leaves out is the
default, and a limit that is null is none.
-/

namespace Resumable

-- ---------------------------------------------------------------------------
-- Fields
-- ---------------------------------------------------------------------------

namespace Json

def presentFields (known : List (String × Option Json)) : List (Content × Json) :=
  known.filterMap fun (name, j?) => j?.map (some name, ·)

/-- Of the known names, an object has one field for each that has a value here and none for the
others. Its fields are in any order, and may be joined by fields of any other names. -/
def Comprises (known : List (String × Option Json)) (fields : List (Content × Json)) : Prop :=
  ∃ others : List (String × Json), (∀ f ∈ others, f.1 ∉ known.map Prod.fst) ∧
    fields.Perm (presentFields known ++ others.map fun (name, j) => (some name, j))

variable {known : List (String × Option Json)} {fields : List (Content × Json)}

theorem fieldsNamed_cons (name : String) (f : Content × Json) (fields : List (Content × Json)) :
    fieldsNamed name (f :: fields) =
      if f.1 = some name then f.2 :: fieldsNamed name fields else fieldsNamed name fields := by
  unfold fieldsNamed
  split <;> simp_all

theorem fieldsNamed_of_forall_ne (h : ∀ f ∈ fields, f.1 ≠ some name) :
    fieldsNamed name fields = [] := by
  induction fields with
  | nil => rfl
  | cons f fields ih =>
    obtain ⟨hf, hfields⟩ := List.forall_mem_cons.mp h
    rw [fieldsNamed_cons, if_neg hf, ih hfields]

theorem exists_of_mem_presentFields (h : f ∈ presentFields known) :
    ∃ name j, f = (some name, j) ∧ name ∈ known.map Prod.fst := by
  obtain ⟨⟨name, j?⟩, hm, hf⟩ := List.mem_filterMap.mp h
  obtain ⟨j, -, rfl⟩ := Option.map_eq_some_iff.mp hf
  exact ⟨name, j, rfl, List.mem_map.mpr ⟨_, hm, rfl⟩⟩

theorem fieldsNamed_presentFields (hn : (known.map Prod.fst).Nodup) (hm : (name, j?) ∈ known) :
    fieldsNamed name (presentFields known) = j?.toList := by
  induction known with
  | nil => cases hm
  | cons field known ih =>
    obtain ⟨other, k?⟩ := field
    obtain ⟨hother, hn⟩ := List.nodup_cons.mp hn
    have hcons : presentFields ((other, k?) :: known) =
        (k?.map fun k => (some other, k)).toList ++ presentFields known := by
      cases k? <;> rfl
    rcases List.mem_cons.mp hm with h | hm
    · cases h
      have hrest : fieldsNamed name (presentFields known) = [] := by
        refine fieldsNamed_of_forall_ne fun f hf he => ?_
        obtain ⟨_, _, rfl, hname⟩ := exists_of_mem_presentFields hf
        cases he
        exact hother hname
      rw [hcons]
      cases j? <;> simp [fieldsNamed_cons, hrest]
    · have hne : other ≠ name := fun h => hother (List.mem_map.mpr ⟨_, hm, h.symm⟩)
      rw [hcons, ← ih hn hm]
      cases k? <;> simp [fieldsNamed_cons, hne]

namespace Comprises

theorem namesReadable (h : Comprises known fields) : Options.namesReadable fields = true := by
  obtain ⟨others, -, hperm⟩ := h
  rw [Options.namesReadable, List.all_eq_true]
  intro f hf
  rcases List.mem_append.mp (hperm.mem_iff.mp hf) with hf | hf
  · obtain ⟨_, _, rfl, -⟩ := exists_of_mem_presentFields hf
    rfl
  · obtain ⟨_, -, rfl⟩ := List.mem_map.mp hf
    rfl

theorem fieldsNamed_eq (h : Comprises known fields) (hn : (known.map Prod.fst).Nodup)
    (hm : (name, j?) ∈ known) : fieldsNamed name fields = j?.toList := by
  obtain ⟨others, hothers, hperm⟩ := h
  have hnone : fieldsNamed name (others.map fun (name, j) => (some name, j)) = [] := by
    refine fieldsNamed_of_forall_ne fun f hf he => ?_
    obtain ⟨other, hother, rfl⟩ := List.mem_map.mp hf
    cases he
    exact hothers other hother (List.mem_map.mpr ⟨_, hm, rfl⟩)
  have hvalues : (fieldsNamed name fields).Perm j?.toList := by
    refine (hperm.filterMap _).trans ?_
    rw [List.filterMap_append]
    change (fieldsNamed name _ ++ fieldsNamed name _).Perm _
    rw [fieldsNamed_presentFields hn hm, hnone, List.append_nil]
  cases j? with
  | none => exact hvalues.eq_nil
  | some j => exact List.perm_singleton.mp hvalues

theorem onlyField_eq (h : Comprises known fields) (hn : (known.map Prod.fst).Nodup)
    (hm : (name, j?) ∈ known) : Options.onlyField name fields = some j? := by
  rw [Options.onlyField, h.fieldsNamed_eq hn hm]
  cases j? <;> rfl

end Comprises

end Json

-- ---------------------------------------------------------------------------
-- Options
-- ---------------------------------------------------------------------------

def Limits.Fits (l : Limits) : Prop :=
  (∀ n ∈ l.depth?, n < UInt64.size) ∧ ∀ n ∈ l.resumes?, n < UInt64.size

namespace Options

/-- Which fields a document of options has. -/
structure Present where
  limits : Bool
  depth : Bool
  resumes : Bool
  hostTraces : Bool

/-- The options with defaults in place of the fields that are not present. -/
def keeping (o : Options) (has : Present) : Options :=
  { limits :=
      if has.limits then
        { depth? := if has.depth then o.limits.depth? else Limits.standard.depth?
          resumes? := if has.resumes then o.limits.resumes? else Limits.standard.resumes? }
      else standard.limits
    hostTraces := if has.hostTraces then o.hostTraces else standard.hostTraces }

def LimitsIn (l : Limits) (has : Present) (doc : Json) : Prop :=
  ∃ fields, doc = .object fields ∧ Json.Comprises
    [("max_recursion_depth", if has.depth then some (.ofNat? l.depth?) else none),
      ("max_resumes", if has.resumes then some (.ofNat? l.resumes?) else none)] fields

def In (o : Options) (has : Present) (doc : Json) : Prop :=
  ∃ fields limits, doc = .object fields ∧ LimitsIn o.limits has limits ∧ Json.Comprises
    [("limits", if has.limits then some limits else none),
      ("host_backtraces", if has.hostTraces then some (.bool o.hostTraces) else none)] fields

theorem limitOfJson?_ofNat? {n? : Option Nat} (h : ∀ n ∈ n?, n < UInt64.size) :
    limitOfJson? (.ofNat? n?) = some n? := by
  cases n? with
  | none => rfl
  | some n => simp [Json.ofNat?, Json.ofNat, limitOfJson?, Json.natural?_repr, h n rfl]

theorem fieldOr_ite {α : Type} {read : Json → Option α} {a : α} (h : read j = some a) (default : α)
    (present : Bool) : fieldOr read default (if present then some j else none) =
      some (if present then a else default) := by
  cases present
  · rfl
  · exact h

theorem LimitsIn.read {l : Limits} (h : LimitsIn l has doc) (hl : l.Fits) :
    limitsOfJson? doc = some
      { depth? := if has.depth then l.depth? else Limits.standard.depth?
        resumes? := if has.resumes then l.resumes? else Limits.standard.resumes? } := by
  obtain ⟨fields, rfl, hfields⟩ := h
  have hdepth := hfields.onlyField_eq (by simp) (.head _)
  have hresumes := hfields.onlyField_eq (by simp) (.tail _ (.head _))
  simp [limitsOfJson?, hfields.namesReadable, hdepth, hresumes, limitsOfFields?,
    fieldOr_ite (limitOfJson?_ofNat? hl.1), fieldOr_ite (limitOfJson?_ofNat? hl.2)]

theorem In.read {o : Options} (h : o.In has doc) (hl : o.limits.Fits) :
    ofJson? doc = some (o.keeping has) := by
  obtain ⟨fields, limits, rfl, hlimits, hfields⟩ := h
  have hflag : flagOfJson? (.bool o.hostTraces) = some o.hostTraces := rfl
  have hlimits? := hfields.onlyField_eq (by simp) (.head _)
  have hflag? := hfields.onlyField_eq (by simp) (.tail _ (.head _))
  simp [ofJson?, hfields.namesReadable, hlimits?, hflag?, ofFields?, fieldOr_ite (hlimits.read hl),
    fieldOr_ite hflag, keeping]

theorem toJson_in (o : Options) : o.In ⟨true, true, true, true⟩ o.toJson :=
  ⟨_, limitsToJson o.limits, rfl, ⟨_, rfl, [], by simp, by rfl⟩, [], by simp, by rfl⟩

theorem printable_ofNat? (n? : Option Nat) : (Json.ofNat? n?).Printable := by
  cases n? with
  | none => exact .null
  | some n => exact Json.printable_ofNat n

theorem printable_record (h : ∀ f ∈ fs, f.2.Printable) : (Json.record fs).Printable := by
  refine .object (fun f hf => ?_) (fun f hf => ?_)
  · obtain ⟨_, -, rfl⟩ := List.mem_map.mp hf
    rfl
  · obtain ⟨f, hm, rfl⟩ := List.mem_map.mp hf
    exact h f hm

theorem printable_toJson (o : Options) : o.toJson.Printable := by
  refine printable_record (List.forall_mem_cons.mpr ⟨?_, by simp [Json.Printable.bool]⟩)
  exact printable_record (by simp [printable_ofNat?])

end Options

/-- Options come back from their text. From a text whose document has some of their fields, they
come back with defaults in place of the others; and every document has such a text. -/
theorem options_survive_json (o : Options) (h : o.limits.Fits) :
    Options.ofText? o.toText = some o ∧
    (∀ (has : Options.Present) (doc : Json) (text : String), o.In has doc →
      Json.ofText? text = some doc → Options.ofText? text = some (o.keeping has)) ∧
    ∀ doc : Json, doc.Printable → Json.ofText? doc.toText = some doc := by
  have hread (has : Options.Present) (doc : Json) (text : String) (hin : o.In has doc)
      (htext : Json.ofText? text = some doc) :
      Options.ofText? text = some (o.keeping has) := by
    rw [Options.ofText?, htext]
    exact hin.read h
  refine ⟨?_, hread, fun _ => Json.Printable.ofText?_toText⟩
  exact hread _ _ _ o.toJson_in o.printable_toJson.ofText?_toText

theorem options_of_reordered_text :
    let o : Options := ⟨⟨none, some 18446744073709551615⟩, true⟩
    let text := "\x7b \"x\": [1.5e3, \x7b\"limits\": 7\x7d], \"host_backtraces\": true, " ++
      "\"limits\": \x7b\"max_recursion_depth\": null\x7d \x7d"
    o.limits.Fits ∧ Options.ofText? o.toText = some o ∧
      Options.ofText? text = some ⟨⟨none, none⟩, true⟩ := by
  let limits : Json := .record [("max_recursion_depth", .null)]
  let unknown : Json := .array [.number "1.5e3", .record [("limits", .number "7")]]
  let doc : Json := .record [("x", unknown), ("host_backtraces", .bool true), ("limits", limits)]
  have hfits : Limits.Fits ⟨none, some 18446744073709551615⟩ := by
    simp [Limits.Fits, UInt64.size]
  have hseven : (Json.number "7").Printable := .number (by decide +kernel)
  have hfield : (Json.record [("limits", .number "7")]).Printable :=
    Options.printable_record (by simp [hseven])
  have hlarge : (Json.number "1.5e3").Printable := .number (by decide +kernel)
  have hunknown : unknown.Printable := .array (by simp [hlarge, hfield])
  have hlimits : limits.Printable := Options.printable_record (by simp [Json.Printable.null])
  have hdoc : doc.Printable :=
    Options.printable_record (by simp [hunknown, hlimits, Json.Printable.bool])
  obtain ⟨hself, hread, -⟩ := options_survive_json ⟨_, true⟩ hfits
  refine ⟨hfits, hself, hread ⟨true, true, false, true⟩ doc _ ?_
    (hdoc.ofText?_eq (by decide +kernel))⟩
  refine ⟨_, limits, rfl, ⟨_, rfl, [], by simp, by rfl⟩, [("x", unknown)], by simp, ?_⟩
  exact (List.reverse_perm _).symm

end Resumable
