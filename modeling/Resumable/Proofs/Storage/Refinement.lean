import Resumable.Proofs.Storage.Keys
import Resumable.Proofs.Value.Canonical

/-!
# Maps as association lists

A storage that starts empty, used with keys that run no code, is a list of pairs that is searched
for an identical or equal key. No two of its keys match, so it does not matter in which order a
search is shown the places of its hash, and the hashes decide nothing.
-/

namespace Resumable.Storage

variable {o : Objects} {key : Value}

def PlainKey (o : Objects) (key : Value) : Prop := key.mayRunCode = false ∧ key.In o

/-- The keys of an operation are plain, and a hash that is given is the key's. -/
def Op.Plain {α : Type} (o : Objects) (op : Op α) : Prop :=
  op.Uses (PlainKey o) Value.plainHash

def Distinct (l : List (Value × Value)) : Prop :=
  (l.map (·.1)).Pairwise fun a b => a.sameKey b = false

-- ---------------------------------------------------------------------------
-- Lists
-- ---------------------------------------------------------------------------

theorem fits_plain {stored : Value} (hk : PlainKey o key) (hs : PlainKey o stored) :
    Map.fits Value.plainHash key.plainEquals key stored = key.sameKey stored := by
  rw [Map.fits, Value.sameKey, Value.identical_comm key stored]
  cases h : stored.identical key || key.plainEquals stored with
  | false => simp
  | true =>
    have hm : key.sameKey stored = true := by
      rw [Value.sameKey, Value.identical_comm key stored, h]
    simp [Value.plainHash_of_sameKey hk.2 hs.2 hm]

section

variable {l : List (Value × Value)} (hl : Distinct l) (hp : ∀ pair ∈ l, PlainKey o pair.1)
include hl hp

theorem distinct_set (hk : PlainKey o key) (v : Value) :
    Distinct (Assoc.set key.sameKey key v l) := by
  rw [Assoc.set]
  split
  · rw [Distinct, Assoc.keys_replace]
    exact hl
  · next hn =>
    have hnone : Assoc.get? key.sameKey l = none := by simpa using hn
    rw [Distinct, List.map_append, List.pairwise_append]
    refine ⟨hl, List.pairwise_singleton _ _, ?_⟩
    intro a ha b hb
    obtain ⟨pair, hpair, rfl⟩ := List.mem_map.mp ha
    obtain rfl : b = key := by simpa using hb
    rw [Value.sameKey_comm (hp pair hpair).2 hk.2]
    exact Assoc.get?_eq_none.mp hnone pair hpair

theorem fits_once (hk : PlainKey o key) :
    l.Pairwise fun p q => key.sameKey p.1 = true → key.sameKey q.1 = false := by
  refine List.Pairwise.imp_of_mem ?_ (List.pairwise_map.mp hl)
  intro p q hpm hqm hpq hkp
  have hpk := (Value.sameKey_iff hk.2 (hp p hpm).2).mp hkp
  by_contra hkq
  have hqk := (Value.sameKey_iff hk.2 (hp q hqm).2).mp (by simpa using hkq)
  rw [(Value.sameKey_iff (hp p hpm).2 (hp q hqm).2).mpr (hpk.symm.trans hqk)] at hpq
  cases hpq

theorem set_after_erase (hk : PlainKey o key) (v : Value) :
    Assoc.set key.sameKey key v (Assoc.erase key.sameKey l) =
      Assoc.erase key.sameKey l ++ [(key, v)] := by
  rw [Assoc.set, Assoc.get?_erase (fits_once hl hp hk)]
  rfl

end

theorem distinct_erase {l : List (Value × Value)} (hl : Distinct l) (fits : Value → Bool) :
    Distinct (Assoc.erase fits l) :=
  List.Pairwise.sublist (Assoc.erase_sublist l |>.map _) hl

theorem distinct_perform {α : Type} {op : Op α} {l : List (Value × Value)} (hl : Distinct l)
    (hp : ∀ pair ∈ l, PlainKey o pair.1) (hop : op.Plain o) :
    Distinct (Assoc.perform Value.sameKey op l).2 := by
  cases op with
  | set key v =>
    simp only [Assoc.perform, Assoc.insert]
    split
    · exact hl
    · exact distinct_set hl hp hop v
  | pop key =>
    simp only [Assoc.perform, Assoc.remove]
    split
    · exact hl
    · exact distinct_erase hl _
  | clear => simp [Assoc.perform, Distinct]
  | get | getText | keys | forEach | len | copy | markRunsCode => exact hl

-- ---------------------------------------------------------------------------
-- Maps
-- ---------------------------------------------------------------------------

section

variable {m : Type → Type} [Monad m] [LawfulMonad m]

def plainLaw (h : Hooks (StateT Setting m)) (o : Objects) : KeyLaw h where
  good := PlainKey o
  hash := Value.plainHash
  equals := Value.plainEquals
  hash_good _ hk := Value.hash_plain h hk.1
  equals_good _ _ ha hb := Value.equals_plain h ha.1 hb.1
  hash_text _ := rfl
  equals_text _ _ := rfl

variable {h : Hooks (StateT Setting m)} {map : Map} {α : Type}

theorem perform_plain {op : Op α} {l : List (Value × Value)}
    (hp : ∀ pair ∈ l, PlainKey o pair.1) (hop : op.Plain o) :
    Assoc.perform (plainLaw h o).fits op l = Assoc.perform Value.sameKey op l := by
  have hf : ∀ {key : Value}, PlainKey o key →
      ∀ pair ∈ l, (plainLaw h o).fits key pair.1 = key.sameKey pair.1 :=
    fun hk pair hpair => fits_plain hk (hp pair hpair)
  cases op with
  | set key v =>
    simp only [Assoc.perform, Assoc.lookup, Assoc.insert, Assoc.get?_congr (hf hop),
      Assoc.set_congr key v (hf hop)]
  | get key hash? => simp only [Assoc.perform, Assoc.lookup, Assoc.get?_congr (hf hop.1)]
  | getText key =>
    have hk : PlainKey o (.text key) := hop
    simp only [Assoc.perform, Assoc.lookup, Assoc.get?_congr (hf hk)]
  | pop key =>
    simp only [Assoc.perform, Assoc.lookup, Assoc.remove, Assoc.get?_congr (hf hop),
      Assoc.erase_congr (hf hop)]
  | clear | keys | forEach | len | copy | markRunsCode => rfl

structure Listed (h : Hooks (StateT Setting m)) (o : Objects) (map : Map) : Prop where
  holds : (plainLaw h o).Holds map
  distinct : Distinct map.pairs

theorem perform_listed {op : Op α} (hm : Listed h o map) (hop : op.Plain o) (mem : Memory)
    (lookups : List Bool) :
    ∃ map' later, (perform h op).run ⟨mem, .map map, lookups⟩ =
        pure ((Assoc.perform Value.sameKey op map.pairs).1, ⟨mem, .map map', later⟩) ∧
      Listed h o map' ∧ map'.pairs = (Assoc.perform Value.sameKey op map.pairs).2 := by
  obtain ⟨map', later, hrun, hm', hp⟩ := KeyLaw.perform_holds hm.holds hop mem lookups
  rw [perform_plain hm.holds.good hop] at hrun hp
  refine ⟨map', later, hrun, ⟨hm', ?_⟩, hp⟩
  rw [hp]
  exact distinct_perform hm.distinct hm.holds.good hop

theorem performAll_listed {ops : List (Op α)} (hops : ∀ op ∈ ops, op.Plain o)
    (hm : Listed h o map) (mem : Memory) (lookups : List Bool) :
    ∃ map' later, (performAll h ops).run ⟨mem, .map map, lookups⟩ =
        pure ((Assoc.performAll Value.sameKey ops map.pairs).1, ⟨mem, .map map', later⟩) ∧
      Listed h o map' ∧ map'.pairs = (Assoc.performAll Value.sameKey ops map.pairs).2 := by
  induction ops generalizing map lookups with
  | nil => exact ⟨map, lookups, rfl, hm, rfl⟩
  | cons op ops ih =>
    obtain ⟨map₁, later₁, hop, hm₁, hp₁⟩ := perform_listed hm (hops op (by simp)) mem lookups
    obtain ⟨map₂, later₂, hrest, hm₂, hp₂⟩ :=
      ih (fun other hother => hops other (by simp [hother])) hm₁ later₁
    rw [hp₁] at hrest hp₂
    refine ⟨map₂, later₂, ?_, hm₂, hp₂⟩
    simp only [performAll, StateT.run_bind, hop, hrest, pure_bind]
    rfl

/-- A search may be shown the places of its hash in any order, among any others. -/
theorem search_any_order (hm : Listed h o map) (hk : PlainKey o key) {places : List Nat}
    (hp : map.Shows key.plainHash places) :
    map.search (surroundings h).keys key key.plainHash places =
      pure (map.pairs.findIdx? fun pair => key.sameKey pair.1) := by
  have he : ∀ e ∈ map.entries.toList,
      (surroundings h).keys.equals key e.key = pure (key.plainEquals e.key) := fun e hmem =>
    KeyLaw.equals_stored hm.holds hk e.key (List.mem_map_of_mem hmem)
  have hpair : ∀ {place : Nat} {e : Entry}, map.entries[place]? = some e →
      map.pairs[place]? = some (e.key, e.value) := fun hplace => by simp [Map.pairs, hplace]
  have hfits : ∀ {place : Nat} {e : Entry}, map.entries[place]? = some e →
      (e.hash == key.plainHash && (e.key.identical key || key.plainEquals e.key)) =
        key.sameKey e.key := fun {place e} hplace => by
    rw [← fits_plain hk (hm.holds.good _ (List.mem_of_getElem? (hpair hplace))), Map.fits,
      hm.holds.filed.hashed e (Array.mem_toList_iff.mpr (Array.mem_of_getElem? hplace))]
    rfl
  have hany : ∀ place : Nat, (map.entries.toList[place]?.any fun e => e.hash == key.plainHash &&
      (e.key.identical key || key.plainEquals e.key)) =
        map.pairs[place]?.any fun pair => key.sameKey pair.1 := fun place => by
    rw [Array.getElem?_toList]
    cases hplace : map.entries[place]? with
    | none => simp [Map.pairs, hplace]
    | some e => rw [hpair hplace, Option.any_some, Option.any_some, hfits hplace]
  rw [Map.search_pure he]
  simp only [hany]
  refine congrArg pure (Map.find?_any_order (fun place pair hx hsame => ?_)
    (fits_once hm.distinct hm.holds.good hk))
  cases hplace : map.entries[place]? with
  | none => simp [Map.pairs, hplace] at hx
  | some e =>
    rw [hpair hplace, Option.some.injEq] at hx
    subst hx
    have hhash := hfits hplace
    rw [hsame] at hhash
    have hhash : e.hash = key.plainHash := by simpa using (Bool.and_eq_true_iff.mp hhash).1
    have hcount := hp.once place e hplace hhash
    exact List.count_pos_iff.mp (by omega)

/-- A storage that starts empty is an association list: with plain keys every run gives the answers
of the list and ends with its pairs. -/
theorem refines_association_list (h : Hooks (StateT Setting m)) (o : Objects)
    (ops : List (Op α)) (hops : ∀ op ∈ ops, op.Plain o) (mem : Memory) (lookups : List Bool) :
    ∃ map later,
      (performAll h ops).run ⟨mem, .empty, lookups⟩ =
        pure ((Assoc.performAll Value.sameKey ops []).1, ⟨mem, .map map, later⟩) ∧
      map.pairs = (Assoc.performAll Value.sameKey ops []).2 ∧
      (map.keys.Pairwise fun a b => a.sameKey b = false ∧ b.sameKey a = false) ∧
      (∀ key places, PlainKey o key → map.Shows key.plainHash places →
        map.search (surroundings h).keys key key.plainHash places =
          pure (map.pairs.findIdx? fun pair => key.sameKey pair.1)) ∧
      (∀ key v, PlainKey o key →
        Assoc.set key.sameKey key v (Assoc.erase key.sameKey map.pairs) =
          Assoc.erase key.sameKey map.pairs ++ [(key, v)]) ∧
      (∀ {β : Type} (f : β → Value → Value → ExceptT Failure (StateT Setting m) β) (start : β),
        forEach (surroundings h) (.map map) f start = foldPairs f map.pairs start) ∧
      (∀ a b : Value, a.mayRunCode = false → b.mayRunCode = false →
        a.equals h b = pure (a.plainEquals b)) ∧
      (∀ v : Value, v.mayRunCode = false →
        v.hash h = if v.containsUnbound then throw Value.unboundFailure else pure v.plainHash) := by
  have hempty : Listed h o .empty := ⟨KeyLaw.holds_empty, by simp [Distinct]⟩
  obtain ⟨map, later, hrun, hm, hp⟩ := performAll_listed hops hempty mem lookups
  have hplain : ∀ k ∈ map.keys, PlainKey o k := by
    intro k hk
    rw [← Map.keys_eq] at hk
    obtain ⟨pair, hpair, rfl⟩ := List.mem_map.mp hk
    exact hm.holds.good pair hpair
  refine ⟨map, later, hrun, hp, ?_, ?_, ?_, ?_, ?_, ?_⟩
  · have hd := hm.distinct
    rw [Distinct, Map.keys_eq] at hd
    refine List.Pairwise.imp_of_mem (fun ha hb hab => ⟨hab, ?_⟩) hd
    rw [Value.sameKey_comm (hplain _ hb).2 (hplain _ ha).2]
    exact hab
  · exact fun key places hk hshows => search_any_order hm hk hshows
  · exact fun key v hk => set_after_erase hm.distinct hm.holds.good hk v
  · exact fun f start => rfl
  · exact fun a b ha hb => Value.equals_plain h ha hb
  · exact fun v hv => Value.hash_plain h hv

end

theorem refines_association_list_tuples :
    ∃ map later,
      (performAll (α := Nat) (m := Id) .unused
        [.set (.tuple 0 [.int 1]) (.int 10), .set (.tuple 1 [.bool true]) (.int 20),
          .set (.tuple 2 [.unbound]) .none, .len, .pop (.tuple 1 [.bool true]), .len]).run
        ⟨.empty, .empty, []⟩ =
      pure ([.value (.ok none), .value (.ok (some (.int 10))),
        .value (.error Value.unboundFailure), .number 1, .value (.ok (some (.int 20))), .number 0],
        ⟨.empty, .map map, later⟩) ∧
      map.pairs = [] := by
  obtain ⟨map, later, hrun, hp, -⟩ :=
    refines_association_list (m := Id) (α := Nat) .unused
      ⟨fun _ => "", fun id => if id = 0 then [.int 1] else if id = 1 then [.bool true] else [.unbound]⟩
      [.set (.tuple 0 [.int 1]) (.int 10), .set (.tuple 1 [.bool true]) (.int 20),
        .set (.tuple 2 [.unbound]) .none, .len, .pop (.tuple 1 [.bool true]), .len]
      (by simp [Op.Plain, Op.Uses, PlainKey, Value.In, Value.AllIn, Value.mayRunCode,
        Value.anyMayRunCode])
      .empty []
  exact ⟨map, later, hrun, hp⟩

end Resumable.Storage
