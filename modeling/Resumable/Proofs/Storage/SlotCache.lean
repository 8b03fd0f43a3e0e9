import Resumable.Proofs.Run.Tracking
import Resumable.Proofs.Storage.Hosted
import Resumable.Proofs.Storage.Snapshot

/-!
# The slot cache

A view remembers the slots of the first name objects that were looked up in it. A look-up finds
what a scan of the names finds at that moment, whatever has been done to the variables since the
slot was remembered, and whether the cache knew the name depends on the name objects alone.
-/

namespace Resumable

variable {σ : Type}

-- ---------------------------------------------------------------------------
-- Layouts
-- ---------------------------------------------------------------------------

namespace World

variable {w w' : World σ} {f : Ref .frame}

theorem layout_edit (x : Edit) (c : Ref .context) (w : World σ) (f : Ref .frame) :
    (x.apply c w).memory.layout f = w.memory.layout f := by
  cases x with
  | store g index v => exact Memory.layout_write w.memory (.store g index v) f
  | storeRaw g index v => exact Memory.layout_write w.memory (.storeRaw g index v) f
  | clear g index => exact Memory.layout_write w.memory (.clear g index) f
  | _ => rfl

theorem Trail.layout_eq (h : w.Trail P Q own w') (hf : w.memory.frames.Valid f) :
    w'.memory.layout f = w.memory.layout f := by
  induction h with
  | refl => rfl
  | trans h _ ih ih' => exact (ih' (h.grown.frames f hf)).trans (ih hf)
  | step h => exact congrArg Frame.layout (h.frame_eq hf)
  | edit c _ => exact layout_edit _ c _ f
  | chained | wrapped => rfl
  | seen | activity =>
    unfold setActivity
    split <;> rfl
  | within x _ ih => exact ih hf

end World

-- ---------------------------------------------------------------------------
-- The first names
-- ---------------------------------------------------------------------------

namespace Locals

/-- The first three different name objects of those that were looked up. -/
def firstNames (asked : List Identity) : List Identity := asked.eraseDups.take 3

theorem eraseDups_snoc (asked : List Identity) (id : Identity) :
    (asked ++ [id]).eraseDups =
      if id ∈ asked then asked.eraseDups else asked.eraseDups ++ [id] := by
  rw [List.eraseDups_append]
  by_cases h : id ∈ asked
  · simp [List.removeAll, h]
  · simp [List.removeAll, h, List.eraseDups_cons]

theorem firstNames_snoc (asked : List Identity) (id : Identity) :
    firstNames (asked ++ [id]) =
      if id ∈ firstNames asked ∨ ¬ (firstNames asked).length < 3 then firstNames asked
      else firstNames asked ++ [id] := by
  simp only [firstNames, eraseDups_snoc, List.length_take]
  by_cases hroom : asked.eraseDups.length < 3
  · have htake : asked.eraseDups.take 3 = asked.eraseDups :=
      List.take_of_length_le (Nat.le_of_lt hroom)
    by_cases h : id ∈ asked
    · simp [htake, h]
    · have hle : (asked.eraseDups ++ [id]).length ≤ 3 := by
        rw [List.length_append]
        exact hroom
      simp [htake, h, hroom, List.take_of_length_le hle]
  · have hfull : ¬ min 3 asked.eraseDups.length < 3 := by omega
    have htake : (asked.eraseDups ++ [id]).take 3 = asked.eraseDups.take 3 :=
      List.take_append_of_le_length (Nat.le_of_not_lt hroom)
    rw [if_pos (Or.inr hfull), apply_ite (List.take 3), htake, ite_self]

/-- A view remembers the slots of the first names that were looked up. An object is a name for good,
so `names` says what the characters of each are. -/
structure Recalls (names : Identity → String) (layout : FrameLayout) (asked : List Identity)
    (l : Locals) : Prop where
  first : l.cache.map (·.key.id) = firstNames asked
  sound : ∀ e ∈ l.cache, e.key.text = names e.key.id ∧ e.layout = layout.id ∧
    e.slot = layout.findVisible? (names e.key.id)

variable {names : Identity → String} {layout : FrameLayout} {asked : List Identity} {l : Locals}

theorem recalls_nil (names : Identity → String) (layout : FrameLayout) (h : l.cache = []) :
    l.Recalls names layout [] := ⟨by rw [h]; rfl, by simp [h]⟩

theorem Recalls.mem_firstNames (h : l.Recalls names layout asked) {id : Identity} :
    id ∈ firstNames asked ↔ ∃ e ∈ l.cache, e.key.id = id := by
  rw [← h.first, List.mem_map]

theorem Recalls.length_firstNames (h : l.Recalls names layout asked) :
    (firstNames asked).length = l.cache.length := by
  rw [← h.first, List.length_map]

theorem Recalls.keep (h : l.Recalls names layout asked) {id : Identity}
    (hid : id ∈ firstNames asked ∨ ¬ l.cache.length < 3) :
    l.Recalls names layout (asked ++ [id]) := by
  refine ⟨?_, h.sound⟩
  rw [firstNames_snoc, h.length_firstNames, if_pos hid, h.first]

theorem Recalls.push (h : l.Recalls names layout asked) {id : Identity}
    (hid : id ∉ firstNames asked) (hroom : l.cache.length < 3) :
    Recalls names layout (asked ++ [id]) { l with
      cache := l.cache ++ [⟨⟨id, names id⟩, layout.id, layout.findVisible? (names id)⟩] } := by
  refine ⟨?_, fun e he => ?_⟩
  · rw [firstNames_snoc, h.length_firstNames, if_neg (by simp [hid, hroom]), ← h.first,
      List.map_append]
    rfl
  · rw [List.mem_append, List.mem_singleton] at he
    obtain he | rfl := he
    · exact h.sound e he
    · exact ⟨rfl, rfl, rfl⟩

theorem Recalls.findSlot (h : l.Recalls names layout asked) (id : Identity) :
    ∃ l', l.findSlot layout ⟨id, names id⟩ =
        (layout.findVisible? (names id), decide (id ∈ firstNames asked), l') ∧
      l'.frame = l.frame ∧ l'.Recalls names layout (asked ++ [id]) := by
  unfold Locals.findSlot
  cases hc : l.cached? layout ⟨id, names id⟩ with
  | some e =>
    have he := List.mem_of_find?_eq_some hc
    have hsame := List.find?_some hc
    simp only [TextRef.same, Bool.and_eq_true, beq_iff_eq] at hsame
    have hmem : id ∈ firstNames asked := h.mem_firstNames.mpr ⟨e, he, hsame.1⟩
    refine ⟨l, ?_, rfl, h.keep (.inl hmem)⟩
    simp [(h.sound e he).2.2, hsame.1, hmem]
  | none =>
    have hmem : id ∉ firstNames asked := fun hm => by
      obtain ⟨e, he, hid⟩ := h.mem_firstNames.mp hm
      have hnot := List.find?_eq_none.mp hc e he
      simp [TextRef.same, hid, (h.sound e he).2.1] at hnot
    by_cases hroom : l.cache.length < 3
    · refine ⟨_, ?_, ?_, h.push hmem hroom⟩
      · simp [hmem, hroom, cacheLimit]
      · rfl
    · refine ⟨l, ?_, rfl, h.keep (.inr hroom)⟩
      simp [hmem, hroom, cacheLimit]

def remember (names : Identity → String) (layout : FrameLayout) (asked : List Identity)
    (l : Locals) : Locals :=
  asked.foldl (fun l id => (l.findSlot layout ⟨id, names id⟩).2.2) l

theorem Recalls.remember (h : l.Recalls names layout asked) (more : List Identity) :
    (l.remember names layout more).frame = l.frame ∧
      (l.remember names layout more).Recalls names layout (asked ++ more) := by
  induction more generalizing l asked with
  | nil => exact ⟨rfl, (List.append_nil asked).symm ▸ h⟩
  | cons id more ih =>
    obtain ⟨l', hfind, hframe, h'⟩ := h.findSlot id
    have hl' : (l.findSlot layout ⟨id, names id⟩).2.2 = l' := congrArg (·.2.2) hfind
    obtain ⟨hframe', hmore⟩ := ih h'
    rw [Locals.remember, List.foldl_cons, hl']
    rw [List.append_assoc] at hmore
    exact ⟨hframe'.trans hframe, hmore⟩

end Locals

-- ---------------------------------------------------------------------------
-- Look-ups among other things
-- ---------------------------------------------------------------------------

/-- What is done while a view is in use: a name object is looked up, as any key is or as a name, or
anything else is done that programs can do. -/
inductive ViewStep (σ : Type) where
  | item (key : Identity) (hash? : Option UInt64)
  | text (key : Identity)
  | other (p : Prog σ Unit)

namespace ViewStep

def asked (steps : List (ViewStep σ)) : List Identity :=
  steps.filterMap fun
    | .item key _ => some key
    | .text key => some key
    | .other _ => none

section

variable (names : Identity → String)

def lookUpAll : List (ViewStep σ) →
    StateT Storage (Prog σ) (List (Except Failure (Option Value)))
  | [] => return []
  | .item key hash? :: steps => do
    let found ← (Storage.getItem hosted.toSurroundings (.text ⟨key, names key⟩) hash?).run
    let rest ← lookUpAll steps
    return found :: rest
  | .text key :: steps => do
    let found ← (Storage.getText hosted.toSurroundings ⟨key, names key⟩).run
    let rest ← lookUpAll steps
    return found :: rest
  | .other p :: steps => do
    let _ ← liftM p
    lookUpAll steps

def scan (mem : Memory) (f : Ref .frame) (name : String) : Option Value :=
  ((mem.layout f).visibleSlots.find? (·.2.text == name)).bind fun slot => mem.load f slot.1

/-- Scans the names of the frame each time, and reports a hit for each of the first names objects
that was asked for before. -/
def scanAll (f : Ref .frame) : List (ViewStep σ) → List Identity →
    Prog σ (List (Except Failure (Option Value)))
  | [], _ => return []
  | .item key _ :: steps, asked | .text key :: steps, asked => do
    let mem ← Prog.memory
    Prog.edit (.emit (.lookup (key ∈ Locals.firstNames asked)))
    let rest ← scanAll f steps (asked ++ [key])
    return .ok (scan mem f (names key)) :: rest
  | .other p :: steps, asked => do
    let _ ← p
    scanAll f steps asked

end

variable {names : Identity → String} {asked : List Identity} {l : Locals} {w : World σ}

theorem lookUp_run (h : l.Recalls names (w.memory.layout l.frame) asked) (host : Host σ) (n : Nat)
    (c : Ref .context) (key : Identity) (hash? : Option UInt64) :
    ∃ l', l'.frame = l.frame ∧ l'.Recalls names (w.memory.layout l.frame) (asked ++ [key]) ∧
      l' = (l.findSlot (w.memory.layout l.frame) ⟨key, names key⟩).2.2 ∧
      let after := some (((.ok (scan w.memory l.frame (names key)), .locals l') :
          Except Failure (Option Value) × Storage),
        w.modifyContext c (·.emit (.lookup (key ∈ Locals.firstNames asked))))
      (host.run (n + 1) c ((Storage.getItem hosted.toSurroundings (.text ⟨key, names key⟩)
        hash?).run.run (.locals l))).run w = after ∧
      (host.run (n + 1) c ((Storage.getText hosted.toSurroundings
        ⟨key, names key⟩).run.run (.locals l))).run w = after := by
  obtain ⟨l', hfind, hframe, h'⟩ := h.findSlot key
  have hlookup : (host.run (n + 1) c ((Storage.lookupName (hosted (σ := σ)).toSurroundings l
      ⟨key, names key⟩).run.run (.locals l))).run w =
      some ((.ok (scan w.memory l.frame (names key)), .locals l'),
        w.modifyContext c (·.emit (.lookup (key ∈ Locals.firstNames asked)))) := by
    change some ((Except.ok ((l.findSlot (w.memory.layout l.frame) ⟨key, names key⟩).1.bind
      (w.memory.load l.frame)), Storage.locals
        (l.findSlot (w.memory.layout l.frame) ⟨key, names key⟩).2.2), w.modifyContext c
          (·.emit (.lookup (l.findSlot (w.memory.layout l.frame) ⟨key, names key⟩).2.1))) = _
    rw [hfind, FrameLayout.findVisible?_eq, Option.bind_map]
    rfl
  exact ⟨l', hframe, h', (congrArg (·.2.2) hfind).symm, hlookup, hlookup⟩

theorem cons_run {host : Host σ} {x : StateT Storage (Prog σ) (Except Failure (Option Value))}
    {r : Except Failure (Option Value)} {s t : Storage} {v : World σ}
    (hx : (host.run n c (x.run s)).run w = some ((r, t), v)) (steps : List (ViewStep σ)) :
    (host.run n c ((do
        let found ← x
        let rest ← lookUpAll names steps
        return found :: rest : StateT Storage (Prog σ) _).run s)).run w =
      ((host.run n c ((lookUpAll names steps).run t)).run v).map fun q =>
        ((r :: q.1.1, q.1.2), q.2) := by
  have hprog : (do
        let found ← x
        let rest ← lookUpAll names steps
        return found :: rest : StateT Storage (Prog σ) _).run s =
      (x.run s).bind fun p => ((lookUpAll names steps).run p.2).bind fun q =>
        .done (p.1 :: q.1, q.2) := rfl
  have hrun : ((x.run s).run (host.answer n) c).run w = some ((r, t), v) := hx
  simp only [hprog, Host.run, Prog.run_bind, StateT.run_bind, hrun]
  rw [Option.map_eq_bind]
  rfl

theorem scanAll_cons (host : Host σ) (n : Nat) (c : Ref .context) (f : Ref .frame)
    (key : Identity) (hash? : Option UInt64) (steps : List (ViewStep σ)) (asked : List Identity)
    (w : World σ) :
    (host.run (n + 1) c (scanAll names f (.item key hash? :: steps) asked)).run w =
      ((host.run (n + 1) c (scanAll names f steps (asked ++ [key]))).run
        (w.modifyContext c (·.emit (.lookup (key ∈ Locals.firstNames asked))))).map fun q =>
          (.ok (scan w.memory f (names key)) :: q.1, q.2) := by
  have hprog : scanAll names f (.item key hash? :: steps) asked = .ask (.look (·.memory)) fun mem =>
      .ask (.edit (.emit (.lookup (key ∈ Locals.firstNames asked)))) fun _ =>
        (scanAll names f steps (asked ++ [key])).bind fun rest =>
          .done (.ok (scan mem f (names key)) :: rest) := rfl
  rw [hprog, Option.map_eq_bind]
  change (host.run (n + 1) c (Prog.bind _ _)).run _ = _
  rw [Host.run, Prog.run_bind, StateT.run_bind]
  rfl

theorem lookUpAll_other (host : Host σ) (n : Nat) (c : Ref .context) (p : Prog σ Unit)
    (steps : List (ViewStep σ)) (s : Storage) (w : World σ) :
    (host.run n c ((lookUpAll names (.other p :: steps)).run s)).run w =
      ((host.run n c p).run w).bind fun r =>
        (host.run n c ((lookUpAll names steps).run s)).run r.2 := by
  have hprog : (lookUpAll names (.other p :: steps)).run s =
      p.bind fun _ => (lookUpAll names steps).run s :=
    Prog.bind_assoc p (fun a => .done (a, s)) fun r : Unit × Storage =>
      (lookUpAll names steps).run r.2
  rw [hprog, Host.run, Prog.run_bind, StateT.run_bind]
  rfl

theorem scanAll_other (host : Host σ) (n : Nat) (c : Ref .context) (f : Ref .frame)
    (p : Prog σ Unit) (steps : List (ViewStep σ)) (asked : List Identity) (w : World σ) :
    (host.run n c (scanAll names f (.other p :: steps) asked)).run w =
      ((host.run n c p).run w).bind fun r =>
        (host.run n c (scanAll names f steps asked)).run r.2 := by
  change (host.run n c (p.bind fun _ => scanAll names f steps asked)).run w = _
  rw [Host.run, Prog.run_bind, StateT.run_bind]
  rfl

theorem lookUpAll_run (host : Host σ) (n : Nat) (c : Ref .context) (steps : List (ViewStep σ))
    (hf : w.memory.frames.Valid l.frame)
    (h : l.Recalls names (w.memory.layout l.frame) asked) :
    (host.run n c ((lookUpAll names steps).run (.locals l))).run w =
      ((host.run n c (scanAll names l.frame steps asked)).run w).map fun r =>
        ((r.1, .locals (l.remember names (w.memory.layout l.frame) (ViewStep.asked steps))),
          r.2) := by
  induction steps generalizing l w asked with
  | nil => rfl
  | cons step steps ih =>
    have hname : ∀ key hash?,
        (host.run n c ((lookUpAll names (.item key hash? :: steps)).run (.locals l))).run w =
        ((host.run n c (scanAll names l.frame (.item key hash? :: steps) asked)).run w).map fun r =>
          ((r.1, .locals (l.remember names (w.memory.layout l.frame)
            (ViewStep.asked (.item key hash? :: steps)))), r.2) := fun key hash? => by
      cases n with
      | zero => rfl
      | succ n =>
        obtain ⟨l', hframe, h', hl', hitem, -⟩ := lookUp_run h host n c key hash?
        have hih := ih (l := l') (w := w.modifyContext c (·.emit
          (.lookup (key ∈ Locals.firstNames asked)))) (hframe ▸ hf) (by rw [hframe]; exact h')
        rw [scanAll_cons, Option.map_map]
        refine (cons_run hitem steps).trans ?_
        rw [hih, hframe, Option.map_map, hl']
        rfl
    cases step with
    | other p =>
      rw [lookUpAll_other, scanAll_other]
      cases hp : (host.run n c p).run w with
      | none => rfl
      | some r =>
        have htrail := (host.run_trails n c p w).2 _ _ hp
        have hlayout := htrail.layout_eq hf
        have hih := ih (w := r.2) (htrail.grown.frames _ hf) (hlayout ▸ h)
        rw [hlayout] at hih
        exact hih
    | item key hash? => exact hname key hash?
    | text key => exact hname key none

end ViewStep

/-- Look-ups of names in a view come to what scans of the frame come to, in the same results and
the same world, whatever is done in between: each is answered with what the first visible slot of
that name holds then. A hit is reported exactly for the first three name objects. -/
theorem slot_cache_transparent (host : Host σ) (n : Nat) (c : Ref .context)
    (names : Identity → String) (l : Locals) (hl : l.cache = []) (steps : List (ViewStep σ))
    (w : World σ) (hf : w.memory.frames.Valid l.frame) : ∃ l' : Locals,
    (host.run n c ((ViewStep.lookUpAll names steps).run (.locals l))).run w =
      ((host.run n c (ViewStep.scanAll names l.frame steps [])).run w).map (fun r =>
        ((r.1, .locals l'), r.2)) ∧
    l'.frame = l.frame ∧
    l'.cache.map (·.key.id) = (ViewStep.asked steps).eraseDups.take 3 := by
  have h := Locals.recalls_nil names (w.memory.layout l.frame) hl
  obtain ⟨hframe, hrecalls⟩ := h.remember (ViewStep.asked steps)
  exact ⟨_, ViewStep.lookUpAll_run host n c steps hf h, hframe, hrecalls.first⟩

theorem slot_cache_follows_store : ∃ l' w',
    (idleHost.run 1 ⟨0⟩ ((ViewStep.lookUpAll (fun _ => "x")
      [.text 1, .other (.edit (.store ⟨0⟩ 0 (.int 5))), .item 1 none, .text 2]).run
      (.locals (.ofFrame ⟨0⟩)))).run
        { World.initial () with memory := Storage.frameOfX .unbound } =
      some (([.ok none, .ok (some (.int 5)), .ok (some (.int 5))], .locals l'), w') ∧
    l'.cache.map (·.key.id) = [1, 2] := by
  obtain ⟨l', hrun, -, hcache⟩ := slot_cache_transparent idleHost 1 ⟨0⟩ (fun _ => "x")
    (.ofFrame ⟨0⟩) rfl
    [.text 1, .other (.edit (.store ⟨0⟩ 0 (.int 5))), .item 1 none, .text 2]
    { World.initial () with memory := Storage.frameOfX .unbound } (by decide)
  exact ⟨l', _, hrun, hcache⟩

end Resumable
