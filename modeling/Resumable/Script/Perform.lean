import Resumable.Script.Session

/-!
# Operations of scripts

What each operation does with the values of its operands.
-/

namespace Resumable.Script

namespace Eval

/-- A place in a frame; a negative one is beyond every frame. -/
def place (n : Int) : Nat := if n < 0 then (n + UInt64.size).toNat else n.toNat

def operand (vs : List Value) (index : Nat) : Value := vs.getD index .none

def asGenerator : Value → Eval (Ref .generator)
  | .generator g => return g
  | _ => malformed "not a generator"

def asExc (v : Value) : Eval Exc := require "not an exception" v.asExc

def asCell : Value → Eval (Ref .cell)
  | .cell r => return r
  | _ => malformed "not a cell"

def asTextRef : Value → Eval TextRef
  | .text t => return t
  | _ => malformed "not a string"

def asTraceback : Value → Eval Traceback
  | .traceback t => return t
  | _ => malformed "not a traceback"

def number (v : Value) : Int64 := v.asInt.getD 0

def currentActivation : Eval Activation := do
  require "outside of a body" (← lift (.look (·.activation?)))

def newTuple (items : List Value) : Eval Value := return .tuple (← lift (.create .identity)) items

def nest : Nat → Value → Eval Value
  | 0, v => return v
  | n + 1, v => do nest n (← newTuple [v])

def newSlots : List SlotSpec → Prog Session (List SlotName)
  | [] => return []
  | .named s :: rest => do
    let t ← Prog.newText s
    return .named t :: (← newSlots rest)
  | .engine s :: rest => return .engine s :: (← newSlots rest)

def newLayout (slots : List SlotSpec) : Prog Session FrameLayout := do
  let slots ← newSlots slots
  return ⟨← .create .identity, slots⟩

def edit (e : Edit) : Eval Result := do
  lift (.edit e)
  return .none

def showStep (w : World Session) : Except Failure Value → Json
  | .ok v => Show.value w v
  | .error f => .record [("e", Show.failure w f)]

-- ---------------------------------------------------------------------------
-- Exceptions
-- ---------------------------------------------------------------------------

def linksOf (v : Value) : Eval Links := do
  let e ← asExc v
  lift (.look (·.linksOf e))

def traceback? : Value → Option Traceback
  | .traceback t => some t
  | _ => none

-- ---------------------------------------------------------------------------
-- Dictionaries
-- ---------------------------------------------------------------------------

abbrev surroundings : DictSurroundings OnDict := Action.surroundings (σ := Session)

def newDict (name : String) (s : Storage) : Eval Result := do
  modify (·.addDict name s)
  return .none

/-- Pairs of texts, one for each name, the last value given for a name at the place of its first
mention. -/
def textPairs (pairs : List (String × Value)) : List (String × Value) :=
  pairs.foldl (fun known (name, v) =>
    if known.any (·.1 == name)
    then known.map fun (other, w) => if other == name then (other, v) else (other, w)
    else known ++ [(name, v)]) []

def newTextPairs : List (String × Value) → Prog Session (List (TextRef × Value))
  | [] => return []
  | (name, v) :: rest => do
    let t ← Prog.newText name
    return (t, v) :: (← newTextPairs rest)

def takeKeys (mem : Memory) : List Bool → Storage.Cursor → List (Option Value)
  | [], _ => []
  | front :: rest, c =>
    let (key, c) := if front then c.next mem else c.nextBack mem
    key :: takeKeys mem rest c

def allKeys (mem : Memory) : Nat → Storage.Cursor → List Value
  | 0, _ => []
  | n + 1, c =>
    match c.next mem with
    | (some key, c) => key :: allKeys mem n c
    | (none, _) => []

def showPair (w : World Session) (pair : Value × Value) : Json :=
  .array [Show.value w pair.1, Show.value w pair.2]

/-- Collects pairs, and raises an exception at a pair beyond the first `n`. -/
def collect (n : Nat) (seen : List (Value × Value)) (key v : Value) :
    ExceptT Failure OnDict (List (Value × Value)) := do
  if seen.length ≥ n then
    let text ← ExceptT.lift (liftM (Prog.newText (σ := Session) "stop"))
    let e ← ExceptT.lift (surroundings.newExc .valueError [.text text])
    throw (.ofExc e)
  else return seen ++ [(key, v)]

def sizeInfo (name : String) : Eval (Nat × Nat) := do
  let n ← readDict name fun mem s => s.size mem
  let again ← readDict name fun mem s => s.size mem
  return (n, again)

def dictText (name : String) : Eval String := do
  let s ← storageNamed name
  lift (.look fun w => Storage.reprPairs w.lookup (s.pairs w.memory))

-- ---------------------------------------------------------------------------
-- Operations
-- ---------------------------------------------------------------------------

def perform (op : Op) (vs : List Value) : Eval Result :=
  let a := operand vs 0
  let b := operand vs 1
  match op with
  | .tuple => do value (← newTuple vs)
  | .nest n => do value (← nest n a)
  | .repeatText text n => do
    value (.text (← lift (Prog.newText (String.join (List.replicate n text)))))
  | .float x => value (.float x)
  | .excType t => value (.excType t)
  | .cls name => do value (.cls (← classNamed name).cls)
  | .inst name => do
    let c ← classNamed name
    value (.inst (← lift (.create .identity)) c.cls a)
  | .newExc t => do value (← lift (Prog.newExc t vs)).value
  | .call => do value (← ofAction (Action.call a vs.tail))
  | .cell => do value (.cell (← lift (.create (.cell vs.head?))))
  | .unbound => value .unbound
  | .equals => do bool (← ofAction (Action.equals a b))
  | .same => bool (a.identical b)
  | .hash => do return .report (Show.digits (← ofAction (Action.hash a)).toNat)
  | .hashAsInt => do value (.int (← ofAction (Action.hash a)).toInt64)
  | .payload => value (match a with | .inst _ _ payload => payload | _ => .none)
  | .describe => report fun w => Show.description w a
  | .add => value (.int (number a + number b))
  | .less => bool (number a < number b)
  | .not => bool (!a.isTrue)
  | .variable name => do value (← require ("no variable " ++ name) (← session).values[name]?)
  | .caught => do
    let f ← require "nothing is caught" (← session).caught.head?
    value ((f.exc?.map (·.value)).getD .none)
  | .raiseCaught => do fail (← require "nothing is caught" (← session).caught.head?)
  | .raise => do fail (.ofExc (← asExc a))
  | .raiseChained => do
    let e ← asExc a
    ofAction (Action.raiseChained e)
  | .internal message => fail (.internal message)
  | .hookCounts name => do
    let c ← classNamed name
    return .report (.record [("hash", .ofNat c.hashes), ("eq", .ofNat c.compares),
      ("ctor", .ofNat c.constructs)])
  | .context => do
    let c ← lift Prog.context
    report fun w => Show.context w c
  | .events => do
    let c ← lift Prog.context
    return .report (match c.tracer.events? with | some es => Show.events es | none => .null)
  | .report => do
    let c ← lift Prog.context
    return .report (match c.tracer.report? with | some r => Show.profile r | none => .null)
  | .excInfo => do
    let e ← asExc a
    report fun w => Show.excInfo w e
  | .excContext => do return .optional ((← linksOf a).context.map (·.value))
  | .excCause => do return .optional ((← linksOf a).cause.map (·.value))
  | .excTraceback => do return .optional ((← linksOf a).traceback.map .traceback)
  | .setContext => do edit (.context (← asExc a) b.asExc)
  | .setCause => do edit (.cause (← asExc a) b.asExc)
  | .setTraceback => do edit (.traceback (← asExc a) (traceback? b))
  | .isInstance => do bool ((← asExc a).isInstanceOf b)
  | .isCaughtBy t => do bool ((← asExc a).isCaughtBy t)
  | .isSubclass x y => do bool ((← classNamed x).cls.isSubclassOf (← classNamed y).cls)
  | .tracebackNext => do return .optional ((← asTraceback a).next?.map .traceback)
  | .tracebackInfo => do
    let t ← asTraceback a
    report fun w => Show.tracebackInfo w t
  | .take => do value (← ofAction Action.take)
  | .slot n => do
    let x ← currentActivation
    return .optional ((← lift Prog.memory).load x.arguments.frame (place n))
  | .storeSlot n => do edit (.store (← currentActivation).arguments.frame (place n) a)
  | .clearSlot n => do edit (.clear (← currentActivation).arguments.frame (place n))
  | .argument n => do return .optional (← currentActivation).arguments.values[place n]?
  | .arguments => do value (← newTuple (← currentActivation).arguments.values)
  | .resumePoint => do value (.int (Int64.ofInt (← currentActivation).resumePoint))
  | .caller => do
    let _ ← currentActivation
    value (((← lift (.request .caller)).map (·.value)).getD .none)
  | .activation => do
    let x ← currentActivation
    value (← newTuple [.bool x.arguments.payload.isSome, .bool x.arguments.caller.isSome])
  | .generator name => do
    let t ← targetNamed name
    value (.generator (← ofAction (Action.generator t vs)))
  | .next => do value (← ofAction (Action.next (← asGenerator a)))
  | .send => do value (← ofAction (Action.send (← asGenerator a) b))
  | .throw hasValue hasTraceback => do
    let g ← asGenerator a
    let given := vs.drop 2
    let v := if hasValue then some (operand given 0) else none
    let t := if hasTraceback then some (operand given (if hasValue then 1 else 0)) else none
    value (← ofAction (Action.throwInto g b v t))
  | .throwException => do
    let g ← asGenerator a
    value (← ofAction (Action.throwException g (← asExc b)))
  | .close => do
    ofAction (Action.close (← asGenerator a))
    return .none
  | .resume r => do
    let g ← asGenerator a
    let payload ← match r with
      | .next => pure none
      | .send => pure (some (Payload.send b))
      | .throw hostTrace => do pure (some (Payload.throw (← asExc b) hostTrace))
    let o ← ofAction (Action.resume g payload)
    report fun w => Show.outcome w o
  | .iterate n => do
    let g ← asGenerator a
    let i ← lift (Action.iterate g (fun step => Prog.look (showStep · step)) n)
    report fun w =>
      .record [("items", .array i.steps), ("return", Show.value? w i.returned)]
  | .generatorInfo => do
    let g ← asGenerator a
    report fun w => Show.generatorInfo w g
  | .generatorState => do
    let g ← asGenerator a
    let state ← lift (.look fun w => (w.generator g).state)
    value (.text (← lift (Prog.newText state.name)))
  | .delegate => do
    let g ← asGenerator a
    return .optional ((← lift (.look fun w => (w.generator g).delegate)).map .generator)
  | .setName => do
    ofAction (Action.setName (← asGenerator a) b)
    return .none
  | .setQualifiedName => do
    ofAction (Action.setQualifiedName (← asGenerator a) b)
    return .none
  | .setRunning => do
    ofAction (Action.setRunning (← asGenerator a) b)
    return .none
  | .code offsets => do
    let g ← asGenerator a
    report fun w => Show.code (w.generator g).code offsets
  | .newFrame name shape => do
    let layout ← match shape with
      | .slots slots => lift (newLayout slots)
      | .like other => do pure ((← lift Prog.memory).layout (← frameNamed other))
    let f ← lift (.create (.frame layout))
    modify (·.setFrame name f)
    return .none
  | .frameOf name => do
    let g ← asGenerator a
    let f ← lift (.look fun w => (w.generator g).frame)
    modify (·.setFrame name f)
    return .none
  | .load name n => do return .optional ((← lift Prog.memory).load (← frameNamed name) (place n))
  | .loadRaw name n => do value ((← lift Prog.memory).loadRaw (← frameNamed name) (place n))
  | .loadName frame name => do
    return .optional ((← lift Prog.memory).loadName (← frameNamed frame) name)
  | .store name n => do edit (.store (← frameNamed name) (place n) a)
  | .storeRaw name n => do edit (.storeRaw (← frameNamed name) (place n) a)
  | .storeName frame name => do
    let f ← frameNamed frame
    match ((← lift Prog.memory).layout f).find? name with
    | some index =>
      lift (.edit (.store f index a))
      bool true
    | none => bool false
  | .clear name n => do edit (.clear (← frameNamed name) (place n))
  | .sameFrame name other => do bool ((← frameNamed name) == (← frameNamed other))
  | .findName frame name => do
    let f ← frameNamed frame
    let layout := (← lift Prog.memory).layout f
    return .report (.array [.ofNat? (layout.find? name), .ofNat? (layout.findVisible? name)])
  | .frameInfo name => do
    let f ← frameNamed name
    report fun w => Show.frameInfo w f
  | .cellGet => do return .optional ((← lift Prog.memory).cell (← asCell a))
  | .cellSet => do edit (.cell (← asCell a) (some b))
  | .cellClear => do edit (.cell (← asCell a) none)
  | .newDict d => newDict d .empty
  | .dictOfTexts d keys => do
    let pairs ← lift (newTextPairs (textPairs (keys.zip vs)))
    newDict d (.map (.ofDistinctTexts pairs))
  | .dictOfFrame d f => do newDict d (.locals (.ofFrame (← frameNamed f)))
  | .dictOfGenerator d => do
    let g ← asGenerator a
    let s ← require "a finished generator" (← lift (.look fun w => (w.generator g).snapshot?))
    newDict d (.locals (.ofFrame s.frame))
  | .copyDict d source => do newDict d (← storageNamed source).copy
  | .dictToMap d source => do newDict d (.map ((← storageNamed source).toMap (← lift Prog.memory)))
  | .dictGet d => do return .optional (← onDict d (Dict.get? surroundings a))
  | .dictItem d => do value (← onDict d (Dict.item surroundings a))
  | .dictSet d => do
    onDict d (Dict.set surroundings a b)
    return .none
  | .dictDelete d => do
    onDict d (Dict.delete surroundings a)
    return .none
  | .dictContains d => do bool (← onDict d (Dict.contains surroundings a))
  | .dictKeys d ends => do
    let s ← storageNamed d
    report fun w =>
      let c := Storage.Cursor.ofStorage w.memory s
      match ends with
      | some ends => .array ((takeKeys w.memory ends c).map (Show.value? w))
      | none => .array ((allKeys w.memory (s.pairs w.memory).length c).map (Show.value w))
  | .dictItems d => do
    let _ ← readDict d fun mem s => s.size mem
    let s ← storageNamed d
    report fun w => .array ((s.pairs w.memory).map (showPair w))
  | .dictText d => do return .report (Show.masked (← dictText d))
  | .dictInfo d => do
    let (n, again) ← sizeInfo d
    let text ← dictText d
    let s ← storageNamed d
    return .report (.record [("len", .ofNat n), ("empty", .bool (again == 0)),
      ("locals", .bool s.isLocals), ("side_effect", .bool s.runsCode),
      ("repr", Show.masked text)])
  | .storageGet d => do
    let hash? := vs[1]?.map fun v => (number v).toUInt64
    return .optional (← onDict d (Storage.getItem surroundings.toSurroundings a hash?))
  | .storageGetText d => do
    let key ← asTextRef a
    return .optional (← onDict d (Storage.getText surroundings.toSurroundings key))
  | .storageSet d => do
    return .optional (← onDict d (Storage.setItem surroundings.toSurroundings a b))
  | .storagePop d => do
    return .optional (← onDict d (Storage.pop surroundings.toSurroundings a))
  | .storageClear d => do
    onDict d (modifyThe Storage (·.clear))
    return .none
  | .storageMark d => do
    onDict d (Storage.markRunsCode surroundings.toSurroundings)
    return .none
  | .storageShow d => do
    let n ← readDict d fun mem s => s.size mem
    let s ← storageNamed d
    report fun w => Show.masked (match s with
      | .map m => Storage.showMap w.lookup m
      | .locals l => Storage.showLocals w.memory l n)
  | .storageFold d n => do
    let s ← storageNamed d
    let pairs ← onDict d (Storage.forEach surroundings.toSurroundings s (collect n) [])
    report fun w => .array (pairs.map (showPair w))
  | .mapRemove d => do
    if (← storageNamed d).isLocals then malformed "not a map"
    match ← onDict d (Storage.removeItem surroundings.toSurroundings a) with
    | some e => return .optional (some (← newTuple [e.key, e.value]))
    | none => return .optional none
  | .storageInfo d => do
    let (n, again) ← sizeInfo d
    match ← storageNamed d with
    | .map m =>
      return .report (.array [.ofText "map", .ofNat n, .bool (again == 0), .bool m.runsCode])
    | .locals l =>
      let layout := (← lift Prog.memory).layout l.frame
      return .report (.array [.ofText "locals", .ofNat n, .bool (again == 0),
        .ofNat layout.size])

end Eval

end Resumable.Script
