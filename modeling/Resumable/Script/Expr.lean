import Resumable.Generator.Basic
import Resumable.Options

/-!
# Scripts

Scripts are the programs of a small language for hosts: the bodies of targets, the hooks of
classes and the steps of a scenario are expressions of it. Operations take values that their
operands were evaluated to; the other expressions decide what is evaluated.
-/

namespace Resumable.Script

inductive Resumption where
  | next
  | send
  | throw (hostTrace : Bool)

inductive SlotSpec where
  | named (name : String)
  | engine (purpose : String)

inductive FrameShape where
  | slots (slots : List SlotSpec)
  | like (frame : String)

/-- Operations on values. Frames, dictionaries, classes and targets go by names of the script. -/
inductive Op where
  -- values
  | tuple
  | nest (n : Nat)
  | repeatText (text : String) (n : Nat)
  | float (x : Binary64)
  | excType (type : ExcType)
  | cls (name : String)
  | inst (cls : String)
  | newExc (type : ExcType)
  | call
  | cell
  | unbound
  | equals
  | same
  | hash
  | hashAsInt
  | payload
  | describe
  | add
  | less
  | not
  -- failures and surroundings
  | variable (name : String)
  | caught
  | raiseCaught
  | raise
  | raiseChained
  | internal (message : String)
  | hookCounts (cls : String)
  | context
  | events
  | report
  -- exceptions
  | excInfo
  | excContext
  | excCause
  | excTraceback
  | setContext
  | setCause
  | setTraceback
  | isInstance
  | isCaughtBy (type : ExcType)
  | isSubclass (cls other : String)
  | tracebackNext
  | tracebackInfo
  -- the running body
  | take
  | slot (n : Int)
  | storeSlot (n : Int)
  | clearSlot (n : Int)
  | argument (n : Int)
  | arguments
  | resumePoint
  | caller
  | activation
  -- generators
  | generator (target : String)
  | next
  | send
  | throw (value traceback : Bool)
  | throwException
  | close
  | resume (r : Resumption)
  | iterate (n : Nat)
  | generatorInfo
  | generatorState
  | delegate
  | setName
  | setQualifiedName
  | setRunning
  | code (offsets : List Int)
  -- frames and cells
  | newFrame (frame : String) (shape : FrameShape)
  | frameOf (frame : String)
  | load (frame : String) (n : Int)
  | loadRaw (frame : String) (n : Int)
  | loadName (frame name : String)
  | store (frame : String) (n : Int)
  | storeRaw (frame : String) (n : Int)
  | storeName (frame name : String)
  | clear (frame : String) (n : Int)
  | sameFrame (frame other : String)
  | findName (frame name : String)
  | frameInfo (frame : String)
  | cellGet
  | cellSet
  | cellClear
  -- dictionaries
  | newDict (dict : String)
  | dictOfTexts (dict : String) (keys : List String)
  | dictOfFrame (dict frame : String)
  | dictOfGenerator (dict : String)
  | copyDict (dict source : String)
  | dictToMap (dict source : String)
  | dictGet (dict : String)
  | dictItem (dict : String)
  | dictSet (dict : String)
  | dictDelete (dict : String)
  | dictContains (dict : String)
  | dictKeys (dict : String) (ends : Option (List Bool))
  | dictItems (dict : String)
  | dictText (dict : String)
  | dictInfo (dict : String)
  | storageGet (dict : String)
  | storageGetText (dict : String)
  | storageSet (dict : String)
  | storagePop (dict : String)
  | storageClear (dict : String)
  | storageMark (dict : String)
  | storageShow (dict : String)
  | storageFold (dict : String) (n : Nat)
  | mapRemove (dict : String)
  | storageInfo (dict : String)

inductive Expr where
  | none
  | bool (b : Bool)
  | int (i : Int64)
  | text (s : String)
  | apply (op : Op) (operands : List Expr)
  | seq (steps : List Expr)
  | loop (n : Nat) (body : Expr)
  | ite (condition yes no : Expr)
  | assign (name : String) (e : Expr)
  /-- Handlers in order; one without a type handles every failure. -/
  | tryWith (body : Expr) (handlers : List (Option ExcType × Expr))
  | catchInto (body : Expr)
  | log (body : Expr)
  | handling (exc body : Expr)
  | inContext (options : Options) (body : Expr)
  | yield (value : Expr) (resumeAt : Int) (delegate : Option Expr) (retarget : Option String)
  | giveBack (value : Expr)
  | malformed (problem : String)
  deriving Inhabited

structure ClassSpec where
  name : String
  parent? : Option String
  base? : Option ExcType
  hash? : Option Expr
  compare? : Option Expr
  construct? : Option Expr
  deriving Inhabited

structure CodeSpec where
  name : String
  slots : List SlotSpec
  qualifiedName? : Option String
  filename? : Option String
  firstLine? : Option Nat
  argumentCount? : Option Nat
  lines : List (Int × Nat)

structure TargetSpec where
  name : String
  /-- The target whose code this one shares, or code of its own. -/
  code : String ⊕ CodeSpec
  body : List (String × Expr)

inductive TracerSpec where
  | silent
  | recording (limit? : Option Nat)
  | profiling

structure Scenario where
  options : Options
  depthOnly : Bool
  tracer : TracerSpec
  classes : List ClassSpec
  targets : List TargetSpec
  steps : List Expr

end Resumable.Script
