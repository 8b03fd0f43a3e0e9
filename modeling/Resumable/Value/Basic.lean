import Resumable.Binary64.Basic
import Resumable.Class
import Resumable.Code.Traceback

/-!
# Values

Scalars have no identity. Texts, tuples, instances, classes and tracebacks are immutable objects
with an identity; cells, exceptions and generators are mutable and held by reference, though the
type and the arguments of an exception never change. `unbound` fills the slots of a frame that
nothing was stored in.
-/

namespace Resumable

inductive Value where
  | unbound
  | none
  | bool (b : Bool)
  | int (i : Int64)
  | float (x : Binary64)
  | text (t : TextRef)
  | tuple (id : Identity) (items : List Value)
  | cell (ref : Ref .cell)
  | excType (type : ExcType)
  | cls (c : Class)
  | exception (ref : Ref .exception) (type : ExcType) (class? : Option Class) (args : List Value)
  | inst (id : Identity) (c : Class) (payload : Value)
  | traceback (t : Traceback)
  | generator (ref : Ref .generator)
  deriving Inhabited

/-- An exception object: the fixed type it derives from, the class it was made by, if any, and
the arguments it was made with. -/
structure Exc where
  ref : Ref .exception
  type : ExcType
  class? : Option Class
  args : List Value
  deriving Inhabited

structure Instance where
  id : Identity
  cls : Class
  payload : Value
  deriving Inhabited

inductive TypeTag where
  | none
  | bool
  | int
  | float
  | text
  | tuple
  | cell
  | type
  | object
  | exception (type : ExcType)
  | traceback
  | generator
  | frame
  | code
  | dict
  deriving DecidableEq

def TypeTag.name : TypeTag → String
  | none => "NoneType"
  | bool => "bool"
  | int => "int"
  | float => "float"
  | text => "str"
  | tuple => "tuple"
  | cell => "cell"
  | type => "type"
  | object => "object"
  | exception t => t.name
  | traceback => "traceback"
  | generator => "generator"
  | frame => "frame"
  | code => "code"
  | dict => "dict"

def TypeTag.all : List TypeTag :=
  [.none, .bool, .int, .float, .text, .tuple, .cell, .type, .object, .exception .keyError,
    .traceback, .generator, .frame, .code, .dict]

namespace Exc

def value (e : Exc) : Value := .exception e.ref e.type e.class? e.args

def typeName (e : Exc) : String :=
  match e.class? with
  | some c => c.name
  | none => e.type.name

def isCaughtBy (e : Exc) (type : ExcType) : Bool := e.type.isSubtypeOf type

def stopValue (e : Exc) : Value := e.args.head?.getD .none

def isInstanceOf (e : Exc) : Value → Bool
  | .excType t => e.isCaughtBy t
  | .cls c => e.class?.any (·.isSubclassOf c)
  | _ => false

def same (a b : Exc) : Bool := a.ref == b.ref

end Exc

def Instance.value (i : Instance) : Value := .inst i.id i.cls i.payload

namespace Value

def isNone : Value → Bool
  | .none => true
  | _ => false

def isTrue : Value → Bool
  | .bool true => true
  | _ => false

def ofBool (b : Bool) : Int64 := if b then 1 else 0

def asInt : Value → Option Int64
  | .int i => some i
  | .bool b => some (ofBool b)
  | _ => Option.none

def asText : Value → Option String
  | .text t => some t.text
  | _ => Option.none

def asExc : Value → Option Exc
  | .exception r t c args => some ⟨r, t, c, args⟩
  | _ => Option.none

@[simp] theorem asExc_value (e : Exc) : e.value.asExc = some e := rfl

def isExceptionClass : Value → Bool
  | .excType _ => true
  | .cls c => c.base?.isSome
  | _ => false

def type : Value → TypeTag
  | .unbound | .none => .none
  | .bool _ => .bool
  | .int _ => .int
  | .float _ => .float
  | .text _ => .text
  | .tuple .. => .tuple
  | .cell _ => .cell
  | .excType _ | .cls _ => .type
  | .exception _ t _ _ => .exception t
  | .inst .. => .object
  | .traceback _ => .traceback
  | .generator _ => .generator

def typeName : Value → String
  | .exception r t c args => (⟨r, t, c, args⟩ : Exc).typeName
  | .inst _ c _ => c.name
  | v => v.type.name

/-- Identity. Scalars are identical when they have one value; floating-point numbers when they
have one bit pattern. -/
def identical : Value → Value → Bool
  | .unbound, .unbound => true
  | .none, .none => true
  | .bool a, .bool b => a == b
  | .int a, .int b => a == b
  | .float a, .float b => a == b
  | .text a, .text b => a.same b
  | .tuple a _, .tuple b _ => a == b
  | .cell a, .cell b => a == b
  | .excType a, .excType b => a == b
  | .cls a, .cls b => a.id == b.id
  | .exception a .., .exception b .. => a == b
  | .inst a .., .inst b .. => a == b
  | .traceback a, .traceback b => a.id == b.id
  | .generator a, .generator b => a == b
  | _, _ => false

mutual

/-- Hashing or comparing the value may run a hook. -/
def mayRunCode : Value → Bool
  | .inst _ c _ => c.hasHooks
  | .tuple _ items => anyMayRunCode items
  | _ => false

def anyMayRunCode : List Value → Bool
  | [] => false
  | v :: rest => v.mayRunCode || anyMayRunCode rest

end

end Value

end Resumable
