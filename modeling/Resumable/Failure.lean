import Resumable.Limits
import Resumable.Value.Basic

/-!
# Failures

An operation fails with an internal error, which no program caused, with a raised exception that
bodies may catch, or with one that they may not. `Fault` lists the causes for which the library
itself raises an exception with a message.
-/

namespace Resumable

/-- A raised exception, and whether a trace of the host was kept when it was thrown. -/
structure Raise where
  exc : Exc
  hostTrace : Bool
  deriving Inhabited

inductive Failure where
  | internal (message : String)
  | raised (r : Raise)
  | uncatchable (r : Raise)
  deriving Inhabited

namespace Failure

def ofExc (e : Exc) : Failure := .raised ⟨e, false⟩

def raise? : Failure → Option Raise
  | .internal _ => none
  | .raised r | .uncatchable r => some r

def exc? (f : Failure) : Option Exc := f.raise?.map (·.exc)

def hostTrace (f : Failure) : Bool := f.raise?.any (·.hostTrace)

def isCaughtBy (f : Failure) (type : ExcType) : Bool :=
  match f with
  | .raised r => r.exc.isCaughtBy type
  | _ => false

/-- The value that the failure carries if it reports the end of an iteration. -/
def stopValue? : Failure → Option Value
  | .raised r => if r.exc.isCaughtBy .stopIteration then some r.exc.stopValue else none
  | _ => none

end Failure

inductive Fault where
  | alreadyExecuting
  | sendToUnstarted
  | ignoredExit
  | escapedStop
  | notWritable (typeName attr : String)
  | notText (attr : String)
  | unhashable (typeName : String)
  | notCallable (typeName : String)
  | argumentCount (name : String) (expected given : Nat)
  | notTraceback
  | separateValue
  | notRaisable (typeName : String)
  /-- A class of exceptions, shown by its text, made something else. -/
  | notAnException (called producedTypeName : String)
  | limit (cause : LimitError)
  deriving DecidableEq

namespace Fault

def type : Fault → ExcType
  | alreadyExecuting => .valueError
  | ignoredExit | escapedStop => .runtimeError
  | notWritable .. => .attributeError
  | limit (.depth ..) => .recursionError
  | limit (.resumes ..) => .timeoutError
  | _ => .typeError

def message : Fault → String
  | alreadyExecuting => "generator already executing"
  | sendToUnstarted => "can't send non-None value to a just-started generator"
  | ignoredExit => "generator ignored GeneratorExit"
  | escapedStop => "generator raised StopIteration"
  | notWritable typeName attr =>
    "attribute '" ++ attr ++ "' of '" ++ typeName ++ "' objects is not writable"
  | notText attr => attr ++ " must be set to a string object"
  | unhashable typeName => "unhashable type: '" ++ typeName ++ "'"
  | notCallable typeName => "'" ++ typeName ++ "' object is not callable"
  | argumentCount name expected given =>
    name ++ "() takes " ++ expected.repr ++ " positional arguments but " ++ given.repr
      ++ " were given"
  | notTraceback => "throw() third argument must be a traceback object"
  | separateValue => "instance exception may not have a separate value"
  | notRaisable typeName =>
    "exceptions must be classes or instances deriving from BaseException, not " ++ typeName
  | notAnException called producedTypeName =>
    "calling " ++ called ++ " should have returned an instance of BaseException, not "
      ++ producedTypeName
  | limit cause => cause.text

/-- Bodies may catch the exception. An exhausted budget of resumptions may not be caught. -/
def catchable : Fault → Bool
  | limit (.resumes ..) => false
  | _ => true

def failure (f : Fault) (e : Exc) : Failure :=
  if f.catchable then .raised ⟨e, false⟩ else .uncatchable ⟨e, false⟩

end Fault

end Resumable
