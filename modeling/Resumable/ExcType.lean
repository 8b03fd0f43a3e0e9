/-!
# Exception types

The fixed tree of exception types, with `baseException` at its root. A handler for a type catches
that type and everything below it.
-/

namespace Resumable

inductive ExcType where
  | baseException
  | systemExit
  | keyboardInterrupt
  | generatorExit
  | exception
  | arithmeticError
  | overflowError
  | zeroDivisionError
  | lookupError
  | indexError
  | keyError
  | stopIteration
  | stopAsyncIteration
  | runtimeError
  | recursionError
  | notImplementedError
  | nameError
  | unboundLocalError
  | attributeError
  | timeoutError
  | typeError
  | valueError
  deriving DecidableEq, Inhabited

namespace ExcType

def all : List ExcType :=
  [baseException, systemExit, keyboardInterrupt, generatorExit, exception, arithmeticError,
    overflowError, zeroDivisionError, lookupError, indexError, keyError, stopIteration,
    stopAsyncIteration, runtimeError, recursionError, notImplementedError, nameError,
    unboundLocalError, attributeError, timeoutError, typeError, valueError]

theorem mem_all (t : ExcType) : t ∈ all := by cases t <;> decide

def name : ExcType → String
  | baseException => "BaseException"
  | systemExit => "SystemExit"
  | keyboardInterrupt => "KeyboardInterrupt"
  | generatorExit => "GeneratorExit"
  | exception => "Exception"
  | arithmeticError => "ArithmeticError"
  | overflowError => "OverflowError"
  | zeroDivisionError => "ZeroDivisionError"
  | lookupError => "LookupError"
  | indexError => "IndexError"
  | keyError => "KeyError"
  | stopIteration => "StopIteration"
  | stopAsyncIteration => "StopAsyncIteration"
  | runtimeError => "RuntimeError"
  | recursionError => "RecursionError"
  | notImplementedError => "NotImplementedError"
  | nameError => "NameError"
  | unboundLocalError => "UnboundLocalError"
  | attributeError => "AttributeError"
  | timeoutError => "TimeoutError"
  | typeError => "TypeError"
  | valueError => "ValueError"

def ofName? (text : String) : Option ExcType := all.find? fun t => t.name == text

def base? : ExcType → Option ExcType
  | baseException => none
  | systemExit | keyboardInterrupt | generatorExit | exception => some baseException
  | overflowError | zeroDivisionError => some arithmeticError
  | indexError | keyError => some lookupError
  | recursionError | notImplementedError => some runtimeError
  | unboundLocalError => some nameError
  | _ => some exception

def depth : ExcType → Nat
  | baseException => 0
  | systemExit | keyboardInterrupt | generatorExit | exception => 1
  | overflowError | zeroDivisionError | indexError | keyError | recursionError
  | notImplementedError | unboundLocalError => 3
  | _ => 2

def above : Nat → ExcType → List ExcType
  | 0, _ => []
  | n + 1, t =>
    match t.base? with
    | some b => b :: above n b
    | none => []

def bases (t : ExcType) : List ExcType := above t.depth t

def isSubtypeOf (t handler : ExcType) : Bool := t == handler || t.bases.contains handler

theorem isSubtypeOf_refl (t : ExcType) : t.isSubtypeOf t = true := by simp [isSubtypeOf]

end ExcType

end Resumable
