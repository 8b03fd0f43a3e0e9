import Resumable.Binary64.Printer
import Resumable.Text.Masked
import Resumable.Text.Quoted
import Resumable.Value.Basic

/-!
# Text of values

`Value.repr` writes a value as it would be written in a program, where it can be; objects without
a literal form show their type and address. What a cell holds and what a generator is called can
change, so both are looked up in a `Lookup`.
-/

namespace Resumable

structure Lookup where
  cell : Ref .cell → Option Value
  generatorName : Ref .generator → String

namespace Value

/-- Items between parentheses; one item alone is followed by a comma. -/
def parenthesized : List String → String
  | [item] => "(" ++ item ++ ",)"
  | items => "(" ++ ", ".intercalate items ++ ")"

def classText (name : String) : String := "<class '" ++ name ++ "'>"

mutual

def repr (l : Lookup) : Value → String
  | .unbound => "<undefined>"
  | .none => "None"
  | .bool true => "True"
  | .bool false => "False"
  | .int i => i.toInt.repr
  | .float x => x.text
  | .text t => Text.quoted t.text
  | .tuple _ items => parenthesized (reprs l items)
  | .cell r =>
    let contents := match l.cell r with
      | some v => v.typeName ++ " object"
      | Option.none => "empty"
    "<cell at " ++ Text.address (Address.ofRef r) ++ ": " ++ contents ++ ">"
  | .excType t => classText t.name
  | .cls c => classText c.name
  | .exception r t c args =>
    (⟨r, t, c, args⟩ : Exc).typeName ++ "(" ++ ", ".intercalate (reprs l args) ++ ")"
  | .inst id c _ => "<" ++ c.name ++ " object at " ++ Text.address (Address.ofIdentity id) ++ ">"
  | .traceback t => "<traceback object at " ++ Text.address (Address.ofIdentity t.id) ++ ">"
  | .generator r =>
    "<generator object " ++ l.generatorName r ++ " at " ++ Text.address (Address.ofRef r) ++ ">"

def reprs (l : Lookup) : List Value → List String
  | [] => []
  | v :: rest => v.repr l :: reprs l rest

end

end Value

namespace Exc

def repr (l : Lookup) (e : Exc) : String := e.value.repr l

/-- The text of the arguments: nothing, the one argument, or the tuple of all of them. A text
stands for itself. -/
def message (l : Lookup) (e : Exc) : String :=
  match e.args with
  | [] => ""
  | [.text t] => t.text
  | [arg] => arg.repr l
  | args => Value.parenthesized (Value.reprs l args)

def description (l : Lookup) (e : Exc) : String :=
  match e.message l with
  | "" => e.typeName
  | message => e.typeName ++ ": " ++ message

end Exc

end Resumable
