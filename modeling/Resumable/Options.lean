import Resumable.Json.Printer
import Resumable.Json.Reader
import Resumable.Limits

/-!
# Options

The options of a context, and their form as a JSON document. Options and limits are written as
objects. They are read from objects, whose fields may stand in any order, be absent, or be joined
by unknown ones, and from arrays that list the leading fields in order. What is absent takes its
default, so an absent limit on the depth is the standard one, while a null limit is none.
-/

namespace Resumable

structure Options where
  limits : Limits
  /-- A trace of the host is kept with every exception that is thrown into a generator. -/
  hostTraces : Bool
  deriving DecidableEq

namespace Options

def standard : Options := ⟨.standard, false⟩

instance : Inhabited Options := ⟨standard⟩

-- ---------------------------------------------------------------------------
-- Writing
-- ---------------------------------------------------------------------------

def limitsToJson (l : Limits) : Json :=
  .record [("max_recursion_depth", .ofNat? l.depth?), ("max_resumes", .ofNat? l.resumes?)]

def toJson (o : Options) : Json :=
  .record [("limits", limitsToJson o.limits), ("host_backtraces", .bool o.hostTraces)]

-- ---------------------------------------------------------------------------
-- Reading
-- ---------------------------------------------------------------------------

/-- The only value that a field of a name may have: none if the field is absent, an error if it is
repeated. -/
def onlyField (name : String) (fields : List (Json.Content × Json)) : Option (Option Json) :=
  match Json.fieldsNamed name fields with
  | [] => some none
  | [j] => some (some j)
  | _ => none

def namesReadable (fields : List (Json.Content × Json)) : Bool := fields.all (·.1.isSome)

def limitOfJson? : Json → Option (Option Nat)
  | .null => some none
  | .number written => do
    let n ← Json.natural? written
    if n < UInt64.size then some (some n) else none
  | _ => none

def flagOfJson? : Json → Option Bool
  | .bool b => some b
  | _ => none

def fieldOr {α : Type} (read : Json → Option α) (default : α) : Option Json → Option α
  | none => some default
  | some j => read j

def limitsOfFields? (depth? resumes? : Option Json) : Option Limits := do
  let depth ← fieldOr limitOfJson? Limits.standard.depth? depth?
  let resumes ← fieldOr limitOfJson? Limits.standard.resumes? resumes?
  return ⟨depth, resumes⟩

def limitsOfJson? : Json → Option Limits
  | .object fields => do
    if !namesReadable fields then none
    limitsOfFields? (← onlyField "max_recursion_depth" fields) (← onlyField "max_resumes" fields)
  | .array items => if items.length ≤ 2 then limitsOfFields? items[0]? items[1]? else none
  | _ => none

def ofFields? (limits? flag? : Option Json) : Option Options := do
  let limits ← fieldOr limitsOfJson? standard.limits limits?
  let flag ← fieldOr flagOfJson? standard.hostTraces flag?
  return ⟨limits, flag⟩

def ofJson? : Json → Option Options
  | .object fields => do
    if !namesReadable fields then none
    ofFields? (← onlyField "limits" fields) (← onlyField "host_backtraces" fields)
  | .array items => if items.length ≤ 2 then ofFields? items[0]? items[1]? else none
  | _ => none

def ofText? (text : String) : Option Options := Json.ofText? text >>= ofJson?

def toText (o : Options) : String := o.toJson.toText

end Options

end Resumable
