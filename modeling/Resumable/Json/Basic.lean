/-!
# JSON documents

A document keeps what a reader of strict JSON needs and no more: a number is kept as it was
written, the fields of an object in their order with repetitions, and a text only if its escapes
pair up to characters.
-/

namespace Resumable

/-- The characters of a JSON text, absent if an escaped surrogate has no partner. -/
abbrev Json.Content := Option String

inductive Json where
  | null
  | bool (b : Bool)
  | number (written : String)
  | text (content : Json.Content)
  | array (items : List Json)
  | object (fields : List (Json.Content × Json))
  deriving Inhabited

namespace Json

def ofText (s : String) : Json := .text (some s)

def ofNat (n : Nat) : Json := .number n.repr

def ofNat? : Option Nat → Json
  | some n => ofNat n
  | none => .null

def record (fields : List (String × Json)) : Json :=
  .object (fields.map fun (name, value) => (some name, value))

def fieldsNamed (name : String) (fields : List (Content × Json)) : List Json :=
  fields.filterMap fun (key, value) => if key = some name then some value else none

def field? (j : Json) (name : String) : Option Json :=
  match j with
  | .object fields => (fieldsNamed name fields).getLast?
  | _ => none

/-- The natural number that a text of decimal digits denotes; a zero leads no other digit. -/
def natural? (written : String) : Option Nat :=
  let digits := written.toList
  if digits.isEmpty || !digits.all (·.isDigit) || (digits.length > 1 && digits.head? == some '0')
  then none
  else some (digits.foldl (fun n c => 10 * n + (c.toNat - '0'.toNat)) 0)

def integer? : Json → Option Int
  | .number written =>
    match written.toList with
    | '-' :: digits => (natural? (String.ofList digits)).map fun n => -(n : Int)
    | _ => (natural? written).map Int.ofNat
  | _ => none

end Json

end Resumable
