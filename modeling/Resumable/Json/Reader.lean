import Resumable.Json.Basic

/-!
# Reading JSON

A text is cut into tokens and the tokens are read as one document, with nothing left over. Only
the strict form is accepted: no comments, no trailing commas, no leading zeros, no control
characters inside texts. Unpaired surrogate escapes are accepted but leave the text without
content.
-/

namespace Resumable.Json

inductive Token where
  | openArray
  | closeArray
  | openObject
  | closeObject
  | comma
  | colon
  | null
  | bool (b : Bool)
  | number (written : String)
  | text (content : Content)
  deriving DecidableEq

-- ---------------------------------------------------------------------------
-- Texts
-- ---------------------------------------------------------------------------

/-- A piece of a text: a character, or a code unit of sixteen bits given by an escape. -/
inductive Piece where
  | char (c : Char)
  | unit (n : Nat)
  deriving DecidableEq

def hexValue? (c : Char) : Option Nat :=
  if '0' ≤ c ∧ c ≤ '9' then some (c.toNat - '0'.toNat)
  else if 'a' ≤ c ∧ c ≤ 'f' then some (c.toNat - 'a'.toNat + 10)
  else if 'A' ≤ c ∧ c ≤ 'F' then some (c.toNat - 'A'.toNat + 10)
  else none

def hexUnit? (a b c d : Char) : Option Nat := do
  return (((← hexValue? a) * 16 + (← hexValue? b)) * 16 + (← hexValue? c)) * 16 + (← hexValue? d)

/-- What a character behind a backslash stands for. -/
def escaped? (c : Char) : Option Char :=
  if c = '\x22' ∨ c = '\x5c' ∨ c = '/' then some c
  else if c = 'b' then some '\x08'
  else if c = 'f' then some '\x0c'
  else if c = 'n' then some '\n'
  else if c = 'r' then some '\r'
  else if c = 't' then some '\t'
  else none

def pieces : List Char → Option (List Piece × List Char)
  | [] => none
  | '\x22' :: rest => some ([], rest)
  | '\x5c' :: 'u' :: a :: b :: c :: d :: rest => do
    let n ← hexUnit? a b c d
    let (more, tail) ← pieces rest
    return (.unit n :: more, tail)
  | '\x5c' :: c :: rest => do
    let e ← escaped? c
    let (more, tail) ← pieces rest
    return (.char e :: more, tail)
  | c :: rest =>
    if c.toNat < 32 then none
    else do
      let (more, tail) ← pieces rest
      return (.char c :: more, tail)

def isHigh (n : Nat) : Bool := 0xD800 ≤ n && n < 0xDC00

def isLow (n : Nat) : Bool := 0xDC00 ≤ n && n < 0xE000

/-- The characters of the pieces, if every high surrogate is followed by a low one and no low one
stands alone. -/
def characters : List Piece → Option (List Char)
  | [] => some []
  | .char c :: rest => (characters rest).map (c :: ·)
  | .unit n :: rest =>
    if isHigh n then
      match rest with
      | .unit m :: rest =>
        if isLow m then
          (characters rest).map (Char.ofNat (0x10000 + (n - 0xD800) * 0x400 + (m - 0xDC00)) :: ·)
        else none
      | _ => none
    else if isLow n then none
    else (characters rest).map (Char.ofNat n :: ·)

def content (ps : List Piece) : Content := (characters ps).map String.ofList

-- ---------------------------------------------------------------------------
-- Numbers
-- ---------------------------------------------------------------------------

def digits? (cs : List Char) : Option (List Char × List Char) :=
  match cs.takeWhile (·.isDigit) with
  | [] => none
  | ds => some (ds, cs.dropWhile (·.isDigit))

def whole? : List Char → Option (List Char × List Char)
  | '0' :: rest => some (['0'], rest)
  | cs => digits? cs

def fraction? : List Char → Option (List Char × List Char)
  | '.' :: rest => (digits? rest).map fun (ds, tail) => ('.' :: ds, tail)
  | cs => some ([], cs)

def exponent? : List Char → Option (List Char × List Char)
  | c :: rest =>
    if c = 'e' ∨ c = 'E' then
      match rest with
      | s :: more =>
        if s = '+' ∨ s = '-' then (digits? more).map fun (ds, tail) => (c :: s :: ds, tail)
        else (digits? rest).map fun (ds, tail) => (c :: ds, tail)
      | [] => none
    else some ([], c :: rest)
  | [] => some ([], [])

def number? (cs : List Char) : Option (List Char × List Char) := do
  let (sign, cs) := match cs with
    | '-' :: rest => (['-'], rest)
    | cs => ([], cs)
  let (whole, cs) ← whole? cs
  let (fraction, cs) ← fraction? cs
  let (exponent, cs) ← exponent? cs
  return (sign ++ whole ++ fraction ++ exponent, cs)

-- ---------------------------------------------------------------------------
-- Tokens
-- ---------------------------------------------------------------------------

def isBlank (c : Char) : Bool := c == ' ' || c == '\n' || c == '\t' || c == '\r'

/-- The token at the front of a text that does not start with a blank. -/
def token? : List Char → Option (Token × List Char)
  | [] => none
  | '[' :: rest => some (.openArray, rest)
  | ']' :: rest => some (.closeArray, rest)
  | '\x7b' :: rest => some (.openObject, rest)
  | '\x7d' :: rest => some (.closeObject, rest)
  | ',' :: rest => some (.comma, rest)
  | ':' :: rest => some (.colon, rest)
  | 'n' :: 'u' :: 'l' :: 'l' :: rest => some (.null, rest)
  | 't' :: 'r' :: 'u' :: 'e' :: rest => some (.bool true, rest)
  | 'f' :: 'a' :: 'l' :: 's' :: 'e' :: rest => some (.bool false, rest)
  | '\x22' :: rest => (pieces rest).map fun (ps, tail) => (.text (content ps), tail)
  | cs => (number? cs).map fun (written, tail) => (.number (String.ofList written), tail)

def tokens : Nat → List Char → Option (List Token)
  | n, cs =>
    match cs.dropWhile isBlank, n with
    | [], _ => some []
    | _ :: _, 0 => none
    | c :: rest, n + 1 => do
      let (t, tail) ← token? (c :: rest)
      let more ← tokens n tail
      return t :: more

-- ---------------------------------------------------------------------------
-- Documents
-- ---------------------------------------------------------------------------

mutual

/-- The document at the front of the tokens; `n` bounds the tokens read. -/
def document : Nat → List Token → Option (Json × List Token)
  | 0, _ => none
  | _, [] => none
  | n + 1, t :: ts =>
    match t with
    | .null => some (.null, ts)
    | .bool b => some (.bool b, ts)
    | .number written => some (.number written, ts)
    | .text content => some (.text content, ts)
    | .openArray =>
      match ts with
      | .closeArray :: ts => some (.array [], ts)
      | ts => (items n ts).map fun (js, ts) => (.array js, ts)
    | .openObject =>
      match ts with
      | .closeObject :: ts => some (.object [], ts)
      | ts => (fields n ts).map fun (fs, ts) => (.object fs, ts)
    | _ => none

def items : Nat → List Token → Option (List Json × List Token)
  | 0, _ => none
  | n + 1, ts => do
    let (j, ts) ← document n ts
    match ts with
    | .closeArray :: ts => return ([j], ts)
    | .comma :: ts =>
      let (js, ts) ← items n ts
      return (j :: js, ts)
    | _ => none

def fields : Nat → List Token → Option (List (Content × Json) × List Token)
  | 0, _ => none
  | n + 1, ts =>
    match ts with
    | .text key :: .colon :: ts => do
      let (j, ts) ← document n ts
      match ts with
      | .closeObject :: ts => return ([(key, j)], ts)
      | .comma :: ts =>
        let (fs, ts) ← fields n ts
        return ((key, j) :: fs, ts)
      | _ => none
    | _ => none

end

/-- The document that a text holds, if it is one document in strict JSON. -/
def ofText? (text : String) : Option Json := do
  let chars := text.toList
  let ts ← tokens chars.length chars
  match ← document (2 * ts.length + 1) ts with
  | (j, []) => some j
  | _ => none

end Resumable.Json
