/-!
# Quoted text

A text is written between two equal quotes: double ones exactly when it holds a single quote and
no double quote, single ones otherwise. A backslash, the delimiter, and the three control
characters that end or advance a line are written as an escape of two characters, everything else
as itself. `decode` reads one quoted text off the front of a longer one.
-/

namespace Resumable.Text.Quoted

def delimiter (text : List Char) : Char :=
  if text.contains '\x27' && !text.contains '\x22' then '\x22' else '\x27'

/-- One character of a text as it stands between two quotes `q`. -/
def escape (q c : Char) : List Char :=
  if c = '\x5c' then ['\x5c', '\x5c']
  else if c = '\n' then ['\x5c', 'n']
  else if c = '\r' then ['\x5c', 'r']
  else if c = '\t' then ['\x5c', 't']
  else if c = q then ['\x5c', q]
  else [c]

def encode (text : List Char) : List Char :=
  let q := delimiter text
  q :: text.flatMap (escape q) ++ [q]

def unescape (c : Char) : Char :=
  if c = 'n' then '\n' else if c = 'r' then '\r' else if c = 't' then '\t' else c

/-- The text up to the closing quote `q`, and what follows that quote. -/
def body (q : Char) : List Char → Option (List Char × List Char)
  | [] => none
  | [c] => if c = q then some ([], []) else none
  | c :: d :: rest =>
    if c = q then some ([], d :: rest)
    else if c = '\x5c' then (body q rest).map fun (text, tail) => (unescape d :: text, tail)
    else (body q (d :: rest)).map fun (text, tail) => (c :: text, tail)

def decode : List Char → Option (List Char × List Char)
  | [] => none
  | q :: rest => if q = '\x27' ∨ q = '\x22' then body q rest else none

end Quoted

def quoted (text : String) : String := String.ofList (Quoted.encode text.toList)

end Resumable.Text
