import Resumable.Json.Basic

/-!
# Printing JSON

Documents are written without blanks. In texts the quote, the backslash and control characters are
escaped. A text whose escapes did not pair up is written as an empty one.
-/

namespace Resumable.Json

def hexDigit (n : Nat) : Char := (Nat.toDigits 16 (n % 16)).headD '0'

def escapeChar (c : Char) : List Char :=
  if c = '\x22' then ['\x5c', '\x22']
  else if c = '\x5c' then ['\x5c', '\x5c']
  else if c.toNat < 32 then
    ['\x5c', 'u', '0', '0', hexDigit (c.toNat / 16), hexDigit c.toNat]
  else [c]

def printText (s : String) : List Char := '\x22' :: s.toList.flatMap escapeChar ++ ['\x22']

def printContent (content : Content) : List Char := printText (content.getD "")

mutual

def print : Json → List Char
  | .null => "null".toList
  | .bool true => "true".toList
  | .bool false => "false".toList
  | .number written => written.toList
  | .text content => printContent content
  | .array [] => ['[', ']']
  | .array (item :: rest) => '[' :: item.print ++ printItems rest
  | .object [] => ['\x7b', '\x7d']
  | .object ((key, value) :: rest) =>
    '\x7b' :: printContent key ++ ':' :: value.print ++ printFields rest

def printItems : List Json → List Char
  | [] => [']']
  | item :: rest => ',' :: item.print ++ printItems rest

def printFields : List (Content × Json) → List Char
  | [] => ['\x7d']
  | (key, value) :: rest => ',' :: printContent key ++ ':' :: value.print ++ printFields rest

end

def toText (j : Json) : String := String.ofList j.print

end Resumable.Json
