import Resumable.Hash.Words

/-!
# Hash of text

The hash of a text is a keyed short-input hash of its bytes, with an all-zero key, one mixing
round for each word of eight bytes and three at the end. The empty text hashes to zero.
-/

namespace Resumable.Hash.Text

structure State where
  v0 : UInt64
  v1 : UInt64
  v2 : UInt64
  v3 : UInt64
  deriving DecidableEq

def State.start : State :=
  ⟨0x736f6d6570736575, 0x646f72616e646f6d, 0x6c7967656e657261, 0x7465646279746573⟩

def State.round (s : State) : State :=
  let v0 := s.v0 + s.v1
  let v1 := rotateLeft s.v1 13 ^^^ v0
  let v0 := rotateLeft v0 32
  let v2 := s.v2 + s.v3
  let v3 := rotateLeft s.v3 16 ^^^ v2
  let v0 := v0 + v3
  let v3 := rotateLeft v3 21 ^^^ v0
  let v2 := v2 + v1
  let v1 := rotateLeft v1 17 ^^^ v2
  let v2 := rotateLeft v2 32
  ⟨v0, v1, v2, v3⟩

def State.absorb (s : State) (m : UInt64) : State :=
  let t := { s with v3 := s.v3 ^^^ m }.round
  { t with v0 := t.v0 ^^^ m }

def State.finish (s : State) : UInt64 :=
  let t := { s with v2 := s.v2 ^^^ 0xff }.round.round.round
  t.v0 ^^^ t.v1 ^^^ t.v2 ^^^ t.v3

def littleEndian (bytes : List UInt8) : UInt64 :=
  bytes.foldr (fun b w => (w <<< 8) ||| b.toUInt64) 0

/-- Mixes in whole words, then the bytes left over below the length `tag`. -/
def absorbAll (tag : UInt64) : State → List UInt8 → State
  | s, b0 :: b1 :: b2 :: b3 :: b4 :: b5 :: b6 :: b7 :: rest =>
    absorbAll tag (s.absorb (littleEndian [b0, b1, b2, b3, b4, b5, b6, b7])) rest
  | s, rest => s.absorb (tag ||| littleEndian rest)

def ofBytes (bytes : List UInt8) : UInt64 :=
  (absorbAll (UInt64.ofNat bytes.length <<< 56) .start bytes).finish

end Text

def ofText (text : String) : UInt64 :=
  match text.toUTF8.toList with
  | [] => 0
  | bytes => word (avoidReserved (signed (Text.ofBytes bytes)))

end Resumable.Hash
