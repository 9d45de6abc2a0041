import LiveTemplates.Text.Basic

/-!
# UTF-8

Encoding writes each character by one to four octets. Decoding reads octets from left to right
and stops at the first sequence that no character is written by: an octet that starts no
character, a sequence broken off by an octet that does not continue it, or one cut short by the
end of the input.
-/

namespace LiveTemplates

abbrev Bytes := List UInt8

namespace Utf8

def encodeChar (c : Char) : Bytes :=
  let n := c.toNat
  if n < 0x80 then [.ofNat n]
  else if n < 0x800 then [.ofNat (0xC0 + n / 64), .ofNat (0x80 + n % 64)]
  else if n < 0x10000 then
    [.ofNat (0xE0 + n / 4096), .ofNat (0x80 + n / 64 % 64), .ofNat (0x80 + n % 64)]
  else
    [.ofNat (0xF0 + n / 262144), .ofNat (0x80 + n / 4096 % 64), .ofNat (0x80 + n / 64 % 64),
      .ofNat (0x80 + n % 64)]

def encode (cs : List Char) : Bytes := cs.flatMap encodeChar

inductive Reason where
  | invalidStart
  | invalidContinuation
  | unexpectedEnd
deriving DecidableEq

/-- The octets from position `start` on that no character is written by. -/
structure Malformed where
  start : Nat
  octets : Bytes
  reason : Reason
deriving DecidableEq

/-- A character whose sequence has begun. The next octet must lie between the bounds. -/
structure Begun where
  start : Nat
  octets : Bytes
  value : Nat
  missing : Nat
  lowest : UInt8
  highest : UInt8

/-- The sequence that a leading octet begins. The bounds on the second octet shut out overlong
forms, surrogates and values beyond the last character. -/
def begin? (position : Nat) (b : UInt8) : Option Begun :=
  if b < 0xC2 then none
  else if b < 0xE0 then some ⟨position, [b], b.toNat - 0xC0, 1, 0x80, 0xBF⟩
  else if b < 0xF0 then
    some ⟨position, [b], b.toNat - 0xE0, 2, if b = 0xE0 then 0xA0 else 0x80,
      if b = 0xED then 0x9F else 0xBF⟩
  else if b < 0xF5 then
    some ⟨position, [b], b.toNat - 0xF0, 3, if b = 0xF0 then 0x90 else 0x80,
      if b = 0xF4 then 0x8F else 0xBF⟩
  else none

def Begun.next (s : Begun) (b : UInt8) : Begun :=
  ⟨s.start, s.octets ++ [b], s.value * 64 + (b.toNat - 0x80), s.missing - 1, 0x80, 0xBF⟩

def decodeFrom (position : Nat) : Option Begun → Bytes → Except Malformed (List Char)
  | none, [] => .ok []
  | some s, [] => .error ⟨s.start, s.octets, .unexpectedEnd⟩
  | none, b :: rest =>
    if b < 0x80 then (decodeFrom (position + 1) none rest).map (Char.ofNat b.toNat :: ·)
    else
      match begin? position b with
      | none => .error ⟨position, [b], .invalidStart⟩
      | some s => decodeFrom (position + 1) (some s) rest
  | some s, b :: rest =>
    if s.lowest ≤ b ∧ b ≤ s.highest then
      if s.missing ≤ 1 then
        (decodeFrom (position + 1) none rest).map (Char.ofNat (s.next b).value :: ·)
      else decodeFrom (position + 1) (some (s.next b)) rest
    else .error ⟨s.start, s.octets, .invalidContinuation⟩

def decode (bytes : Bytes) : Except Malformed (List Char) := decodeFrom 0 none bytes

/-- The encoded byte order mark, which may precede a document. -/
def byteOrderMark : Bytes := [0xEF, 0xBB, 0xBF]

/-- Decodes a document after one leading byte order mark, if there is one. -/
def decodeDocument (bytes : Bytes) : Except Malformed (List Char) :=
  if byteOrderMark.isPrefixOf bytes then decode (bytes.drop byteOrderMark.length)
  else decode bytes

def Reason.description : Reason → String
  | .invalidStart => "invalid start byte"
  | .invalidContinuation => "invalid continuation byte"
  | .unexpectedEnd => "unexpected end of data"

def Malformed.message (m : Malformed) : Text :=
  let place : Text :=
    match m.octets with
    | [b] =>
      Text.ofString "byte 0x" ++ Text.hex 2 b.toNat ++ Text.ofString " in position " ++
        Text.ofNat m.start
    | octets =>
      Text.ofString "bytes in position " ++ Text.ofNat m.start ++ Text.ofString "-" ++
        Text.ofNat (m.start + octets.length - 1)
  Text.ofString "'utf-8' codec can't decode " ++ place ++ Text.ofString ": " ++
    Text.ofString m.reason.description

end Utf8

end LiveTemplates
