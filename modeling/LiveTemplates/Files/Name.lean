import LiveTemplates.Text.Quoted
import LiveTemplates.Utf8

/-!
# Names of files

A file system knows its files by octets, a program by texts. A text is written in UTF-8, with the
surrogates from `0xDC80` to `0xDCFF` for single octets; octets are read as the characters that
they encode, and an octet that belongs to none as its surrogate. So two texts may name one file,
and one of them is the text under which it is listed.
-/

namespace LiveTemplates

/-- Code points of a text that no octets stand for. -/
structure Unencodable where
  first : CodePoint
  position : Nat
  count : Nat
deriving DecidableEq

def Unencodable.message (u : Unencodable) : Text :=
  let place : Text :=
    if u.count = 1 then
      Text.ofString "character '\\u" ++ Text.hex 4 u.first.value ++
        Text.ofString "' in position " ++ Text.ofNat u.position
    else
      Text.ofString "characters in position " ++ Text.ofNat u.position ++ Text.ofString "-" ++
        Text.ofNat (u.position + u.count - 1)
  Text.ofString "'utf-8' codec can't encode " ++ place ++ Text.ofString ": surrogates not allowed"

namespace Text

def octetsFrom (position : Nat) : Text → Except Unencodable Bytes
  | [] => .ok []
  | .char c :: rest => (octetsFrom (position + 1) rest).map (Utf8.encodeChar c ++ ·)
  | .lone offset :: rest =>
    if 0x480 ≤ offset.val ∧ offset.val < 0x500 then
      (octetsFrom (position + 1) rest).map (UInt8.ofNat (offset.val - 0x400) :: ·)
    else .error ⟨.lone offset, position, (rest.takeWhile CodePoint.isLone).length + 1⟩

def octets (t : Text) : Except Unencodable Bytes := octetsFrom 0 t

/-- The character that the first octets encode, with the number of them. -/
def leadingChar? (bytes : Bytes) : Option (Char × Nat) :=
  [1, 2, 3, 4].findSome? fun count =>
    match Utf8.decode (bytes.take count) with
    | .ok [c] => some (c, count)
    | _ => none

def strayOctet (b : UInt8) : CodePoint :=
  .lone ⟨0x400 + b.toNat, by have := b.toNat_lt; omega⟩

/-- Reads octets after a number of them that belong to the character before. -/
def ofOctetsAfter : Nat → Bytes → Text
  | _, [] => []
  | count + 1, _ :: rest => ofOctetsAfter count rest
  | 0, b :: rest =>
    match leadingChar? (b :: rest) with
    | some (c, count) => .char c :: ofOctetsAfter (count - 1) rest
    | none => strayOctet b :: ofOctetsAfter 0 rest

/-- The text under which octets are listed. -/
def ofOctets (bytes : Bytes) : Text := ofOctetsAfter 0 bytes

example : ofOctets [0xC3, 0xA9, 0xC3, 0x61] = [.char 'é', strayOctet 0xC3, .char 'a'] := by
  decide +kernel
example : (octets [strayOctet 0xC3, strayOctet 0xA9]).toOption = some [0xC3, 0xA9] := by
  decide +kernel

end Text

def nameLimit : Nat := 255

def pathLimit : Nat := 4095

end LiveTemplates
