/-!
# SHA-1

The digest of a sequence of octets. The message is padded to blocks of sixteen words; each block
goes through eighty rounds, for which sixteen words of the schedule are held at a time.
-/

namespace LiveTemplates

namespace Sha1

structure Digest where
  a : UInt32
  b : UInt32
  c : UInt32
  d : UInt32
  e : UInt32
deriving DecidableEq

def rotate (x : UInt32) (n : UInt32) : UInt32 := (x <<< n) ||| (x >>> (32 - n))

def start : Digest := ⟨0x67452301, 0xEFCDAB89, 0x98BADCFE, 0x10325476, 0xC3D2E1F0⟩

def mix (round : Nat) (s : Digest) : UInt32 × UInt32 :=
  if round < 20 then ((s.b &&& s.c) ||| (s.b ^^^ 0xFFFFFFFF) &&& s.d, 0x5A827999)
  else if round < 40 then (s.b ^^^ s.c ^^^ s.d, 0x6ED9EBA1)
  else if round < 60 then ((s.b &&& s.c) ||| (s.b &&& s.d) ||| (s.c &&& s.d), 0x8F1BBCDC)
  else (s.b ^^^ s.c ^^^ s.d, 0xCA62C1D6)

def step (round : Nat) (word : UInt32) (s : Digest) : Digest :=
  let (mixed, constant) := mix round s
  ⟨rotate s.a 5 + mixed + s.e + constant + word, s.a, rotate s.b 30, s.c, s.d⟩

/-- The words of the schedule that follow a window of sixteen. -/
def slide (window : List UInt32) : List UInt32 :=
  let word (i : Nat) : UInt32 := window.getD i 0
  window.drop 1 ++ [rotate (word 13 ^^^ word 8 ^^^ word 2 ^^^ word 0) 1]

def rounds : Nat → List UInt32 → Digest → Digest
  | 0, _, s => s
  | left + 1, window, s => rounds left (slide window) (step (79 - left) (window.getD 0 0) s)

def compress (s : Digest) (block : List UInt32) : Digest :=
  let r := rounds 80 block s
  ⟨s.a + r.a, s.b + r.b, s.c + r.c, s.d + r.d, s.e + r.e⟩

def words : List UInt8 → List UInt32
  | a :: b :: c :: d :: rest =>
    ((a.toUInt32 <<< 24) ||| (b.toUInt32 <<< 16) ||| (c.toUInt32 <<< 8) ||| d.toUInt32) ::
      words rest
  | _ => []

def lengthOctets (octets : Nat) : List UInt8 :=
  (List.range 8).map fun i => UInt8.ofNat (8 * octets / Nat.pow 256 (7 - i))

def pad (message : List UInt8) : List UInt8 :=
  let n := message.length
  message ++ 0x80 :: List.replicate ((119 - n % 64) % 64) 0 ++ lengthOctets n

def blocks : Nat → List UInt32 → List (List UInt32)
  | 0, _ => []
  | n + 1, ws => ws.take 16 :: blocks n (ws.drop 16)

def digest (message : List UInt8) : Digest :=
  let ws := words (pad message)
  (blocks (ws.length / 16) ws).foldl compress start

example : digest [] = ⟨0xDA39A3EE, 0x5E6B4B0D, 0x3255BFEF, 0x95601890, 0xAFD80709⟩ := by
  decide +kernel

example : digest [0x61, 0x62, 0x63] =
    ⟨0xA9993E36, 0x4706816A, 0xBA3E2571, 0x7850C26C, 0x9CD0D89D⟩ := by
  decide +kernel

end Sha1

end LiveTemplates
