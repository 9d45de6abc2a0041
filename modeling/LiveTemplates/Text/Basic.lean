/-!
# Texts of code points

A text is a sequence of code points. Besides characters it may hold a lone surrogate, which an
escape in a document can spell although no character corresponds to it.
-/

namespace LiveTemplates

inductive CodePoint where
  | char (c : Char)
  /-- The surrogate `0xD800 + offset`, without the partner that would make it half a character. -/
  | lone (offset : Fin 2048)
deriving DecidableEq, Inhabited

abbrev Text := List CodePoint

instance : LawfulBEq Text := inferInstance

namespace CodePoint

def value : CodePoint → Nat
  | .char c => c.toNat
  | .lone offset => 0xD800 + offset.val

/-- The code point of a value, where values beyond the last one stand for the null character. -/
def ofValue (n : Nat) : CodePoint :=
  if h : 0xD800 ≤ n ∧ n < 0xE000 then .lone ⟨n - 0xD800, by omega⟩ else .char (Char.ofNat n)

def isLone : CodePoint → Bool
  | .char _ => false
  | .lone _ => true

end CodePoint

namespace Text

def ofChars (cs : List Char) : Text := cs.map .char

def ofString (s : String) : Text := ofChars s.toList

instance : Coe String Text := ⟨ofString⟩

/-- The characters of a text without lone surrogates. -/
def chars? (t : Text) : Option (List Char) :=
  t.mapM fun
    | .char c => some c
    | .lone _ => none

def ofNat (n : Nat) : Text := ofChars (Nat.toDigits 10 n)

def ofInt (i : Int) : Text :=
  if i < 0 then .char '-' :: ofNat i.natAbs else ofNat i.natAbs

/-- Lower-case hexadecimal digits, with zeros in front up to the given width. -/
def hex (width n : Nat) : Text :=
  let digits := Nat.toDigits 16 n
  ofChars (List.replicate (width - digits.length) '0' ++ digits)

/-- The order by code points, position by position; a proper beginning comes first. -/
def precedes : Text → Text → Bool
  | _, [] => false
  | [], _ :: _ => true
  | a :: s, b :: t =>
    if a.value < b.value then true
    else if b.value < a.value then false
    else precedes s t

def intercalate (separator : Text) : List Text → Text
  | [] => []
  | [t] => t
  | t :: rest => t ++ separator ++ intercalate separator rest

end Text

end LiveTemplates
