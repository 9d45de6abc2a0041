import LiveTemplates.Json.Basic
import LiveTemplates.Json.Fault

/-!
# Lexemes of JSON documents

A document is cut into lexemes from left to right. A lexeme that is faulty in itself, such as an
unterminated text, is kept as a token of its own, since it counts only where a reader could have
used it.
-/

namespace LiveTemplates

namespace Json

/-- The numeric constants that are no part of JSON. -/
inductive Constant where
  | nan
  | infinity
  | minusInfinity
deriving DecidableEq

def Constant.name : Constant → String
  | .nan => "NaN"
  | .infinity => "Infinity"
  | .minusInfinity => "-Infinity"

inductive Token where
  | openArray
  | closeArray
  | openObject
  | closeObject
  | comma
  | colon
  | text (t : Text)
  | atom (s : Scalar)
  | constant (c : Constant)
  /-- An integer with more digits than are read. -/
  | longInteger (digits : Nat)
  | flawed (flaw : Flaw)
  | other
deriving DecidableEq

/-- A token and the number of characters from its first one to the end of the document. -/
structure Lexeme where
  token : Token
  left : Nat
deriving DecidableEq

def isGap (c : Char) : Bool := c = ' ' || c = '\t' || c = '\n' || c = '\r'

section Texts

def hexDigit? (c : Char) : Option Nat :=
  if '0' ≤ c ∧ c ≤ '9' then some (c.toNat - '0'.toNat)
  else if 'a' ≤ c ∧ c ≤ 'f' then some (c.toNat - 'a'.toNat + 10)
  else if 'A' ≤ c ∧ c ≤ 'F' then some (c.toNat - 'A'.toNat + 10)
  else none

def hex4? : List Char → Option Nat
  | a :: b :: c :: d :: _ => do
    let a ← hexDigit? a
    let b ← hexDigit? b
    let c ← hexDigit? c
    let d ← hexDigit? d
    return ((a * 16 + b) * 16 + c) * 16 + d
  | _ => none

def shortEscape? : Char → Option Char
  | '"' => some '"'
  | '\\' => some '\\'
  | '/' => some '/'
  | 'b' => some '\x08'
  | 'f' => some '\x0c'
  | 'n' => some '\n'
  | 'r' => some '\r'
  | 't' => some '\t'
  | _ => none

def isHighSurrogate (n : Nat) : Bool := 0xD800 ≤ n && n < 0xDC00

def isLowSurrogate (n : Nat) : Bool := 0xDC00 ≤ n && n < 0xE000

def joinSurrogates (high low : Nat) : Nat := 0x10000 + (high - 0xD800) * 0x400 + (low - 0xDC00)

/-- The escape whose `u` is followed by `s`, and the number of characters it takes from the `u`
on. A high surrogate joins with a low one escaped right behind it. -/
def unicodeEscape (s : List Char) : Except Flaw (CodePoint × Nat) :=
  if s.length ≤ 4 then .error ⟨.unicodeEscape, s.length + 1⟩
  else
    match hex4? s with
    | none => .error ⟨.unicodeEscape, s.length + 1⟩
    | some high =>
      if isHighSurrogate high && 10 < s.length && (s.drop 4).take 2 == ['\\', 'u'] then
        match hex4? (s.drop 6) with
        | none => .error ⟨.unicodeEscape, s.length - 5⟩
        | some low =>
          if isLowSurrogate low then .ok (.ofValue (joinSurrogates high low), 11)
          else .ok (.ofValue high, 5)
      else .ok (.ofValue high, 5)

/-- The escape whose backslash is followed by `s`, and the number of characters it takes behind
the backslash. -/
def escape (opened : Nat) (s : List Char) : Except Flaw (CodePoint × Nat) :=
  match s with
  | [] => .error ⟨.unterminatedText, opened⟩
  | 'u' :: rest => unicodeEscape rest
  | c :: _ =>
    match shortEscape? c with
    | some d => .ok (.char d, 1)
    | none => .error ⟨.escape, s.length + 1⟩

/-- Reads a text up to its closing quote, after leaving out as many characters as an escape has
taken. `opened` is the number of characters left at the opening quote. -/
def scanText (opened : Nat) : Nat → List Char → Except Flaw (Text × List Char)
  | _, [] => .error ⟨.unterminatedText, opened⟩
  | taken + 1, _ :: rest => scanText opened taken rest
  | 0, c :: rest =>
    if c = '"' then .ok ([], rest)
    else if c = '\\' then
      match escape opened rest with
      | .error flaw => .error flaw
      | .ok (p, taken) => (scanText opened taken rest).map fun (t, after) => (p :: t, after)
    else if c.toNat < 0x20 then .error ⟨.controlCharacter, rest.length + 1⟩
    else (scanText opened 0 rest).map fun (t, after) => (.char c :: t, after)

end Texts

section Numbers

def digitLimit : Nat := 4300

def natOfDigits (digits : List Char) : Nat :=
  digits.foldl (fun n c => 10 * n + (c.toNat - '0'.toNat)) 0

def wholePart? : List Char → Option (List Char × List Char)
  | [] => none
  | c :: rest =>
    if c = '0' then some (['0'], rest)
    else if c.isDigit then some ((c :: rest).span Char.isDigit)
    else none

/-- The digits behind a point, if a point and a digit follow. -/
def fractionPart (s : List Char) : List Char × List Char :=
  match s with
  | '.' :: rest =>
    match rest.span Char.isDigit with
    | ([], _) => ([], s)
    | (digits, after) => (digits, after)
  | _ => ([], s)

/-- The power of ten, if an exponent mark with a digit follows. -/
def exponentPart (s : List Char) : Option Int × List Char :=
  match s with
  | mark :: rest =>
    if mark = 'e' ∨ mark = 'E' then
      let (negative, unsigned) :=
        match rest with
        | '-' :: tail => (true, tail)
        | '+' :: tail => (false, tail)
        | _ => (false, rest)
      match unsigned.span Char.isDigit with
      | ([], _) => (none, s)
      | (digits, after) =>
        let n : Int := natOfDigits digits
        (some (if negative then -n else n), after)
    else (none, s)
  | [] => (none, s)

/-- The number that begins the text; without a fraction and an exponent it is an integer. -/
def numeral? (s : List Char) : Option (Token × List Char) :=
  let (negative, unsigned) :=
    match s with
    | '-' :: rest => (true, rest)
    | _ => (false, s)
  match wholePart? unsigned with
  | none => none
  | some (whole, afterWhole) =>
    let (fraction, afterFraction) := fractionPart afterWhole
    let (exponent, after) := exponentPart afterFraction
    let token : Token :=
      match fraction, exponent with
      | [], none =>
        if digitLimit < whole.length then .longInteger whole.length
        else
          let n : Int := natOfDigits whole
          .atom (.number (.int (if negative then -n else n)))
      | _, _ =>
        .atom (.number (.float (.ofDecimal negative (natOfDigits (whole ++ fraction))
          (exponent.getD 0 - fraction.length))))
    some (token, after)

end Numbers

def words : List (List Char × Token) := [
  ("null".toList, .atom .null),
  ("true".toList, .atom (.bool true)),
  ("false".toList, .atom (.bool false)),
  ("NaN".toList, .constant .nan),
  ("Infinity".toList, .constant .infinity),
  ("-Infinity".toList, .constant .minusInfinity)
]

/-- The token that begins with `c`, and what follows it. Nothing is read behind a flawed one. -/
def tokenAt (c : Char) (rest : List Char) : Token × List Char :=
  match c with
  | '[' => (.openArray, rest)
  | ']' => (.closeArray, rest)
  | '\x7b' => (.openObject, rest)
  | '\x7d' => (.closeObject, rest)
  | ',' => (.comma, rest)
  | ':' => (.colon, rest)
  | '"' =>
    match scanText (rest.length + 1) 0 rest with
    | .ok (t, after) => (.text t, after)
    | .error flaw => (.flawed flaw, [])
  | _ =>
    match words.find? fun (word, _) => word.isPrefixOf (c :: rest) with
    | some (word, token) => (token, (c :: rest).drop word.length)
    | none => (numeral? (c :: rest)).getD (.other, rest)

/-- The lexemes of a document, after leaving out as many characters as the last one has taken. -/
def lexemesFrom : Nat → List Char → List Lexeme
  | _, [] => []
  | taken + 1, _ :: rest => lexemesFrom taken rest
  | 0, c :: rest =>
    if isGap c then lexemesFrom 0 rest
    else
      let (token, after) := tokenAt c rest
      ⟨token, rest.length + 1⟩ :: lexemesFrom (rest.length - after.length) rest

def lexemes (document : List Char) : List Lexeme := lexemesFrom 0 document

end Json

end LiveTemplates
