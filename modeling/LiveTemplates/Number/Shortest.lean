import LiveTemplates.Number.Binary64
import LiveTemplates.Text.Basic

/-!
# Shortest decimals

A number is printed with the fewest digits that read back as the same number and, of the decimals
with that many digits, as the one nearest to it. Exponents from `-4` to `15` are written
positionally.
-/

namespace LiveTemplates

/-- The value `digits · 10 ^ exponent`. -/
structure Decimal where
  digits : Nat
  exponent : Int
deriving DecidableEq

namespace Binary64

/-- Numerator and denominator of `mantissa · 2 ^ exponent`. -/
def quotient (mantissa : Nat) (exponent : Int) : Nat × Nat :=
  if 0 ≤ exponent then (mantissa * Nat.pow 2 exponent.toNat, 1)
  else (mantissa, Nat.pow 2 (-exponent).toNat)

/-- Numerator and denominator of `num / den / 10 ^ k`. -/
def onGrid (num den : Nat) (k : Int) : Nat × Nat :=
  if 0 ≤ k then (num, den * Nat.pow 10 k.toNat) else (num * Nat.pow 10 (-k).toNat, den)

/-- The exponent of the leading decimal digit of a positive quotient. -/
def decimalExponent (num den : Nat) : Int :=
  let e : Int := (num.log2 : Int) - den.log2
  let t : Int := (e - 1) * 30103 / 100000 - 1
  ([t + 3, t + 2, t + 1].find? fun k =>
    let (n, d) := onGrid num den k
    decide (d ≤ n)).getD t

def readsBack (mantissa : Nat) (exponent : Int) (d : Decimal) : Bool :=
  ofDecimal false d.digits d.exponent = .finite false mantissa exponent

/-- Of the two multiples of `10 ^ k` next to the number the nearer one that reads back. -/
def nearestOnGrid? (mantissa : Nat) (exponent k : Int) : Option Decimal :=
  let (num, den) := quotient mantissa exponent
  let (n, d) := onGrid num den k
  let nearer := roundQuotient n d
  let other := if nearer = n / d then nearer + 1 else n / d
  [⟨nearer, k⟩, ⟨other, k⟩].find? (readsBack mantissa exponent)

/-- The decimal with the fewest digits that reads back, for a positive mantissa. -/
def shortest (mantissa : Nat) (exponent : Int) : Decimal :=
  let (num, den) := quotient mantissa exponent
  let top := decimalExponent num den
  ((List.range 17).findSome? fun (extra : Nat) =>
    nearestOnGrid? mantissa exponent (top - extra)).getD ⟨mantissa, exponent⟩

/-- How a decimal is laid out: the range of leading exponents written positionally, and the least
number of exponent digits. -/
structure Layout where
  lowest : Int
  highest : Int
  exponentWidth : Nat

def layout : Layout := ⟨-4, 15, 2⟩

/-- The text of `0.d₁d₂… · 10 ^ point`, always with a point or an exponent. -/
def Layout.place (l : Layout) (digits : List Char) (point : Int) : Text :=
  let leading := point - 1
  let zeros (n : Int) : List Char := List.replicate n.toNat '0'
  if l.lowest ≤ leading ∧ leading ≤ l.highest then
    if point ≤ 0 then Text.ofChars ('0' :: '.' :: zeros (-point) ++ digits)
    else if (digits.length : Int) ≤ point then
      Text.ofChars (digits ++ zeros (point - digits.length) ++ ['.', '0'])
    else Text.ofChars (digits.take point.toNat ++ '.' :: digits.drop point.toNat)
  else
    let shown := Nat.toDigits 10 leading.natAbs
    let width := zeros (l.exponentWidth - shown.length)
    Text.ofChars ((match digits with
        | [] => []
        | [d] => [d]
        | d :: rest => d :: '.' :: rest) ++
      'e' :: (if leading < 0 then '-' else '+') :: width ++ shown)

def Layout.text (l : Layout) (d : Decimal) : Text :=
  let all := Nat.toDigits 10 d.digits
  let digits := (all.reverse.dropWhile (· = '0')).reverse
  l.place digits (d.exponent + all.length)

def text : Binary64 → Text
  | .infinite negative => if negative then "-inf" else "inf"
  | .finite negative mantissa exponent =>
    let unsigned : Text := if mantissa = 0 then "0.0" else layout.text (shortest mantissa exponent)
    if negative then .char '-' :: unsigned else unsigned

example : text (ofDecimal false 1 (-1)) = "0.1" := by decide +kernel
example : text (ofDecimal true 0 0) = "-0.0" := by decide +kernel
example : text (ofDecimal false 1 16) = "1e+16" := by decide +kernel
example : text (ofDecimal false 12345678901234567 0) = "1.2345678901234568e+16" := by
  decide +kernel
example : text (ofDecimal false 1 (-5)) = "1e-05" := by decide +kernel
example : text (ofDecimal false 3 (-324)) = "5e-324" := by decide +kernel
example : text (ofDecimal false 1 15) = "1000000000000000.0" := by decide +kernel

end Binary64

end LiveTemplates
