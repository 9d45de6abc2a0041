/-!
# Binary floating-point numbers

A finite number of the format is `± mantissa · 2 ^ exponent` with a mantissa below `2 ^ 53` and an
exponent between `-1074` and `971`. A decimal is read as the nearest such number, of two equally
near ones as the one with the even mantissa, and beyond the largest one as an infinity.
-/

namespace LiveTemplates

inductive Binary64 where
  | finite (negative : Bool) (mantissa : Nat) (exponent : Int)
  | infinite (negative : Bool)
deriving DecidableEq, Inhabited

/-- The quotient rounded to the nearest integer, a half to the even one. -/
def roundQuotient (num den : Nat) : Nat :=
  let q := num / den
  let r := num % den
  if 2 * r < den then q else if den < 2 * r then q + 1 else q + q % 2

namespace Binary64

/-- The mantissas have 53 bits. -/
def mantissaBound : Nat := 9007199254740992

def leastExponent : Int := -1074
def greatestExponent : Int := 971

def zero (negative : Bool) : Binary64 := .finite negative 0 leastExponent

/-- Numerator and denominator of `num / den / 2 ^ e`. -/
def unscaled (num den : Nat) (e : Int) : Nat × Nat :=
  if 0 ≤ e then (num, den * Nat.pow 2 e.toNat) else (num * Nat.pow 2 (-e).toNat, den)

/-- The exponent at which the mantissa of a positive quotient has 53 bits, unless it lies below
the least one. -/
def exponentFor (num den : Nat) : Int :=
  let e : Int := (num.log2 : Int) - den.log2 - 53
  let (n, d) := unscaled num den e
  max leastExponent (if n / d < mantissaBound then e else e + 1)

/-- The number nearest to the positive quotient `num / den`. -/
def ofQuotient (negative : Bool) (num den : Nat) : Binary64 :=
  let e := exponentFor num den
  let (n, d) := unscaled num den e
  let m := roundQuotient n d
  let (m, e) := if m = mantissaBound then (mantissaBound / 2, e + 1) else (m, e)
  if greatestExponent < e then .infinite negative else .finite negative m e

/-- The number nearest to `± digits · 10 ^ exponent`. Decimals far outside of the format's range
are told by their magnitude alone. -/
def ofDecimal (negative : Bool) (digits : Nat) (exponent : Int) : Binary64 :=
  if digits = 0 then zero negative
  else
    let magnitude : Int := (Nat.toDigits 10 digits).length + exponent
    if 400 < magnitude then .infinite negative
    else if magnitude < -400 then zero negative
    else if 0 ≤ exponent then ofQuotient negative (digits * Nat.pow 10 exponent.toNat) 1
    else ofQuotient negative digits (Nat.pow 10 (-exponent).toNat)

example : ofDecimal false 1 (-1) = .finite false 7205759403792794 (-56) := by decide +kernel
example : ofDecimal false 1 400 = .infinite false := by decide +kernel
example : ofDecimal true 5 (-324) = .finite true 1 (-1074) := by decide +kernel
example : ofDecimal false 9007199254740993 0 = .finite false 4503599627370496 1 := by decide +kernel

end Binary64

end LiveTemplates
