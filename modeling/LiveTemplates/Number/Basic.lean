import LiveTemplates.Number.Shortest

/-!
# Numbers of documents

A number is an integer of any size or a binary floating-point number. Numbers of both kinds are
compared by their exact values, so an integer and a float may be the same number.
-/

namespace LiveTemplates

inductive Number where
  | int (i : Int)
  | float (x : Binary64)
deriving DecidableEq, Inhabited

/-- The exact value of a number, `mantissa · 2 ^ exponent` if it is finite. -/
inductive ExactValue where
  | minusInfinity
  | dyadic (mantissa exponent : Int)
  | plusInfinity

namespace ExactValue

def ofBinary64 : Binary64 → ExactValue
  | .infinite true => .minusInfinity
  | .infinite false => .plusInfinity
  | .finite true mantissa exponent => .dyadic (-mantissa) exponent
  | .finite false mantissa exponent => .dyadic mantissa exponent

/-- The mantissas of two values over the smaller of their exponents. -/
def aligned (m₁ e₁ m₂ e₂ : Int) : Int × Int :=
  if e₁ ≤ e₂ then (m₁, m₂ * (Nat.pow 2 (e₂ - e₁).toNat : Nat))
  else (m₁ * (Nat.pow 2 (e₁ - e₂).toNat : Nat), m₂)

def less : ExactValue → ExactValue → Bool
  | .minusInfinity, .minusInfinity => false
  | .minusInfinity, _ => true
  | .plusInfinity, _ => false
  | .dyadic .., .minusInfinity => false
  | .dyadic .., .plusInfinity => true
  | .dyadic m₁ e₁, .dyadic m₂ e₂ =>
    let (a, b) := aligned m₁ e₁ m₂ e₂
    a < b

def same : ExactValue → ExactValue → Bool
  | .minusInfinity, .minusInfinity => true
  | .plusInfinity, .plusInfinity => true
  | .dyadic m₁ e₁, .dyadic m₂ e₂ =>
    let (a, b) := aligned m₁ e₁ m₂ e₂
    a == b
  | _, _ => false

end ExactValue

namespace Number

def exact : Number → ExactValue
  | .int i => .dyadic i 0
  | .float x => .ofBinary64 x

def less (a b : Number) : Bool := a.exact.less b.exact

def same (a b : Number) : Bool := a.exact.same b.exact

def isInfinite : Number → Bool
  | .float (.infinite _) => true
  | _ => false

def text : Number → Text
  | .int i => Text.ofInt i
  | .float x => x.text

end Number

end LiveTemplates
