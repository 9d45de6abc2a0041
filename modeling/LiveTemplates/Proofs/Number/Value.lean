import Mathlib.Algebra.Order.Field.Power
import Mathlib.Algebra.Order.Monoid.WithTop
import Mathlib.Data.Rat.Cast.Order
import Mathlib.Tactic.NormNum
import LiveTemplates.Template.Same

/-!
# The values of numbers

A number has an exact value, which is rational unless the number is infinite. Numbers are the same
if and only if their values are, whether they are integers or floats and however far apart their
exponents lie. A truth value counts as the number zero or one.
-/

namespace LiveTemplates

/-- The rational numbers with an infinity at either end. -/
abbrev Extended := WithBot (WithTop ℚ)

namespace ExactValue

def value : ExactValue → Extended
  | .minusInfinity => ⊥
  | .dyadic mantissa exponent => ((mantissa * 2 ^ exponent : ℚ) : WithTop ℚ)
  | .plusInfinity => ((⊤ : WithTop ℚ) : Extended)

/-- Over the smaller exponent, mantissas are equal if the numbers are. -/
theorem aligned_eq_iff (m₁ e₁ m₂ e₂ : Int) :
    (aligned m₁ e₁ m₂ e₂).1 = (aligned m₁ e₁ m₂ e₂).2 ↔
      (m₁ * 2 ^ e₁ : ℚ) = m₂ * 2 ^ e₂ := by
  have hpos : ∀ e : Int, (2 : ℚ) ^ e ≠ 0 := fun e => zpow_ne_zero e (by norm_num)
  have hshift : ∀ (m e e' : Int), e ≤ e' →
      (m * 2 ^ e' : ℚ) = (m * (Nat.pow 2 (e' - e).toNat : Nat) : Int) * 2 ^ e := by
    intro m e e' hle
    have hexponent : e' = ((e' - e).toNat : Int) + e := by omega
    calc (m * 2 ^ e' : ℚ) = m * (2 ^ ((e' - e).toNat : Int) * 2 ^ e) := by
          rw [← zpow_add₀ (by norm_num), ← hexponent]
      _ = (m * (Nat.pow 2 (e' - e).toNat : Nat) : Int) * 2 ^ e := by
          push_cast [Nat.pow_eq]
          rw [zpow_natCast, mul_assoc]
  unfold aligned
  split
  · rw [hshift m₂ e₁ e₂ ‹_›, mul_left_inj' (hpos e₁)]
    exact Int.cast_inj.symm
  · rw [hshift m₁ e₂ e₁ (by omega), mul_left_inj' (hpos e₂)]
    exact Int.cast_inj.symm

theorem value_dyadic_ne_minusInfinity (m e : Int) :
    (dyadic m e).value ≠ minusInfinity.value := WithBot.coe_ne_bot

theorem value_dyadic_ne_plusInfinity (m e : Int) : (dyadic m e).value ≠ plusInfinity.value :=
  fun h => WithTop.coe_ne_top (WithBot.coe_injective h)

theorem value_plusInfinity_ne_minusInfinity : plusInfinity.value ≠ minusInfinity.value :=
  WithBot.coe_ne_bot

theorem same_iff (a b : ExactValue) : a.same b = true ↔ a.value = b.value := by
  cases a with
  | dyadic m₁ e₁ =>
    cases b with
    | dyadic m₂ e₂ =>
      rw [same, value, value, WithBot.coe_inj, WithTop.coe_inj, ← aligned_eq_iff]
      exact beq_iff_eq
    | minusInfinity => simp [same, value_dyadic_ne_minusInfinity]
    | plusInfinity => simp [same, value_dyadic_ne_plusInfinity]
  | minusInfinity =>
    cases b with
    | minusInfinity => simp [same]
    | dyadic => simp [same, (value_dyadic_ne_minusInfinity _ _).symm]
    | plusInfinity => simp [same, value_plusInfinity_ne_minusInfinity.symm]
  | plusInfinity =>
    cases b with
    | plusInfinity => simp [same]
    | dyadic => simp [same, (value_dyadic_ne_plusInfinity _ _).symm]
    | minusInfinity => simp [same, value_plusInfinity_ne_minusInfinity]

end ExactValue

namespace Number

def value (n : Number) : Extended := n.exact.value

theorem value_int (i : Int) : (int i).value = ((i : ℚ) : WithTop ℚ) := by
  simp [value, exact, ExactValue.value]

theorem same_iff (m n : Number) : m.same n = true ↔ m.value = n.value :=
  ExactValue.same_iff m.exact n.exact

/-- An integer of more than 53 bits differs from the float next to it. -/
example : (int 9007199254740993).same (.float (.ofDecimal false 9007199254740993 0)) = false := by
  decide +kernel

end Number

inductive CanonicalScalar where
  | null
  | number (value : Extended)
  | text (t : Text)

namespace Scalar

def canonical : Scalar → CanonicalScalar
  | .null => .null
  | .bool b => .number (if b then 1 else 0)
  | .number n => .number n.value
  | .text t => .text t

theorem canonical_of_number? {s : Scalar} {n : Number} (h : s.number? = some n) :
    s.canonical = .number n.value := by
  cases s with
  | null | text => cases h
  | number => exact congrArg (CanonicalScalar.number ·.value) (Option.some.inj h)
  | bool b =>
    obtain rfl := Option.some.inj h
    cases b with
    | false => simp [canonical, Number.value_int]
    | true => simp [canonical, Number.value_int]

theorem same_iff (a b : Scalar) : a.same b = true ↔ a.canonical = b.canonical := by
  have hnumbers : ∀ {m n : Number}, a.number? = some m → b.number? = some n →
      (m.same n = true ↔ a.canonical = b.canonical) := by
    intro m n ha hb
    rw [Number.same_iff, canonical_of_number? ha, canonical_of_number? hb,
      CanonicalScalar.number.injEq]
  cases a with
  | null => cases b <;> simp [same, number?, canonical]
  | text t => cases b <;> simp [same, number?, canonical]
  | number m =>
    cases b with
    | number | bool => exact hnumbers rfl rfl
    | null | text => simp [same, number?, canonical]
  | bool x =>
    cases b with
    | number | bool => exact hnumbers rfl rfl
    | null | text => simp [same, number?, canonical]

end Scalar

end LiveTemplates
