import Mathlib.Algebra.Order.Field.Power
import Mathlib.Data.Rat.Cast.Order
import Mathlib.Tactic.FieldSimp
import Mathlib.Tactic.Linarith
import Mathlib.Tactic.NormNum
import Mathlib.Tactic.Positivity
import Mathlib.Tactic.Ring
import LiveTemplates.Number.Binary64

/-!
# Which decimals are read as infinities

The largest finite number is `(2 ^ 53 - 1) · 2 ^ 971`. A decimal is read as an infinity if it is at
least as large as this and half of a unit in the last place, where the nearest even mantissa is one
too many. Both the rounding and the shortcuts for decimals of extreme magnitude keep to this bound.
-/

namespace LiveTemplates

namespace Binary64

/-- The least magnitude that is no longer rounded to a finite number. -/
def overflow : ℚ := (2 ^ 54 - 1) * 2 ^ 970

section Bound

theorem lt_overflow : (2 : ℚ) ^ 53 * 2 ^ 970 < overflow := by
  have hpos : (0 : ℚ) < 2 ^ 970 := by positivity
  rw [overflow]
  gcongr
  norm_num

theorem overflow_le : overflow ≤ (2 : ℚ) ^ 54 * 2 ^ 970 := by
  have hpos : (0 : ℚ) < 2 ^ 970 := by positivity
  rw [overflow]
  gcongr
  norm_num

theorem one_lt_overflow : 1 < overflow := by
  have hpow : (1 : ℚ) ≤ 2 ^ 970 := one_le_pow₀ (by norm_num)
  calc (1 : ℚ) < 2 ^ 53 * 1 := by norm_num
    _ ≤ 2 ^ 53 * 2 ^ 970 := by gcongr
    _ < overflow := lt_overflow

theorem overflow_le_ten_pow : overflow ≤ (10 : ℚ) ^ 400 := by
  calc overflow ≤ 2 ^ 54 * 2 ^ 970 := overflow_le
    _ = 2 ^ 1024 := (pow_add 2 54 970).symm
    _ ≤ 2 ^ (13 * 79) := pow_le_pow_right₀ (by norm_num) (by norm_num)
    _ = (2 ^ 13) ^ 79 := pow_mul 2 13 79
    _ ≤ (10 ^ 4) ^ 79 := pow_le_pow_left₀ (by norm_num) (by norm_num) 79
    _ = 10 ^ (4 * 79) := (pow_mul 10 4 79).symm
    _ ≤ 10 ^ 400 := pow_le_pow_right₀ (by norm_num) (by norm_num)

end Bound

section Quotients

variable {num den : Nat} {e : Int}

def scaled (num den : Nat) (e : Int) : ℚ := (num / den : ℚ) / 2 ^ e

theorem scaled_eq (num den : Nat) (e : Int) :
    scaled num den e = ((unscaled num den e).1 : ℚ) / ((unscaled num den e).2 : ℚ) := by
  unfold scaled unscaled
  split
  · rename_i he
    obtain ⟨k, rfl⟩ := Int.eq_ofNat_of_zero_le he
    simp [zpow_natCast, div_div]
  · rename_i he
    obtain ⟨k, hk⟩ := Int.eq_ofNat_of_zero_le (show 0 ≤ -e by omega)
    obtain rfl : e = -(k : Int) := by omega
    simp [zpow_neg, zpow_natCast, div_mul_eq_mul_div]

theorem unscaled_pos (hden : 0 < den) (e : Int) : 0 < (unscaled num den e).2 := by
  unfold unscaled
  split
  · exact Nat.mul_pos hden (Nat.pow_pos (by decide))
  · exact hden

/-- The integer part of a scaled quotient. -/
theorem le_div_iff_scaled (hden : 0 < den) (k : Nat) :
    k ≤ (unscaled num den e).1 / (unscaled num den e).2 ↔ (k : ℚ) ≤ scaled num den e := by
  have hpos : 0 < (unscaled num den e).2 := unscaled_pos hden e
  have hcast : (0 : ℚ) < (unscaled num den e).2 := by exact_mod_cast hpos
  rw [Nat.le_div_iff_mul_le hpos, scaled_eq, le_div_iff₀ hcast]
  exact_mod_cast Iff.rfl

theorem scaled_succ (num den : Nat) (e : Int) : scaled num den (e + 1) = scaled num den e / 2 := by
  unfold scaled
  rw [zpow_add_one₀ (by norm_num), div_div, div_div]
  ring

theorem scaled_anti {e' : Int} (h : e ≤ e') : scaled num den e' ≤ scaled num den e := by
  unfold scaled
  have hpow : (2 : ℚ) ^ e ≤ 2 ^ e' := zpow_le_zpow_right₀ (by norm_num) h
  have hpos : (0 : ℚ) < 2 ^ e := by positivity
  exact div_le_div_of_nonneg_left (by positivity) hpos hpow

theorem eq_scaled_mul (num den : Nat) (e : Int) : (num / den : ℚ) = scaled num den e * 2 ^ e := by
  have hpos : (2 : ℚ) ^ e ≠ 0 := by positivity
  rw [scaled, div_mul_cancel₀ _ hpos]

/-- The first exponent that is tried is one too small at most. -/
theorem scaled_log2 (hnum : 0 < num) (hden : 0 < den) :
    2 ^ 52 ≤ scaled num den ((num.log2 : Int) - den.log2 - 53) ∧
      scaled num den ((num.log2 : Int) - den.log2 - 53) < 2 ^ 54 := by
  obtain ⟨a, ha⟩ : ∃ a, a = num.log2 := ⟨_, rfl⟩
  obtain ⟨b, hb⟩ : ∃ b, b = den.log2 := ⟨_, rfl⟩
  have hnumLow : (2 : ℚ) ^ a ≤ num := by
    exact_mod_cast ha ▸ Nat.log2_self_le (Nat.ne_of_gt hnum)
  have hnumHigh : (num : ℚ) < 2 ^ (a + 1) := by exact_mod_cast ha ▸ Nat.lt_log2_self
  have hdenLow : (2 : ℚ) ^ b ≤ den := by
    exact_mod_cast hb ▸ Nat.log2_self_le (Nat.ne_of_gt hden)
  have hdenHigh : (den : ℚ) < 2 ^ (b + 1) := by exact_mod_cast hb ▸ Nat.lt_log2_self
  rw [← ha, ← hb]
  have hpow : (2 : ℚ) ^ ((a : Int) - b - 53) * 2 ^ b * 2 ^ 53 = 2 ^ a := by
    rw [← zpow_natCast, ← zpow_natCast, ← zpow_natCast, ← zpow_add₀ (by norm_num),
      ← zpow_add₀ (by norm_num)]
    congr 1
    push_cast
    ring
  obtain ⟨t, ht⟩ : ∃ t : ℚ, t = 2 ^ ((a : Int) - b - 53) := ⟨_, rfl⟩
  have hpos : 0 < t := ht ▸ by positivity
  have hdenPos : (0 : ℚ) < den := by exact_mod_cast hden
  rw [← ht] at hpow
  rw [scaled, ← ht, div_div, le_div_iff₀ (by positivity), div_lt_iff₀ (by positivity)]
  rw [pow_succ] at hnumHigh hdenHigh
  constructor
  · calc (2 : ℚ) ^ 52 * (den * t) ≤ 2 ^ 52 * (2 ^ b * 2 * t) := by gcongr
      _ = t * 2 ^ b * 2 ^ 53 := by ring
      _ ≤ num := hpow ▸ hnumLow
  · calc (num : ℚ) < 2 ^ a * 2 := hnumHigh
      _ = 2 ^ 54 * (2 ^ b * t) := by rw [← hpow]; ring
      _ ≤ 2 ^ 54 * (den * t) := by gcongr

/-- The mantissa has at most 53 bits, and no fewer unless the exponent is the least one. -/
theorem scaled_exponentFor (hnum : 0 < num) (hden : 0 < den) :
    scaled num den (exponentFor num den) < 2 ^ 53 ∧
      (exponentFor num den = leastExponent ∨ 2 ^ 52 ≤ scaled num den (exponentFor num den)) := by
  obtain ⟨hlow, hhigh⟩ := scaled_log2 hnum hden
  obtain ⟨e, he⟩ : ∃ e, e = (num.log2 : Int) - den.log2 - 53 := ⟨_, rfl⟩
  rw [← he] at hlow hhigh
  obtain ⟨f, hf, hexponent⟩ : ∃ f, (2 ^ 52 ≤ scaled num den f ∧ scaled num den f < 2 ^ 53) ∧
      exponentFor num den = max leastExponent f := by
    have hfloor : mantissaBound ≤ (unscaled num den e).1 / (unscaled num den e).2 ↔
        ((mantissaBound : Nat) : ℚ) ≤ scaled num den e := le_div_iff_scaled hden mantissaBound
    have hbound : ((mantissaBound : Nat) : ℚ) = 2 ^ 53 := by norm_num [mantissaBound]
    rw [hbound] at hfloor
    unfold exponentFor
    rw [← he]
    by_cases hsmall : (unscaled num den e).1 / (unscaled num den e).2 < mantissaBound
    · refine ⟨e, ⟨hlow, ?_⟩, by simp only [if_pos hsmall]⟩
      exact not_le.1 (mt hfloor.2 (Nat.not_le.2 hsmall))
    · refine ⟨e + 1, ?_, by simp only [if_neg hsmall]⟩
      have hlarge := hfloor.1 (Nat.not_lt.1 hsmall)
      rw [scaled_succ]
      constructor <;> linarith
  rw [hexponent]
  rcases le_total leastExponent f with hle | hle
  · rw [max_eq_right hle]
    exact ⟨hf.2, .inr hf.1⟩
  · rw [max_eq_left hle]
    exact ⟨lt_of_le_of_lt (scaled_anti hle) hf.2, .inl rfl⟩

end Quotients

section Rounding

/-- A mantissa is rounded to one that is too large from half a unit below it on, since the largest
mantissa is odd. -/
theorem roundQuotient_eq_mantissaBound_iff {n d : Nat} (hd : 0 < d) (h : n / d < mantissaBound) :
    roundQuotient n d = mantissaBound ↔ (2 * mantissaBound - 1) * d ≤ 2 * n := by
  obtain ⟨q, hq⟩ : ∃ q, q = n / d := ⟨_, rfl⟩
  obtain ⟨r, hr⟩ : ∃ r, r = n % d := ⟨_, rfl⟩
  have hn : n = d * q + r := by rw [hq, hr, Nat.div_add_mod]
  have hrd : r < d := hr ▸ Nat.mod_lt n hd
  unfold roundQuotient
  rw [← hq] at h ⊢
  rw [← hr]
  by_cases hlast : q = mantissaBound - 1
  · have hproduct : (2 * mantissaBound - 1) * d = 2 * (d * q) + d := by
      have hodd : 2 * mantissaBound - 1 = 2 * q + 1 := by
        rw [hlast]
        decide
      rw [hodd]
      ring
    have hparity : q % 2 = 1 := by
      rw [hlast]
      decide
    rw [hproduct, hn]
    dsimp only
    split
    · omega
    split
    · omega
    · omega
  · have hbelow : 2 * q + 2 ≤ 2 * mantissaBound - 2 := by omega
    have hproduct := Nat.mul_le_mul_right d hbelow
    have hexpand : (2 * q + 2) * d = 2 * (d * q) + 2 * d := by ring
    have hunit : (2 * mantissaBound - 1) * d = (2 * mantissaBound - 2) * d + d := by
      have hsucc : 2 * mantissaBound - 1 = (2 * mantissaBound - 2) + 1 := by decide
      rw [hsucc]
      ring
    have hparity := Nat.mod_lt q (show 2 > 0 by decide)
    dsimp only
    constructor
    · intro hround
      split at hround
      · omega
      split at hround <;> omega
    · intro hle
      omega

variable {num den : Nat} {negative : Bool}

/-- The largest exponent is exceeded, or it is reached with the largest mantissa rounded up. -/
theorem ofQuotient_infinite_iff_exponent :
    (∃ s, ofQuotient negative num den = .infinite s) ↔
      greatestExponent < exponentFor num den ∨ exponentFor num den = greatestExponent ∧
        roundQuotient (unscaled num den (exponentFor num den)).1
          (unscaled num den (exponentFor num den)).2 = mantissaBound := by
  unfold ofQuotient
  dsimp only
  by_cases hround : roundQuotient (unscaled num den (exponentFor num den)).1
      (unscaled num den (exponentFor num den)).2 = mantissaBound
  · simp only [if_pos hround]
    split
    · simp only [infinite.injEq, exists_eq', true_iff]
      omega
    · simp only [reduceCtorEq, exists_false, false_iff]
      omega
  · simp only [if_neg hround]
    split
    · simp only [infinite.injEq, exists_eq', true_iff]
      exact .inl ‹_›
    · simp only [reduceCtorEq, exists_false, false_iff]
      omega

/-- Below the greatest exponent, no mantissa is large enough. -/
theorem lt_overflow_of_lt {e : Int} (hmantissa : scaled num den e < 2 ^ 53)
    (h : e < greatestExponent) : (num / den : ℚ) < overflow := by
  have hpos : (0 : ℚ) < 2 ^ e := by positivity
  have hpow : (2 : ℚ) ^ e ≤ 2 ^ 970 := by
    have hbound : greatestExponent = 971 := rfl
    rw [← zpow_natCast]
    exact zpow_le_zpow_right₀ (by norm_num) (by omega)
  calc (num / den : ℚ) = scaled num den e * 2 ^ e := eq_scaled_mul num den e
    _ < 2 ^ 53 * 2 ^ e := by gcongr
    _ ≤ 2 ^ 53 * 2 ^ 970 := by gcongr
    _ < overflow := lt_overflow

/-- Above the greatest exponent, every mantissa that is not short is large enough. -/
theorem overflow_le_of_gt {e : Int} (hmantissa : 2 ^ 52 ≤ scaled num den e)
    (h : greatestExponent < e) : overflow ≤ (num / den : ℚ) := by
  have hpow : (2 : ℚ) ^ 972 ≤ 2 ^ e := by
    have hbound : greatestExponent = 971 := rfl
    rw [← zpow_natCast]
    exact zpow_le_zpow_right₀ (by norm_num) (by omega)
  calc overflow ≤ 2 ^ 54 * 2 ^ 970 := overflow_le
    _ = 2 ^ 52 * 2 ^ 972 := by rw [← pow_add, ← pow_add]
    _ ≤ scaled num den e * 2 ^ e :=
      mul_le_mul hmantissa hpow (by positivity) (le_trans (by norm_num) hmantissa)
    _ = (num / den : ℚ) := (eq_scaled_mul num den e).symm

/-- At the greatest exponent, a mantissa is rounded up to one that is too large from the overflow
on. -/
theorem roundQuotient_greatestExponent_iff (hden : 0 < den)
    (hmantissa : scaled num den greatestExponent < 2 ^ 53) :
    roundQuotient (unscaled num den greatestExponent).1 (unscaled num den greatestExponent).2 =
      mantissaBound ↔ overflow ≤ (num / den : ℚ) := by
  obtain ⟨e, he⟩ : ∃ e, e = greatestExponent := ⟨_, rfl⟩
  rw [← he] at hmantissa ⊢
  have hd : 0 < (unscaled num den e).2 := unscaled_pos hden e
  have hsmall : (unscaled num den e).1 / (unscaled num den e).2 < mantissaBound := by
    have hbound : ((mantissaBound : Nat) : ℚ) = 2 ^ 53 := by norm_num [mantissaBound]
    rw [← Nat.not_le, le_div_iff_scaled hden, hbound]
    exact not_le.2 hmantissa
  have hcast : (0 : ℚ) < (unscaled num den e).2 := by exact_mod_cast hd
  have hhalf : (2 * mantissaBound - 1) * (unscaled num den e).2 ≤ 2 * (unscaled num den e).1 ↔
      ((2 ^ 54 - 1) / 2 : ℚ) ≤ scaled num den e := by
    have hodd : 2 * mantissaBound - 1 = 2 ^ 54 - 1 := by decide
    have hcastOdd : (2 ^ 54 - 1 : ℚ) = ((2 ^ 54 - 1 : Nat) : ℚ) := by norm_num
    rw [hodd, scaled_eq, div_le_div_iff₀ (by norm_num) hcast, hcastOdd,
      mul_comm ((unscaled num den e).1 : ℚ)]
    exact_mod_cast Iff.rfl
  have hpow : (2 : ℚ) ^ e = 2 * 2 ^ 970 := by
    have hsucc : greatestExponent = ((970 + 1 : Nat) : Int) := rfl
    rw [he, hsucc, zpow_natCast, pow_succ']
  have hpos : (0 : ℚ) < 2 ^ 970 := by positivity
  rw [roundQuotient_eq_mantissaBound_iff hd hsmall, hhalf, eq_scaled_mul num den e, hpow, overflow,
    ← mul_assoc, mul_le_mul_iff_left₀ hpos, div_le_iff₀ (by norm_num)]

theorem ofQuotient_infinite_iff (hnum : 0 < num) (hden : 0 < den) :
    (∃ s, ofQuotient negative num den = .infinite s) ↔ overflow ≤ (num / den : ℚ) := by
  obtain ⟨hhigh, hlow⟩ := scaled_exponentFor hnum hden
  rw [ofQuotient_infinite_iff_exponent]
  obtain ⟨e, he⟩ : ∃ e, e = exponentFor num den := ⟨_, rfl⟩
  rw [← he] at hhigh hlow ⊢
  rcases lt_trichotomy e greatestExponent with hsmall | rfl | hlarge
  · have hfinite := lt_overflow_of_lt hhigh hsmall
    simp only [not_le.2 hfinite, iff_false, not_or, not_and]
    exact ⟨by omega, fun heq => by omega⟩
  · have hround := roundQuotient_greatestExponent_iff hden hhigh
    simp only [lt_irrefl, false_or, true_and, hround]
  · have hnormal : (2 : ℚ) ^ 52 ≤ scaled num den e := by
      refine hlow.resolve_left ?_
      have hleast : leastExponent = -1074 := rfl
      have hbound : greatestExponent = 971 := rfl
      omega
    simp only [overflow_le_of_gt hnormal hlarge, hlarge, true_or]

end Rounding

section Decimals

variable {negative : Bool} {digits : Nat} {exponent : Int}

/-- The length of a decimal tells its magnitude. -/
theorem toDigits_bounds (h : 0 < digits) :
    (10 : ℚ) ^ ((Nat.toDigits 10 digits).length - 1 : Int) ≤ digits ∧
      (digits : ℚ) < 10 ^ ((Nat.toDigits 10 digits).length : Int) := by
  obtain ⟨k, hk⟩ : ∃ k, (Nat.toDigits 10 digits).length = k + 1 :=
    Nat.exists_eq_succ_of_ne_zero (Nat.ne_of_gt Nat.length_toDigits_pos)
  rw [hk]
  constructor
  · have hlow : 10 ^ k ≤ digits := by
      cases k with
      | zero => exact h
      | succ k =>
        rw [← Nat.not_lt, ← Nat.length_toDigits_le_iff (by decide) (Nat.succ_pos k), hk]
        omega
    have hexponent : ((k + 1 : Nat) : Int) - 1 = (k : Nat) := by omega
    rw [hexponent, zpow_natCast]
    exact_mod_cast hlow
  · have hhigh : digits < 10 ^ (k + 1) := by
      rw [← Nat.length_toDigits_le_iff (by decide) (Nat.succ_pos k), hk]
    rw [zpow_natCast]
    exact_mod_cast hhigh

/-- A decimal is read as an infinity from the overflow on, and only then. -/
theorem ofDecimal_infinite_iff : (∃ s, ofDecimal negative digits exponent = .infinite s) ↔
    overflow ≤ digits * (10 : ℚ) ^ exponent := by
  unfold ofDecimal
  by_cases hzero : digits = 0
  · subst hzero
    have hpos : 0 < overflow := lt_trans one_pos one_lt_overflow
    simpa [zero] using hpos
  have hdigits : 0 < digits := Nat.pos_of_ne_zero hzero
  obtain ⟨hlow, hhigh⟩ := toDigits_bounds hdigits
  obtain ⟨k, hk⟩ : ∃ k : Int, k = (Nat.toDigits 10 digits).length := ⟨_, rfl⟩
  have hpos : (0 : ℚ) < 10 ^ exponent := by positivity
  simp only [if_neg hzero, ← hk] at hlow hhigh ⊢
  split
  · rename_i hlarge
    have hinfinite : overflow ≤ digits * (10 : ℚ) ^ exponent := by
      calc overflow ≤ 10 ^ ((400 : Nat) : Int) := by
            rw [zpow_natCast]
            exact overflow_le_ten_pow
        _ ≤ 10 ^ (k - 1 + exponent) := zpow_le_zpow_right₀ (by norm_num) (by omega)
        _ = 10 ^ (k - 1) * 10 ^ exponent := zpow_add₀ (by norm_num) _ _
        _ ≤ digits * 10 ^ exponent := by gcongr
    simp [hinfinite]
  split
  · rename_i hsmall
    have hfinite : digits * (10 : ℚ) ^ exponent < overflow := by
      calc digits * (10 : ℚ) ^ exponent < 10 ^ k * 10 ^ exponent := by gcongr
        _ = 10 ^ (k + exponent) := (zpow_add₀ (by norm_num) _ _).symm
        _ ≤ 10 ^ (0 : Int) := zpow_le_zpow_right₀ (by norm_num) (by omega)
        _ < overflow := by
          rw [zpow_zero]
          exact one_lt_overflow
    simp [zero, hfinite]
  split
  · rename_i hexponent
    obtain ⟨n, rfl⟩ := Int.eq_ofNat_of_zero_le hexponent
    have htens : Nat.pow 10 n = 10 ^ n := rfl
    rw [Int.toNat_natCast, htens,
      ofQuotient_infinite_iff (Nat.mul_pos hdigits (Nat.pow_pos (by decide))) Nat.one_pos]
    simp [zpow_natCast]
  · rename_i hexponent
    obtain ⟨n, hn⟩ := Int.eq_ofNat_of_zero_le (show 0 ≤ -exponent by omega)
    obtain rfl : exponent = -(n : Int) := by omega
    have htens : Nat.pow 10 n = 10 ^ n := rfl
    rw [neg_neg, Int.toNat_natCast, htens,
      ofQuotient_infinite_iff hdigits (Nat.pow_pos (by decide))]
    simp [zpow_neg, zpow_natCast, div_eq_mul_inv]

end Decimals

end Binary64

end LiveTemplates
