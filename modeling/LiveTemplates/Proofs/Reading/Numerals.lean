import LiveTemplates.Proofs.Number.Overflow
import LiveTemplates.Proofs.Reading.Stops

/-!
# What the numerals of a document say

A number that is read was written as a decimal, in digits with an optional fraction and an optional
exponent. It is read as an infinity if this decimal is beyond all finite numbers. An integer is
refused for its length if more digits than are read stand in a row.
-/

namespace LiveTemplates

namespace Json

def Digits (s : List Char) : Prop := s ≠ [] ∧ ∀ c ∈ s, c.isDigit = true

inductive WrittenExponent : Int → List Char → Prop
  | none : WrittenExponent 0 []
  | plain {mark : Char} {s : List Char} (h : mark = 'e' ∨ mark = 'E') (digits : Digits s) :
    WrittenExponent (natOfDigits s) (mark :: s)
  | plus {mark : Char} {s : List Char} (h : mark = 'e' ∨ mark = 'E') (digits : Digits s) :
    WrittenExponent (natOfDigits s) (mark :: '+' :: s)
  | minus {mark : Char} {s : List Char} (h : mark = 'e' ∨ mark = 'E') (digits : Digits s) :
    WrittenExponent (-natOfDigits s) (mark :: '-' :: s)

inductive WrittenDecimal : ℚ → List Char → Prop
  | whole {s s' : List Char} {e : Int} (digits : Digits s) (h : WrittenExponent e s') :
    WrittenDecimal (natOfDigits s * 10 ^ e) (s ++ s')
  | fraction {s t s' : List Char} {e : Int} (digits : Digits s) (behind : Digits t)
    (h : WrittenExponent e s') :
    WrittenDecimal (natOfDigits (s ++ t) * 10 ^ (e - t.length)) (s ++ '.' :: t ++ s')

section Parts

theorem span_eq (s : List Char) : s = (s.span Char.isDigit).1 ++ (s.span Char.isDigit).2 ∧
    ∀ c ∈ (s.span Char.isDigit).1, c.isDigit = true := by
  rw [List.span_eq_takeWhile_dropWhile]
  exact ⟨List.takeWhile_append_dropWhile.symm, List.all_eq_true.1 List.all_takeWhile⟩

theorem wholePart?_eq_some {s whole after : List Char} (h : wholePart? s = some (whole, after)) :
    Digits whole ∧ s = whole ++ after := by
  unfold wholePart? at h
  split at h
  · cases h
  rename_i c rest
  split at h
  · rename_i hc
    cases h
    exact ⟨⟨List.cons_ne_nil _ _, by simp⟩, by rw [hc]; rfl⟩
  split at h
  · rename_i hdigit
    obtain ⟨hsplit, hdigits⟩ := span_eq (c :: rest)
    rw [Option.some.inj h] at hsplit hdigits
    refine ⟨⟨?_, hdigits⟩, hsplit⟩
    rintro rfl
    rw [List.span_eq_takeWhile_dropWhile, List.takeWhile_cons, if_pos hdigit] at h
    cases h
  · cases h

theorem fractionPart_cases (s : List Char) : fractionPart s = ([], s) ∨
    ∃ t after, Digits t ∧ s = '.' :: t ++ after ∧ fractionPart s = (t, after) := by
  unfold fractionPart
  split
  · rename_i rest
    obtain ⟨hsplit, hdigits⟩ := span_eq rest
    split
    · exact .inl rfl
    · rename_i t after hne heq
      rw [heq] at hsplit hdigits
      exact .inr ⟨t, after, ⟨hne, hdigits⟩, congrArg _ hsplit, rfl⟩
  · exact .inl rfl

/-- A power of ten is read as it is written, and nothing if none is. -/
theorem exponentPart_written (s : List Char) :
    ∃ t, s = t ++ (exponentPart s).2 ∧ WrittenExponent ((exponentPart s).1.getD 0) t := by
  have hnone : ∃ t, s = t ++ s ∧ WrittenExponent ((none : Option Int).getD 0) t :=
    ⟨[], rfl, .none⟩
  unfold exponentPart
  split
  · rename_i mark rest
    split
    · rename_i hmark
      split
      rename_i negative unsigned hsign
      obtain ⟨hsplit, hdigits⟩ := span_eq unsigned
      split
      · exact hnone
      · rename_i t after hne heq
        rw [heq] at hsplit hdigits
        have ht : Digits t := ⟨hne, hdigits⟩
        split at hsign <;> cases hsign
        · exact ⟨mark :: '-' :: t, by rw [hsplit]; rfl, .minus hmark ht⟩
        · exact ⟨mark :: '+' :: t, by rw [hsplit]; rfl, .plus hmark ht⟩
        · exact ⟨mark :: t, by rw [hsplit]; rfl, .plain hmark ht⟩
    · exact hnone
  · exact hnone

end Parts

section Numerals

variable {s after : List Char} {t : Token}

/-- Behind the sign of a numeral stands a whole part, and what tells the token follows it. -/
theorem numeral?_written (h : numeral? s = some (t, after)) :
    ∃ negative whole rest, whole ++ rest <:+: s ∧ Digits whole ∧
      t = numeralToken negative whole (fractionPart rest).1
        (exponentPart (fractionPart rest).2).1 := by
  obtain ⟨negative, unsigned, whole, rest, ⟨sign, -, rfl⟩, hwhole, -, rfl⟩ := numeral?_eq_some h
  obtain ⟨hdigits, rfl⟩ := wholePart?_eq_some hwhole
  exact ⟨negative, whole, rest, (List.suffix_append sign _).isInfix, hdigits, rfl⟩

/-- The decimal of which a numeral tells its digits and the power of ten. -/
theorem writtenDecimal {whole : List Char} (hdigits : Digits whole) (rest : List Char) :
    ∃ w, w <+: whole ++ rest ∧ WrittenDecimal (natOfDigits (whole ++ (fractionPart rest).1) *
      10 ^ ((exponentPart (fractionPart rest).2).1.getD 0 - (fractionPart rest).1.length)) w := by
  rcases fractionPart_cases rest with hfraction | ⟨t, behind, ht, hrest, hfraction⟩
  · rw [hfraction]
    obtain ⟨e, hsplit, hexponent⟩ := exponentPart_written rest
    refine ⟨whole ++ e, ⟨(exponentPart rest).2, by rw [List.append_assoc, ← hsplit]⟩, ?_⟩
    simpa using WrittenDecimal.whole hdigits hexponent
  · rw [hfraction]
    obtain ⟨e, hsplit, hexponent⟩ := exponentPart_written behind
    refine ⟨whole ++ '.' :: t ++ e, ⟨(exponentPart behind).2, ?_⟩, .fraction hdigits ht hexponent⟩
    rw [hrest, List.append_assoc, List.append_assoc, ← hsplit]

/-- A number that is read as an infinity was written as a decimal beyond all finite numbers. -/
theorem overflow_of_numeral {negative : Bool}
    (h : numeral? s = some (.atom (.number (.float (.infinite negative))), after)) :
    ∃ q w, w <:+: s ∧ WrittenDecimal q w ∧ Binary64.overflow ≤ q := by
  obtain ⟨negative', whole, rest, hinfix, hdigits, htoken⟩ := numeral?_written h
  obtain ⟨w, hbegins, hw⟩ := writtenDecimal hdigits rest
  refine ⟨_, w, hbegins.isInfix.trans hinfix, hw, ?_⟩
  unfold numeralToken at htoken
  split at htoken
  · split at htoken <;> cases htoken
  · have hinfinite := Number.float.inj (Scalar.number.inj (Token.atom.inj htoken))
    exact Binary64.ofDecimal_infinite_iff.1 ⟨negative, hinfinite.symm⟩

end Numerals

end Json

end LiveTemplates
