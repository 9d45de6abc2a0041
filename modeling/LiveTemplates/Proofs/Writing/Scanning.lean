import Mathlib.Data.List.Chain
import Mathlib.Data.List.TakeDrop
import LiveTemplates.Proofs.Writing.Texts

/-!
# Lexemes of written tokens

A written token is read back wherever it stands, but for integers: an integer ends where no digit,
no point and no exponent follows. In the tokens of a value each one that is no mark stands between
marks, so nothing but a blank, a mark or the end of the document follows it.
-/

namespace LiveTemplates

namespace Json

section Numerals

def EndsNumeral (rest : List Char) : Prop :=
  ∀ c ∈ rest.head?, c.isDigit = false ∧ c ≠ '.' ∧ c ≠ 'e' ∧ c ≠ 'E'

theorem span_digits {digits rest : List Char} (h : ∀ c ∈ digits, c.isDigit = true)
    (hrest : EndsNumeral rest) : (digits ++ rest).span Char.isDigit = (digits, rest) := by
  rw [List.span_eq_takeWhile_dropWhile, List.takeWhile_append_of_pos h,
    List.dropWhile_append_of_pos h]
  cases rest with
  | nil => simp
  | cons c rest =>
    obtain ⟨hc, -⟩ := hrest c rfl
    simp [hc]

/-- Only zero is written with a leading zero. -/
theorem toDigits_head {n : Nat} (h : 0 < n) :
    ∃ c digits, Nat.toDigits 10 n = c :: digits ∧ c ≠ '0' := by
  induction n using Nat.strongRecOn with
  | _ n ih =>
    rw [Nat.toDigits_eq_if (by decide)]
    split
    · have hall : ∀ n < 10, 0 < n → n.digitChar ≠ '0' := by decide
      exact ⟨_, [], rfl, hall n ‹_› h⟩
    · obtain ⟨c, digits, hdigits, hc⟩ := ih (n / 10) (by omega) (by omega)
      exact ⟨c, _, by rw [hdigits, List.cons_append], hc⟩

theorem natOfDigits_toDigits (n : Nat) : natOfDigits (Nat.toDigits 10 n) = n := by
  rw [natOfDigits, ← Nat.ofDigitChars_eq_foldl, Nat.ofDigitChars_ten_toDigits]

theorem wholePart?_toDigits (n : Nat) {rest : List Char} (hrest : EndsNumeral rest) :
    wholePart? (Nat.toDigits 10 n ++ rest) = some (Nat.toDigits 10 n, rest) := by
  by_cases hn : n = 0
  · subst hn
    rfl
  · obtain ⟨c, digits, hdigits, hc⟩ := toDigits_head (Nat.pos_of_ne_zero hn)
    have hall : ∀ d ∈ c :: digits, d.isDigit = true := fun d hd => isDigit_of_mem (hdigits ▸ hd)
    have hspan := span_digits hall hrest
    rw [hdigits, List.cons_append, wholePart?, if_neg hc, if_pos (hall c List.mem_cons_self)]
    rw [List.cons_append] at hspan
    rw [hspan]

theorem fractionPart_of_ends {rest : List Char} (h : EndsNumeral rest) :
    fractionPart rest = ([], rest) := by
  cases rest with
  | nil => rfl
  | cons c rest =>
    obtain ⟨-, hc, -⟩ := h c rfl
    unfold fractionPart
    split
    · rename_i heq
      exact absurd (List.cons.inj heq).1 hc
    · rfl

theorem exponentPart_of_ends {rest : List Char} (h : EndsNumeral rest) :
    exponentPart rest = (none, rest) := by
  cases rest with
  | nil => rfl
  | cons c rest =>
    obtain ⟨-, -, he, hE⟩ := h c rfl
    simp [exponentPart, he, hE]

theorem numeral?_natural (n : Nat) (short : (Nat.toDigits 10 n).length ≤ 4300) {rest : List Char}
    (hrest : EndsNumeral rest) : numeral? (Nat.toDigits 10 n ++ rest) =
      some (.atom (.number (.int n)), rest) := by
  have hlimit : ¬ digitLimit < (Nat.toDigits 10 n).length := Nat.not_lt.2 short
  have hwhole := wholePart?_toDigits n hrest
  have hvalue := natOfDigits_toDigits n
  cases hdigits : Nat.toDigits 10 n with
  | nil => exact absurd hdigits Nat.toDigits_ne_nil
  | cons c digits =>
    have hsign : c ≠ '-' := by
      rintro rfl
      have hdigit := isDigit_of_mem (hdigits ▸ List.mem_cons_self : '-' ∈ Nat.toDigits 10 n)
      exact absurd hdigit (by decide)
    rw [hdigits] at hlimit hwhole hvalue
    rw [List.cons_append] at hwhole ⊢
    simpa [numeral?, hsign, hwhole, fractionPart_of_ends hrest, exponentPart_of_ends hrest,
      hvalue] using Nat.not_lt.1 hlimit

theorem numeral?_negative (n : Nat) (short : (Nat.toDigits 10 n).length ≤ 4300) {rest : List Char}
    (hrest : EndsNumeral rest) : numeral? ('-' :: Nat.toDigits 10 n ++ rest) =
      some (.atom (.number (.int (-n))), rest) := by
  have hlimit : ¬ digitLimit < (Nat.toDigits 10 n).length := Nat.not_lt.2 short
  simp [numeral?, wholePart?_toDigits n hrest, fractionPart_of_ends hrest,
    exponentPart_of_ends hrest, hlimit, natOfDigits_toDigits]

end Numerals

section Tokens

def Token.IsMark (t : Token) : Prop := ∃ c, (t, c) ∈ marks

theorem tokenAt_mark {t : Token} {c : Char} (h : (t, c) ∈ marks) (rest : List Char) :
    tokenAt c rest = (t, rest) := by
  simp only [marks, List.mem_cons, Prod.mk.injEq, List.not_mem_nil, or_false] at h
  rcases h with ⟨rfl, rfl⟩ | ⟨rfl, rfl⟩ | ⟨rfl, rfl⟩ | ⟨rfl, rfl⟩ | ⟨rfl, rfl⟩ | ⟨rfl, rfl⟩ <;> rfl

theorem tokenAt_text {t : Text} {s : List Char} (h : WrittenText t s) (rest : List Char) :
    tokenAt '"' (s ++ '"' :: rest) = (.text t, rest) := by
  simp [tokenAt, scanText_text h]

/-- Neither a mark nor a word begins with a digit. -/
theorem tokenAt_digit {c : Char} {s rest : List Char} {t : Token} (hc : c.isDigit = true)
    (h : numeral? (c :: s) = some (t, rest)) : tokenAt c s = (t, rest) := by
  have hall : ∀ w ∈ words, ∃ d word, w.1 = d :: word ∧ d.isDigit = false := by
    simp [words]
  rw [tokenAt, List.find?_eq_none.2, h]
  · rfl
  · rintro ⟨_, token⟩ hw hprefix
    obtain ⟨d, word, rfl, hd⟩ := hall _ hw
    rw [List.isPrefixOf_iff_prefix] at hprefix
    rw [(List.cons_prefix_cons.1 hprefix).1, hc] at hd
    cases hd
  all_goals
    rintro rfl
    exact absurd hc (by decide)

/-- A sign with a digit does not begin the only word that begins with a sign. -/
theorem tokenAt_minus {c : Char} {s rest : List Char} {t : Token} (hc : c.isDigit = true)
    (h : numeral? ('-' :: c :: s) = some (t, rest)) : tokenAt '-' (c :: s) = (t, rest) := by
  have hI : c ≠ 'I' := by
    rintro rfl
    exact absurd hc (by decide)
  simp [tokenAt, words, hI.symm, h]

/-- A token that is written is read back, if no digit, point or exponent follows an integer. -/
theorem tokenAt_written {t : Token} {c : Char} {s rest : List Char} (h : WrittenToken t (c :: s))
    (hrest : t.IsMark ∨ EndsNumeral rest) : tokenAt c (s ++ rest) = (t, rest) := by
  have hend : ∀ {i : Int}, t = .atom (.number (.int i)) → EndsNumeral rest := by
    rintro i rfl
    refine hrest.resolve_left ?_
    rintro ⟨c, hmark⟩
    simp [marks] at hmark
  -- Only the cases of integers look at what follows.
  generalize hs : c :: s = written at h
  cases h with
  | mark h =>
    obtain ⟨rfl, rfl⟩ := List.cons.inj hs
    exact tokenAt_mark h rest
  | null =>
    obtain ⟨rfl, rfl⟩ := List.cons.inj hs
    rfl
  | true =>
    obtain ⟨rfl, rfl⟩ := List.cons.inj hs
    rfl
  | false =>
    obtain ⟨rfl, rfl⟩ := List.cons.inj hs
    rfl
  | natural n short =>
    have hc : c.isDigit = Bool.true := isDigit_of_mem (hs ▸ List.mem_cons_self)
    have hnumeral := numeral?_natural n short (hend rfl)
    rw [← hs, List.cons_append] at hnumeral
    exact tokenAt_digit hc hnumeral
  | negative n short =>
    obtain ⟨rfl, rfl⟩ := List.cons.inj hs
    have hnumeral := numeral?_negative n short (hend rfl)
    cases hdigits : Nat.toDigits 10 n with
    | nil => exact absurd hdigits Nat.toDigits_ne_nil
    | cons d digits =>
      have hd : d.isDigit = Bool.true := isDigit_of_mem (hdigits ▸ List.mem_cons_self)
      rw [hdigits] at hnumeral
      exact tokenAt_minus hd hnumeral
  | @text t s' h =>
    obtain ⟨rfl, rfl⟩ := List.cons.inj hs
    have htext := tokenAt_text h rest
    simpa using htext

theorem WrittenToken.head {t : Token} {s : List Char} (h : WrittenToken t s) :
    ∃ c s', s = c :: s' ∧ c ∉ blanks ∧ c.toNat < 0x80 := by
  have hdigits : ∀ n, ∃ c s', Nat.toDigits 10 n = c :: s' ∧ c ∉ blanks ∧ c.toNat < 0x80 := by
    intro n
    obtain ⟨c, s', hs⟩ := List.exists_cons_of_ne_nil (Nat.toDigits_ne_nil : Nat.toDigits 10 n ≠ [])
    have hc : c.isDigit = Bool.true := isDigit_of_mem (hs ▸ List.mem_cons_self)
    obtain ⟨hzero, hnine⟩ := Char.isDigit_iff_toNat.1 hc
    refine ⟨c, s', hs, ?_, Nat.lt_of_le_of_lt hnine (by decide)⟩
    intro hblank
    have hlow : ∀ c ∈ blanks, c.toNat < '0'.toNat := by simp [blanks]
    exact absurd hzero (Nat.not_le.2 (hlow c hblank))
  cases h with
  | mark h =>
    have hall : ∀ m ∈ marks, m.2 ∉ blanks ∧ m.2.toNat < 0x80 := by decide
    exact ⟨_, [], rfl, hall _ h⟩
  | null => exact ⟨_, _, rfl, by decide⟩
  | true => exact ⟨_, _, rfl, by decide⟩
  | false => exact ⟨_, _, rfl, by decide⟩
  | natural n => exact hdigits n
  | negative n => exact ⟨_, _, rfl, by decide⟩
  | text => exact ⟨_, _, rfl, by decide⟩

end Tokens

section Lexemes

theorem isGap_iff {c : Char} : isGap c = true ↔ c ∈ blanks := by
  simp [isGap, blanks, or_assoc]

theorem lexemesFrom_skip (s rest : List Char) :
    lexemesFrom s.length (s ++ rest) = lexemesFrom 0 rest := by
  induction s with
  | nil => rfl
  | cons c s ih => rw [List.cons_append, List.length_cons, lexemesFrom, ih]

theorem lexemesFrom_blank {s : List Char} (h : Blank s) (rest : List Char) :
    lexemesFrom 0 (s ++ rest) = lexemesFrom 0 rest := by
  induction s with
  | nil => rfl
  | cons c s ih =>
    obtain ⟨hc, hs⟩ := List.forall_mem_cons.1 h
    rw [List.cons_append, lexemesFrom, if_pos (isGap_iff.2 hc), ih hs]

theorem lexemesFrom_token {t : Token} {s rest : List Char} (h : WrittenToken t s)
    (hrest : t.IsMark ∨ EndsNumeral rest) :
    ∃ left, lexemesFrom 0 (s ++ rest) = ⟨t, left⟩ :: lexemesFrom 0 rest := by
  obtain ⟨c, s, rfl, hc, -⟩ := h.head
  refine ⟨(s ++ rest).length + 1, ?_⟩
  have hskip : (s ++ rest).length - rest.length = s.length := by simp
  rw [List.cons_append, lexemesFrom, if_neg (mt isGap_iff.1 hc), tokenAt_written h hrest]
  dsimp only
  rw [hskip, lexemesFrom_skip]

/-- Tokens each of which is a mark or has marks for neighbours. -/
def Apart (ts : List Token) : Prop := ts.IsChain fun t t' => t.IsMark ∨ t'.IsMark

theorem endsNumeral_of_blank {s rest : List Char} (h : Blank s) (hrest : EndsNumeral rest) :
    EndsNumeral (s ++ rest) := by
  cases s with
  | nil => exact hrest
  | cons c s =>
    have hall : ∀ c ∈ blanks, c.isDigit = Bool.false ∧ c ≠ '.' ∧ c ≠ 'e' ∧ c ≠ 'E' := by
      simp [blanks]
    rintro d hd
    cases hd
    exact hall c (h c List.mem_cons_self)

theorem endsNumeral_of_mark {t : Token} {s : List Char} (ht : t.IsMark) (h : WrittenToken t s)
    (rest : List Char) : EndsNumeral (s ++ rest) := by
  cases h with
  | mark h =>
    have hall : ∀ m ∈ marks, m.2.isDigit = Bool.false ∧ m.2 ≠ '.' ∧ m.2 ≠ 'e' ∧ m.2 ≠ 'E' := by
      decide
    rintro d hd
    cases hd
    exact hall _ h
  | null | true | false | natural | negative | text =>
    obtain ⟨c, hc⟩ := ht
    simp [marks] at hc

/-- Where no integer or a mark comes next, an integer before it has ended. -/
theorem endsNumeral_of_written {ts : List Token} {s : List Char} (h : Written Blank Blank ts s)
    (hmark : ∀ t ∈ ts.head?, t.IsMark) : EndsNumeral s := by
  have hnil : EndsNumeral [] := by
    rintro c hc
    cases hc
  cases h with
  | nil h =>
    rw [← List.append_nil s]
    exact endsNumeral_of_blank h hnil
  | cons h token =>
    rw [List.append_assoc]
    exact endsNumeral_of_blank h (endsNumeral_of_mark (hmark _ rfl) token _)

/-- The lexemes of a document without comments are the tokens that it was written from. -/
theorem lexemes_written {ts : List Token} {document : List Char}
    (h : Written Blank Blank ts document) (apart : Apart ts) :
    (lexemes document).map Lexeme.token = ts := by
  unfold lexemes
  induction h with
  | nil h =>
    have hend := lexemesFrom_blank h []
    rw [List.append_nil] at hend
    rw [hend]
    rfl
  | @cons t ts g s s' h token rest ih =>
    obtain ⟨hnext, hlater⟩ := List.isChain_cons.1 apart
    -- A token that is no mark is followed by a mark, whatever blanks are in between.
    have hend : t.IsMark ∨ EndsNumeral s' := by
      by_cases ht : t.IsMark
      · exact .inl ht
      · exact .inr (endsNumeral_of_written rest fun t' ht' => (hnext t' ht').resolve_left ht)
    obtain ⟨left, hlexeme⟩ := lexemesFrom_token token hend
    rw [List.append_assoc, lexemesFrom_blank h, hlexeme, List.map_cons, ih hlater]

end Lexemes

end Json

end LiveTemplates
