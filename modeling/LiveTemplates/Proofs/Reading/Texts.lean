import LiveTemplates.Proofs.Comments.Segments
import LiveTemplates.Proofs.Files.Decoding
import LiveTemplates.Proofs.Writing.Texts

/-!
# What the texts of a document were spelled as

Whatever is read as a text was spelled as that text: its characters were written in one of the ways
to write a character, and its lone surrogates were escaped by their numbers. A flaw of a text is
found at its opening quote or within the literal, before the quote that ends it.
-/

namespace LiveTemplates

open Comments

namespace Json

/-- The ways to spell a code point. A lone surrogate has only its number. -/
inductive SpelledPoint : CodePoint → List Char → Prop
  | char {c : Char} {s : List Char} (h : WrittenChar c s) : SpelledPoint (.char c) s
  | lone {offset : Fin 2048} {s : List Char} (h : HexUnit (0xD800 + offset) s) :
    SpelledPoint (.lone offset) ('\\' :: 'u' :: s)

inductive SpelledText : Text → List Char → Prop
  | nil : SpelledText [] []
  | cons {p : CodePoint} {t : Text} {s s' : List Char} (h : SpelledPoint p s)
    (rest : SpelledText t s') : SpelledText (p :: t) (s ++ s')

section Units

theorem hexDigit_of_hexDigit? {c : Char} {n : Nat} (h : hexDigit? c = some n) : HexDigit n c := by
  have hdecimal : ∀ m < 10, "0123456789abcdef".toList[m]? = some (Char.ofNat (48 + m)) := by decide
  have hlower : ∀ m < 6, "0123456789abcdef".toList[m + 10]? = some (Char.ofNat (97 + m)) := by
    decide
  have hupper : ∀ m < 6, "0123456789ABCDEF".toList[m + 10]? = some (Char.ofNat (65 + m)) := by
    decide
  have hrange : ∀ {a b : Char}, a ≤ c ∧ c ≤ b → a.toNat ≤ c.toNat ∧ c.toNat ≤ b.toNat :=
    fun h => h
  unfold hexDigit? at h
  split at h
  · obtain ⟨hzero, hnine⟩ := hrange ‹_›
    simp only [Char.reduceToNat] at hzero hnine h
    have hdigit := hdecimal (c.toNat - 48) (by omega)
    rw [Nat.add_sub_cancel' hzero, Char.ofNat_toNat, Option.some.inj h] at hdigit
    exact .inl hdigit
  split at h
  · obtain ⟨ha, hf⟩ := hrange ‹_›
    simp only [Char.reduceToNat] at ha hf h
    have hdigit := hlower (c.toNat - 97) (by omega)
    rw [Nat.add_sub_cancel' ha, Char.ofNat_toNat, Option.some.inj h] at hdigit
    exact .inl hdigit
  split at h
  · obtain ⟨hA, hF⟩ := hrange ‹_›
    simp only [Char.reduceToNat] at hA hF h
    have hdigit := hupper (c.toNat - 65) (by omega)
    rw [Nat.add_sub_cancel' hA, Char.ofNat_toNat, Option.some.inj h] at hdigit
    exact .inr hdigit
  · cases h

theorem exists_hexUnit {s : List Char} {n : Nat} (h : hex4? s = some n) :
    ∃ digits rest, s = digits ++ rest ∧ HexUnit n digits := by
  unfold hex4? at h
  split at h
  · rename_i w x y z rest
    simp only [Option.bind_eq_bind, Option.bind_eq_some_iff, Option.pure_def,
      Option.some.injEq] at h
    obtain ⟨a, ha, b, hb, c, hc, d, hd, hn⟩ := h
    exact ⟨[w, x, y, z], rest, rfl, a, b, c, d, w, x, y, z, hn.symm, rfl, hexDigit_of_hexDigit? ha,
      hexDigit_of_hexDigit? hb, hexDigit_of_hexDigit? hc, hexDigit_of_hexDigit? hd⟩
  · cases h

theorem HexUnit.lt {n : Nat} {s : List Char} (h : HexUnit n s) : n < 0x10000 := by
  have hdigit : ∀ {n : Nat} {c : Char}, HexDigit n c → n < 16 := by
    rintro n c (h | h) <;> exact (List.getElem?_eq_some_iff.1 h).1
  obtain ⟨a, b, c, d, w, x, y, z, rfl, -, ha, hb, hc, hd⟩ := h
  have := hdigit ha
  have := hdigit hb
  have := hdigit hc
  have := hdigit hd
  omega

theorem HexUnit.inside {n : Nat} {s t : List Char} (h : HexUnit n s) (ht : Inside t) :
    Inside (s ++ t) := by
  obtain ⟨a, b, c, d, w, x, y, z, -, rfl, ha, hb, hc, hd⟩ := h
  have hplain : ∀ {n : Nat} {c : Char} {t : List Char}, HexDigit n c → Inside t → Inside (c :: t) :=
    fun h => .plain (plain_of_hexDigit h).1 (plain_of_hexDigit h).2
  exact hplain ha (hplain hb (hplain hc (hplain hd ht)))

/-- A unit alone stands for a character, or for a lone surrogate. -/
theorem spelledPoint_unit {n : Nat} {s : List Char} (h : HexUnit n s) :
    SpelledPoint (.ofValue n) ('\\' :: 'u' :: s) := by
  have hn := h.lt
  unfold CodePoint.ofValue
  split
  · rename_i hsurrogate
    refine .lone ?_
    have hvalue : 0xD800 + (n - 0xD800) = n := by omega
    simpa only [hvalue] using h
  · have hvalid : n.isValidChar := by
      unfold Nat.isValidChar
      omega
    refine .char (.unit ?_)
    have hvalue : (Char.ofNat n).toNat = n := by
      rw [Char.ofNat, dif_pos hvalid]
      rfl
    rwa [hvalue]

theorem spelledPoint_surrogates {high low : Nat} {s t : List Char} (hs : HexUnit high s)
    (ht : HexUnit low t) (hhigh : isHighSurrogate high = true) (hlow : isLowSurrogate low = true) :
    SpelledPoint (.ofValue (joinSurrogates high low)) ('\\' :: 'u' :: s ++ '\\' :: 'u' :: t) := by
  simp only [isHighSurrogate, isLowSurrogate, Bool.and_eq_true, decide_eq_true_eq] at hhigh hlow
  obtain ⟨m, hm⟩ : ∃ m, m = (high - 0xD800) * 0x400 + (low - 0xDC00) := ⟨_, rfl⟩
  have hjoined : joinSurrogates high low = 0x10000 + m := by
    unfold joinSurrogates
    omega
  have hvalid : (0x10000 + m).isValidChar := by
    unfold Nat.isValidChar
    omega
  have hvalue : (Char.ofNat (0x10000 + m)).toNat = 0x10000 + m := by
    rw [Char.ofNat, dif_pos hvalid]
    rfl
  rw [hjoined, CodePoint.ofValue, dif_neg (by omega)]
  refine .char (.surrogates hvalue ?_ ?_)
  · have hunit : 0xD800 + m / 0x400 = high := by omega
    rwa [hunit]
  · have hunit : 0xDC00 + m % 0x400 = low := by omega
    rwa [hunit]

end Units

section Escapes

theorem SpelledPoint.inside {p : CodePoint} {s t : List Char} (h : SpelledPoint p s)
    (ht : Inside t) : Inside (s ++ t) := by
  cases h with
  | lone h => exact .escaped (h.inside ht)
  | char h =>
    cases h with
    | plain _ quote backslash => exact .plain quote backslash ht
    | short _ => exact .escaped ht
    | unit h => exact .escaped (h.inside ht)
    | surrogates _ high low =>
      rw [List.append_assoc]
      exact .escaped (high.inside (.escaped (low.inside ht)))

theorem SpelledText.inside {t : Text} {s : List Char} (h : SpelledText t s) : Inside s := by
  induction h with
  | nil => exact .nil
  | cons h _ ih => exact h.inside ih

theorem mem_shortEscapes {c d : Char} (h : shortEscape? c = some d) : (c, d) ∈ shortEscapes := by
  unfold shortEscape? at h
  split at h <;> cases h <;> decide

theorem unicodeEscape_eq_ok {s : List Char} {p : CodePoint} {taken : Nat}
    (h : unicodeEscape s = .ok (p, taken)) :
    ∃ e rest, s = e ++ rest ∧ taken = e.length + 1 ∧ SpelledPoint p ('\\' :: 'u' :: e) := by
  unfold unicodeEscape at h
  split at h
  · cases h
  split at h
  · cases h
  rename_i high hhigh
  obtain ⟨digits, rest, rfl, hdigits⟩ := exists_hexUnit hhigh
  have hsingle : ∀ q, q = (CodePoint.ofValue high, 5) → q = (p, taken) →
      ∃ e rest', digits ++ rest = e ++ rest' ∧ taken = e.length + 1 ∧
        SpelledPoint p ('\\' :: 'u' :: e) := by
    rintro _ rfl heq
    cases heq
    exact ⟨digits, rest, rfl, by rw [hdigits.length_eq], spelledPoint_unit hdigits⟩
  split at h
  · rename_i hpair
    simp only [Bool.and_eq_true, beq_iff_eq] at hpair
    obtain ⟨⟨hsurrogate, -⟩, hmark⟩ := hpair
    split at h
    · cases h
    rename_i low hlow
    split at h
    · rename_i hlowSurrogate
      obtain ⟨rfl, rfl⟩ := Prod.mk.inj (Except.ok.inj h)
      rw [List.drop_left' hdigits.length_eq] at hmark
      obtain ⟨rest', rfl⟩ : ['\\', 'u'] <+: rest := hmark ▸ List.take_prefix 2 rest
      have hsix : (digits ++ ['\\', 'u']).length = 6 := by simp [hdigits.length_eq]
      rw [← List.append_assoc, List.drop_left' hsix] at hlow
      obtain ⟨digits', rest'', rfl, hdigits'⟩ := exists_hexUnit hlow
      refine ⟨digits ++ '\\' :: 'u' :: digits', rest'', by simp, ?_, ?_⟩
      · simp [hdigits.length_eq, hdigits'.length_eq]
      · exact spelledPoint_surrogates hdigits hdigits' hsurrogate hlowSurrogate
    · exact hsingle _ rfl (Except.ok.inj h)
  · exact hsingle _ rfl (Except.ok.inj h)

theorem unicodeEscape_eq_error {s : List Char} {flaw : Flaw} (h : unicodeEscape s = .error flaw) :
    ∃ e rest, s = e ++ rest ∧ Inside ('\\' :: 'u' :: e) ∧ rest.length < flaw.left ∧
      flaw.left ≤ s.length + 1 := by
  have hfirst : Inside ['\\', 'u'] := .escaped .nil
  unfold unicodeEscape at h
  split at h
  · cases h
    exact ⟨[], s, rfl, hfirst, by simp, by simp⟩
  split at h
  · cases h
    exact ⟨[], s, rfl, hfirst, by simp, by simp⟩
  rename_i high hhigh
  obtain ⟨digits, rest, rfl, hdigits⟩ := exists_hexUnit hhigh
  split at h
  · rename_i hpair
    simp only [Bool.and_eq_true, beq_iff_eq] at hpair
    obtain ⟨-, hmark⟩ := hpair
    split at h
    · -- The flaw is told at the second escape, which stands behind the first one.
      cases h
      rw [List.drop_left' hdigits.length_eq] at hmark
      obtain ⟨rest', rfl⟩ : ['\\', 'u'] <+: rest := hmark ▸ List.take_prefix 2 rest
      have hlength := hdigits.length_eq
      refine ⟨digits ++ ['\\', 'u'], rest', by simp, .escaped (hdigits.inside hfirst), ?_, ?_⟩
      all_goals
        simp only [List.length_append, List.length_cons, List.length_nil]
        omega
    · split at h <;> cases h
  · cases h

theorem escape_eq_ok {opened taken : Nat} {s : List Char} {p : CodePoint}
    (h : escape opened s = .ok (p, taken)) :
    ∃ e rest, s = e ++ rest ∧ taken = e.length ∧ SpelledPoint p ('\\' :: e) := by
  unfold escape at h
  split at h
  · cases h
  · obtain ⟨e, rest, rfl, htaken, hpoint⟩ := unicodeEscape_eq_ok h
    exact ⟨'u' :: e, rest, rfl, htaken, hpoint⟩
  · rename_i c rest _
    split at h
    · rename_i d hshort
      cases h
      exact ⟨[c], rest, rfl, rfl, .char (.short (mem_shortEscapes hshort))⟩
    · cases h

theorem escape_eq_error {opened : Nat} {s : List Char} {flaw : Flaw}
    (h : escape opened s = .error flaw) : flaw.left = opened ∨
      ∃ e rest, s = e ++ rest ∧ Inside ('\\' :: e) ∧ rest.length < flaw.left ∧
        flaw.left ≤ s.length + 1 := by
  unfold escape at h
  split at h
  · cases h
    exact .inl rfl
  · obtain ⟨e, rest, rfl, hinside, hlow, hhigh⟩ := unicodeEscape_eq_error h
    exact .inr ⟨'u' :: e, rest, rfl, hinside, hlow, Nat.le_succ_of_le hhigh⟩
  · rename_i c rest _
    split at h
    · cases h
    · cases h
      refine .inr ⟨[c], rest, rfl, .escaped .nil, ?_, ?_⟩
      all_goals
        simp only [List.length_cons]
        omega

end Escapes

section Texts

/-- A text was spelled as it is read, between its opening quote and the one that ends it. -/
theorem scanText_eq_ok {opened : Nat} {s after : List Char} {t : Text}
    (h : scanText opened 0 s = .ok (t, after)) :
    ∃ body, SpelledText t body ∧ s = body ++ '"' :: after := by
  induction hlength : s.length using Nat.strongRecOn generalizing s t with
  | _ n ih =>
    cases s with
    | nil => cases h
    | cons c s =>
      rw [scanText] at h
      split at h
      · rename_i hquote
        cases h
        exact ⟨[], .nil, by rw [hquote]; rfl⟩
      rename_i quote
      split at h
      · rename_i hbackslash
        split at h
        · cases h
        rename_i p taken hescape
        obtain ⟨e, rest, rfl, rfl, hpoint⟩ := escape_eq_ok hescape
        rw [scanText_skip] at h
        obtain ⟨⟨t', after'⟩, hrest, heq⟩ := map_eq_ok.1 h
        cases heq
        obtain ⟨body, hbody, rfl⟩ := ih rest.length (by simp at hlength; omega) hrest rfl
        exact ⟨'\\' :: e ++ body, .cons hpoint hbody, by simp [hbackslash]⟩
      rename_i backslash
      split at h
      · cases h
      rename_i hcontrol
      obtain ⟨⟨t', after'⟩, hrest, heq⟩ := map_eq_ok.1 h
      cases heq
      obtain ⟨body, hbody, rfl⟩ := ih s.length (by simp at hlength; omega) hrest rfl
      exact ⟨[c] ++ body, .cons (.char (.plain (Nat.not_lt.1 hcontrol) quote backslash)) hbody, rfl⟩

/-- A flaw of a text stands at its opening quote, or else no quote has ended the text up to it. -/
theorem scanText_eq_error {opened : Nat} {s : List Char} {flaw : Flaw}
    (h : scanText opened 0 s = .error flaw) : flaw.left = opened ∨
      ∃ body rest, Inside body ∧ s = body ++ rest ∧ rest.length < flaw.left ∧
        flaw.left ≤ s.length := by
  induction hlength : s.length using Nat.strongRecOn generalizing s with
  | _ n ih =>
    cases s with
    | nil =>
      cases h
      exact .inl rfl
    | cons c s =>
      rw [scanText] at h
      split at h
      · cases h
      rename_i quote
      split at h
      · rename_i hbackslash
        split at h
        · rename_i flaw' hescape
          cases h
          refine (escape_eq_error hescape).imp_right ?_
          rintro ⟨e, rest, rfl, hinside, hlow, hhigh⟩
          exact ⟨'\\' :: e, rest, hinside, by rw [hbackslash]; rfl, hlow, hlength ▸ hhigh⟩
        rename_i p taken hescape
        obtain ⟨e, rest, rfl, rfl, hpoint⟩ := escape_eq_ok hescape
        rw [scanText_skip] at h
        have hrest := map_eq_error.1 h
        refine (ih rest.length (by simp at hlength; omega) hrest rfl).imp_right ?_
        rintro ⟨body, rest', hbody, rfl, hlow, hhigh⟩
        refine ⟨'\\' :: e ++ body, rest', hpoint.inside hbody, by simp [hbackslash], hlow, ?_⟩
        simp only [List.length_append, List.length_cons] at hlength hhigh
        omega
      rename_i backslash
      split at h
      · cases h
        exact .inr ⟨[c], s, .plain quote backslash .nil, rfl, by simp, by simp [← hlength]⟩
      have hrest := map_eq_error.1 h
      refine (ih s.length (by simp at hlength; omega) hrest rfl).imp_right ?_
      rintro ⟨body, rest, hbody, rfl, hlow, hhigh⟩
      exact ⟨c :: body, rest, .plain quote backslash hbody, rfl, hlow,
        hlength ▸ Nat.le_succ_of_le hhigh⟩

end Texts

end Json

end LiveTemplates
