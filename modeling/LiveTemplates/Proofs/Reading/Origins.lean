import LiveTemplates.Proofs.Reading.Numerals
import LiveTemplates.Proofs.Reading.Scalars

/-!
# Where a scalar that cannot be sent comes from

Neither an infinite number nor a lone surrogate can be sent. A value has an infinite number only if
its document holds a decimal beyond all finite numbers, and a lone surrogate only if the document
escapes a surrogate by its number.
-/

namespace LiveTemplates

namespace Json

/-- A decimal beyond all finite numbers stands in the text. -/
def Overflows (s : List Char) : Prop :=
  ∃ q w, w <:+: s ∧ WrittenDecimal q w ∧ Binary64.overflow ≤ q

def EscapesSurrogate (s : List Char) : Prop :=
  ∃ n w, '\\' :: 'u' :: w <:+: s ∧ HexUnit n w ∧ 0xD800 ≤ n ∧ n < 0xE000

section Tokens

/-- A token that is always written alike, or none that can be read. -/
def Token.Fixed (t : Token) : Prop :=
  t ∈ marks.map Prod.fst ∨ t ∈ words.map Prod.snd ∨ t = .other

/-- A token is a text, a flawed one, a numeral or a fixed one. -/
theorem tokenAt_cases (c : Char) (rest : List Char) :
    (∃ t body after, (tokenAt c rest).1 = .text t ∧ SpelledText t body ∧
      rest = body ++ '"' :: after) ∨
    (∃ flaw, (tokenAt c rest).1 = .flawed flaw) ∨
    (∃ after, numeral? (c :: rest) = some ((tokenAt c rest).1, after)) ∨
    (tokenAt c rest).1.Fixed := by
  have hmark : ∀ t ∈ marks.map Prod.fst, t.Fixed := fun t => .inl
  unfold tokenAt
  split
  · exact .inr (.inr (.inr (hmark .openArray (by decide))))
  · exact .inr (.inr (.inr (hmark .closeArray (by decide))))
  · exact .inr (.inr (.inr (hmark .openObject (by decide))))
  · exact .inr (.inr (.inr (hmark .closeObject (by decide))))
  · exact .inr (.inr (.inr (hmark .comma (by decide))))
  · exact .inr (.inr (.inr (hmark .colon (by decide))))
  · split
    · rename_i t after hscan
      obtain ⟨body, hbody, hrest⟩ := scanText_eq_ok hscan
      exact .inl ⟨t, body, after, rfl, hbody, hrest⟩
    · exact .inr (.inl ⟨_, rfl⟩)
  · split
    · rename_i word token hfind
      have hword : token ∈ words.map Prod.snd :=
        List.mem_map_of_mem (f := Prod.snd) (List.mem_of_find?_eq_some hfind)
      exact .inr (.inr (.inr (.inr (.inl hword))))
    · cases hnumeral : numeral? (c :: rest) with
      | none => exact .inr (.inr (.inr (.inr (.inr rfl))))
      | some found => exact .inr (.inr (.inl ⟨found.2, rfl⟩))

/-- A lexeme is what its characters are read as. -/
theorem exists_tokenAt {taken : Nat} {s : List Char} {l : Lexeme} (h : l ∈ lexemesFrom taken s) :
    ∃ c rest, c :: rest <:+ s ∧ l.token = (tokenAt c rest).1 := by
  have htail : ∀ {c : Char} {s : List Char},
      (∃ d rest, d :: rest <:+ s ∧ l.token = (tokenAt d rest).1) →
        ∃ d rest, d :: rest <:+ c :: s ∧ l.token = (tokenAt d rest).1 := by
    rintro c s ⟨d, rest, hsuffix, htoken⟩
    exact ⟨d, rest, hsuffix.trans (List.suffix_cons c s), htoken⟩
  induction s generalizing taken with
  | nil => cases taken <;> cases h
  | cons c s ih =>
    cases taken with
    | succ taken => exact htail (ih h)
    | zero =>
      rw [lexemesFrom] at h
      split at h
      · exact htail (ih h)
      · rcases List.mem_cons.1 h with rfl | hrest
        · exact ⟨c, s, List.suffix_refl _, rfl⟩
        · exact htail (ih hrest)

end Tokens

section Lexemes

variable {document : List Char} {l : Lexeme}

theorem eq_infinite_of_tells {t : Token} (h : t.tells Scalar.isInfinite = true) :
    ∃ negative, t = .atom (.number (.float (.infinite negative))) := by
  unfold Token.tells at h
  split at h
  · cases h
  · rename_i s
    unfold Scalar.isInfinite Number.isInfinite at h
    split at h
    · split at h
      · exact ⟨_, rfl⟩
      · cases h
    · cases h
  · cases h

theorem eq_text_of_tells {t : Token} (h : t.tells Scalar.hasLone = true) :
    ∃ s : Text, s.hasLone ∧ (t = .text s ∨ t = .atom (.text s)) := by
  unfold Token.tells at h
  split at h
  · exact ⟨_, h, .inl rfl⟩
  · rename_i s
    unfold Scalar.hasLone at h
    split at h
    · exact ⟨_, h, .inr rfl⟩
    · cases h
  · cases h

theorem hasLone_numeralToken (negative : Bool) (whole fraction : List Char)
    (exponent : Option Int) :
    (numeralToken negative whole fraction exponent).tells Scalar.hasLone = false := by
  unfold numeralToken
  split
  · split <;> rfl
  · rfl

theorem SpelledText.exists_lone {t : Text} {body : List Char} (h : SpelledText t body)
    (lone : t.hasLone) : ∃ offset s, s <:+: body ∧ SpelledPoint (.lone offset) s := by
  induction h with
  | nil => cases lone
  | @cons p t s s' hpoint _ ih =>
    cases p with
    | lone offset => exact ⟨offset, s, (List.prefix_append s s').isInfix, hpoint⟩
    | char c =>
      obtain ⟨offset, w, hinfix, hw⟩ := ih lone
      exact ⟨offset, w, hinfix.trans (List.suffix_append s s').isInfix, hw⟩

theorem overflows_of_mem (h : l ∈ lexemes document)
    (tells : l.token.tells Scalar.isInfinite = true) : Overflows document := by
  obtain ⟨c, rest, hsuffix, htoken⟩ := exists_tokenAt h
  obtain ⟨negative, heq⟩ := eq_infinite_of_tells tells
  have hcases := tokenAt_cases c rest
  rw [← htoken, heq] at hcases
  rcases hcases with ⟨_, _, _, heq, -⟩ | ⟨_, heq⟩ | ⟨after, hnumeral⟩ | hfixed
  · cases heq
  · cases heq
  · obtain ⟨q, w, hinfix, hw, hq⟩ := overflow_of_numeral hnumeral
    exact ⟨q, w, hinfix.trans hsuffix.isInfix, hw, hq⟩
  · simp [Token.Fixed, marks, words] at hfixed

theorem escapesSurrogate_of_mem (h : l ∈ lexemes document)
    (tells : l.token.tells Scalar.hasLone = true) : EscapesSurrogate document := by
  obtain ⟨c, rest, hsuffix, htoken⟩ := exists_tokenAt h
  obtain ⟨s, lone, heq⟩ := eq_text_of_tells tells
  have hcases := tokenAt_cases c rest
  rw [← htoken] at hcases
  rcases hcases with ⟨t, body, after, heq', hbody, rfl⟩ | ⟨_, heq'⟩ | ⟨after, hnumeral⟩ | hfixed
  · have hs : s = t := by
      rcases heq with heq | heq <;> rw [heq] at heq' <;> cases heq'
      rfl
    obtain ⟨offset, w, hinfix, hw⟩ := hbody.exists_lone (hs ▸ lone)
    have hbodyInfix : body <:+: document :=
      ((List.prefix_append body _).isInfix.trans (List.suffix_cons c _).isInfix).trans
        hsuffix.isInfix
    cases hw with
    | lone hunit => exact ⟨_, _, hinfix.trans hbodyInfix, hunit, by omega, by omega⟩
  · rcases heq with heq | heq <;> rw [heq] at heq' <;> cases heq'
  · obtain ⟨negative, whole, rest', -, -, htoken'⟩ := numeral?_written hnumeral
    rw [htoken', hasLone_numeralToken] at tells
    cases tells
  · rcases heq with heq | heq <;> simp [heq, Token.Fixed, marks, words] at hfixed

end Lexemes

end Json

end LiveTemplates
