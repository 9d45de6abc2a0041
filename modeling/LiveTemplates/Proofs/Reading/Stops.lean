import LiveTemplates.Proofs.Reading.Steps
import LiveTemplates.Proofs.Reading.Texts
import LiveTemplates.Proofs.Writing.Scanning

/-!
# Where a reader stops

A reader stops at a lexeme that it has come to, for what this lexeme is, or else at the end of the
document. Of the lexemes only texts can be flawed in themselves. The others take neither blanks nor
quotes.
-/

namespace LiveTemplates

namespace Json

section Runs

namespace Reader

variable {r : Reader} {stop : Stop}

/-- A run stops at one of its lexemes, or at the end. -/
theorem run_eq_error {ls : List Lexeme} (h : r.run ls = .error stop) :
    (∃ fault, stop = .flaw ⟨fault, 0⟩) ∨ ∃ l ∈ ls, ∃ r', StopsAt r' l stop := by
  induction ls generalizing r with
  | nil => exact .inl (finish_eq_error h)
  | cons l ls ih =>
    rw [run] at h
    cases hadvance : r.advance l with
    | error stop' =>
      rw [hadvance] at h
      cases h
      exact .inr ⟨l, List.mem_cons_self, r, stopsAt_of_advance hadvance⟩
    | ok r' =>
      rw [hadvance] at h
      refine (ih h).imp_right ?_
      rintro ⟨l', hl', hstops⟩
      exact ⟨l', List.mem_cons_of_mem l hl', hstops⟩

end Reader

/-- So does the reading of a document, unless it begins with a byte order mark. -/
theorem ofDocument_eq_error {document : List Char} {stop : Stop}
    (h : Json.ofDocument document = .error stop) :
    (document.head? = some byteOrderMark ∧ stop = .flaw ⟨.byteOrderMark, document.length⟩) ∨
      (∃ fault, stop = .flaw ⟨fault, 0⟩) ∨
        ∃ l ∈ lexemes document, ∃ r, Reader.StopsAt r l stop := by
  unfold Json.ofDocument at h
  split at h
  · cases h
    exact .inl ⟨‹_›, rfl⟩
  · exact .inr (Reader.run_eq_error h)

end Runs

section Tokens

def Bare (c : Char) : Prop := isGap c = false ∧ c ≠ '"'

instance (c : Char) : Decidable (Bare c) := inferInstanceAs (Decidable (_ ∧ _))

def Takes (s after : List Char) : Prop := ∃ taken, (∀ c ∈ taken, Bare c) ∧ s = taken ++ after

namespace Takes

variable {s after after' : List Char}

theorem refl (s : List Char) : Takes s s := ⟨[], by simp, rfl⟩

theorem trans (h : Takes s after) (h' : Takes after after') : Takes s after' := by
  obtain ⟨taken, hbare, rfl⟩ := h
  obtain ⟨taken', hbare', rfl⟩ := h'
  refine ⟨taken ++ taken', ?_, (List.append_assoc ..).symm⟩
  intro c hc
  exact (List.mem_append.1 hc).elim (hbare c) (hbare' c)

theorem cons {c : Char} (hc : Bare c) (h : Takes s after) : Takes (c :: s) after := by
  obtain ⟨taken, hbare, rfl⟩ := h
  exact ⟨c :: taken, List.forall_mem_cons.2 ⟨hc, hbare⟩, rfl⟩

end Takes

theorem bare_of_isDigit {c : Char} (h : c.isDigit = true) : Bare c := by
  constructor
  · simp only [isGap, Bool.or_eq_false_iff, decide_eq_false_iff_not]
    refine ⟨⟨⟨?_, ?_⟩, ?_⟩, ?_⟩ <;> rintro rfl <;> exact absurd h (by decide)
  · rintro rfl
    exact absurd h (by decide)

theorem takes_span (s : List Char) : Takes s (s.span Char.isDigit).2 := by
  rw [List.span_eq_takeWhile_dropWhile]
  refine ⟨s.takeWhile Char.isDigit, ?_, List.takeWhile_append_dropWhile.symm⟩
  intro c hc
  exact bare_of_isDigit (List.all_eq_true.1 List.all_takeWhile c hc)

theorem takes_wholePart {s whole after : List Char} (h : wholePart? s = some (whole, after)) :
    Takes s after := by
  unfold wholePart? at h
  split at h
  · cases h
  rename_i c rest
  split at h
  · rename_i hc
    cases h
    subst hc
    exact .cons (by decide) (.refl _)
  split at h
  · have hspan := takes_span (c :: rest)
    rwa [Option.some.inj h] at hspan
  · cases h

theorem takes_fractionPart (s : List Char) : Takes s (fractionPart s).2 := by
  unfold fractionPart
  split
  · rename_i rest
    have hspan := takes_span rest
    split
    · exact .refl _
    · rename_i digits after hdigits
      rw [hdigits] at hspan
      exact .cons (by decide) hspan
  · exact .refl s

theorem takes_sign (s : List Char) : Takes s (
    match s with
    | '-' :: tail => (true, tail)
    | '+' :: tail => (false, tail)
    | _ => (false, s)).2 := by
  split
  · exact .cons (by decide) (.refl _)
  · exact .cons (by decide) (.refl _)
  · exact .refl s

theorem takes_exponentPart (s : List Char) : Takes s (exponentPart s).2 := by
  unfold exponentPart
  split
  · rename_i mark rest
    split
    · rename_i hmark
      have hbare : Bare mark := by rcases hmark with rfl | rfl <;> decide
      have hspan := (takes_sign rest).trans (takes_span _)
      dsimp only
      split
      · exact .refl _
      · rename_i digits after _ hdigits
        have hafter : _ = after := congrArg Prod.snd hdigits
        rw [← hafter]
        exact .cons hbare hspan
    · exact .refl _
  · exact .refl _

def numeralToken (negative : Bool) (whole fraction : List Char) (exponent : Option Int) : Token :=
  match fraction, exponent with
  | [], none =>
    if digitLimit < whole.length then .longInteger whole.length
    else .atom (.number (.int (if negative then -natOfDigits whole else natOfDigits whole)))
  | _, _ =>
    .atom (.number (.float (.ofDecimal negative (natOfDigits (whole ++ fraction))
      (exponent.getD 0 - fraction.length))))

theorem numeral?_eq_some {s after : List Char} {t : Token} (h : numeral? s = some (t, after)) :
    ∃ negative unsigned whole rest, Takes s unsigned ∧ wholePart? unsigned = some (whole, rest) ∧
      after = (exponentPart (fractionPart rest).2).2 ∧
      t = numeralToken negative whole (fractionPart rest).1
        (exponentPart (fractionPart rest).2).1 := by
  unfold numeral? at h
  split at h
  rename_i negative unsigned hsign
  have hunsigned : Takes s unsigned := by
    split at hsign <;> cases hsign
    · exact .cons (by decide) (.refl _)
    · exact .refl s
  split at h
  · cases h
  rename_i whole rest hwhole
  dsimp only at h
  obtain ⟨rfl, rfl⟩ := Prod.mk.inj (Option.some.inj h)
  exact ⟨negative, unsigned, whole, rest, hunsigned, hwhole, rfl, rfl⟩

theorem takes_numeral {s after : List Char} {t : Token} (h : numeral? s = some (t, after)) :
    Takes s after := by
  obtain ⟨negative, unsigned, whole, rest, hunsigned, hwhole, rfl, -⟩ := numeral?_eq_some h
  have hrest := hunsigned.trans (takes_wholePart hwhole)
  exact hrest.trans ((takes_fractionPart rest).trans (takes_exponentPart _))

theorem numeralToken_ne_flawed (negative : Bool) (whole fraction : List Char)
    (exponent : Option Int) (flaw : Flaw) :
    numeralToken negative whole fraction exponent ≠ .flawed flaw := by
  unfold numeralToken
  split
  · split <;> exact Token.noConfusion
  · exact Token.noConfusion

/-- Every token but a text is whole in itself, and takes neither blanks nor quotes. -/
theorem tokenAt_bare {c : Char} (h : Bare c) (rest : List Char) :
    Takes (c :: rest) (tokenAt c rest).2 ∧ ∀ flaw, (tokenAt c rest).1 ≠ .flawed flaw := by
  have hmark : Takes (c :: rest) rest := .cons h (.refl rest)
  unfold tokenAt
  split
  · exact ⟨hmark, by simp⟩
  · exact ⟨hmark, by simp⟩
  · exact ⟨hmark, by simp⟩
  · exact ⟨hmark, by simp⟩
  · exact ⟨hmark, by simp⟩
  · exact ⟨hmark, by simp⟩
  · exact absurd rfl h.2
  split
  · rename_i word token hfind
    have hword : ∀ w ∈ words, (∀ c ∈ w.1, Bare c) ∧ ∀ flaw, w.2 ≠ .flawed flaw := by
      simp [words, Bare, isGap]
    obtain ⟨hbare, hflawed⟩ := hword _ (List.mem_of_find?_eq_some hfind)
    have hfound : word.isPrefixOf (c :: rest) = true := by
      simpa using List.find?_some hfind
    have hbegins : word <+: c :: rest := List.isPrefixOf_iff_prefix.1 hfound
    refine ⟨⟨word, hbare, ?_⟩, hflawed⟩
    exact (List.prefix_iff_eq_append.1 hbegins).symm
  · cases hnumeral : numeral? (c :: rest) with
    | none => exact ⟨hmark, by simp⟩
    | some found =>
      obtain ⟨token, after⟩ := found
      refine ⟨takes_numeral hnumeral, ?_⟩
      obtain ⟨negative, unsigned, whole, rest, -, -, -, rfl⟩ := numeral?_eq_some hnumeral
      exact numeralToken_ne_flawed negative whole _ _

end Tokens

section Lexemes

/-- The lexeme that a bare character begins, and those behind it. -/
theorem lexemesFrom_bare {c : Char} (h : Bare c) (rest : List Char) :
    ∃ token after, lexemesFrom 0 (c :: rest) = ⟨token, rest.length + 1⟩ :: lexemesFrom 0 after ∧
      Takes rest after ∧ ∀ flaw, token ≠ .flawed flaw := by
  have htoken := tokenAt_bare h rest
  rw [lexemesFrom, if_neg (by simp [h.1])]
  generalize tokenAt c rest = found at htoken ⊢
  obtain ⟨token, after⟩ := found
  obtain ⟨⟨taken, hbare, htaken⟩, hflawed⟩ := htoken
  cases taken with
  | nil =>
    obtain rfl : c :: rest = after := htaken
    have hskip : rest.length - (c :: rest).length = 0 := by simp
    exact ⟨token, rest, by simp only [hskip], .refl rest, hflawed⟩
  | cons d taken =>
    obtain rfl : rest = taken ++ after := (List.cons.inj htaken).2
    have hskip : (taken ++ after).length - after.length = taken.length := by simp
    refine ⟨token, after, ?_, ⟨taken, (List.forall_mem_cons.1 hbare).2, rfl⟩, hflawed⟩
    simp only [hskip, lexemesFrom_skip]

theorem lexemesFrom_text {body after : List Char} {t : Text}
    (h : scanText ((body ++ '"' :: after).length + 1) 0 (body ++ '"' :: after) = .ok (t, after)) :
    lexemesFrom 0 ('"' :: body ++ '"' :: after) =
      ⟨.text t, (body ++ '"' :: after).length + 1⟩ :: lexemesFrom 0 after := by
  have hskip : (body ++ '"' :: after).length - after.length = (body ++ ['"']).length := by
    simp only [List.length_append, List.length_cons, List.length_nil]
    omega
  have hsplit : body ++ '"' :: after = (body ++ ['"']) ++ after := by simp
  rw [List.cons_append, lexemesFrom, if_neg (by decide), tokenAt, h]
  dsimp only
  rw [hskip, hsplit, lexemesFrom_skip]

/-- Nothing is read behind a flawed text. -/
theorem lexemesFrom_flawed {s : List Char} {flaw : Flaw}
    (h : scanText (s.length + 1) 0 s = .error flaw) :
    lexemesFrom 0 ('"' :: s) = [⟨.flawed flaw, s.length + 1⟩] := by
  have hend := lexemesFrom_skip s []
  rw [List.append_nil] at hend
  rw [lexemesFrom, if_neg (by decide), tokenAt, h]
  dsimp only
  rw [List.length_nil, Nat.sub_zero, hend]
  rfl

end Lexemes

end Json

end LiveTemplates
