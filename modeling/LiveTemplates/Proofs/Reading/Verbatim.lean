import LiveTemplates.Proofs.Reading.Texts

/-!
# Texts in other documents

The literal of a text is read as this text in every document, whatever follows its closing quote. An
escape looks no further than the escape behind it, and one that begins inside of a literal ends
there too.
-/

namespace LiveTemplates

namespace Json

section Lookahead

variable {s s' : List Char}

theorem hex4?_take (s : List Char) : hex4? (s.take 4) = hex4? s := by
  match s with
  | [] | [_] | [_, _] | [_, _, _] => rfl
  | _ :: _ :: _ :: _ :: _ => rfl

theorem hex4?_drop (n : Nat) (h : s.take (n + 4) = s'.take (n + 4)) :
    hex4? (s.drop n) = hex4? (s'.drop n) := by
  rw [← hex4?_take, ← hex4?_take (s'.drop n), List.take_drop, List.take_drop, h]

/-- An escape by numbers looks at eleven characters. -/
theorem unicodeEscape_of_take {found : CodePoint × Nat} (h : s.take 11 = s'.take 11)
    (hs : unicodeEscape s = .ok found) : unicodeEscape s' = .ok found := by
  have hlength : min 11 s.length = min 11 s'.length := by simpa using congrArg List.length h
  have hfront : ∀ n ≤ 11, s.take n = s'.take n := by
    intro n hn
    rw [← Nat.min_eq_left hn, ← List.take_take, h, List.take_take]
  have hfirst : hex4? s = hex4? s' := hex4?_drop 0 (hfront 4 (by decide))
  have hsecond : hex4? (s.drop 6) = hex4? (s'.drop 6) := hex4?_drop 6 (hfront 10 (by decide))
  have hmark : (s.drop 4).take 2 = (s'.drop 4).take 2 := by
    rw [List.take_drop, List.take_drop, hfront 6 (by decide)]
  have hfew : s'.length ≤ 4 ↔ s.length ≤ 4 := by omega
  have hmany : 10 < s'.length ↔ 10 < s.length := by omega
  unfold unicodeEscape at hs ⊢
  rw [← hfirst, ← hsecond, ← hmark]
  simp only [hfew, hmany]
  split at hs
  · cases hs
  rw [if_neg ‹_›]
  cases hhigh : hex4? s with
  | none =>
    rw [hhigh] at hs
    cases hs
  | some high =>
    rw [hhigh] at hs
    dsimp only at hs ⊢
    split at hs
    · rw [if_pos ‹_›]
      cases hlow : hex4? (s.drop 6) with
      | none =>
        rw [hlow] at hs
        cases hs
      | some low =>
        rw [hlow] at hs
        exact hs
    · rw [if_neg ‹_›]
      exact hs

theorem unicodeEscape_alone {high : Nat} (hhigh : hex4? s = some high) (long : 4 < s.length)
    (alone : (s.drop 4).take 2 ≠ ['\\', 'u']) : unicodeEscape s = .ok (.ofValue high, 5) := by
  rw [unicodeEscape, if_neg (Nat.not_le.2 long), hhigh]
  simp [alone]

end Lookahead

section Literals

variable {body after after' : List Char} {t : Text} {p : CodePoint}

/-- An escape by number that begins inside of a literal has all its digits there. -/
theorem SpelledText.long_of_unit (h : SpelledText t body)
    (hunit : (body ++ '"' :: after).take 2 = ['\\', 'u']) : 6 ≤ body.length := by
  have hhex : ∀ {n : Nat} {s rest : List Char}, HexUnit n s →
      6 ≤ ('\\' :: 'u' :: s ++ rest).length := by
    intro n s rest hs
    simp only [List.length_append, List.length_cons, hs.length_eq]
    omega
  cases h with
  | nil => simp at hunit
  | @cons p t s s' h rest =>
    cases h with
    | lone h => exact hhex h
    | char h =>
      cases h with
      | plain _ _ backslash => exact absurd (List.cons.inj hunit).1 backslash
      | short h =>
        have hall : ∀ e ∈ shortEscapes, e.1 ≠ 'u' := by decide
        exact absurd (List.cons.inj (List.cons.inj hunit).2).1 (hall _ h)
      | unit h => exact hhex h
      | surrogates _ high _ =>
        rw [List.append_assoc]
        exact hhex high

theorem SpelledPoint.length_unit {e : List Char} (h : SpelledPoint p ('\\' :: 'u' :: e)) :
    e.length = 4 ∨ e.length = 10 := by
  generalize hs : '\\' :: 'u' :: e = s at h
  cases h with
  | lone h =>
    cases hs
    exact .inl h.length_eq
  | char h =>
    cases h with
    | plain _ _ backslash => exact absurd (List.cons.inj hs).1.symm backslash
    | short h =>
      have hall : ∀ e ∈ shortEscapes, e.1 ≠ 'u' := by decide
      exact absurd (List.cons.inj (List.cons.inj hs).2).1.symm (hall _ h)
    | unit h =>
      cases hs
      exact .inl h.length_eq
    | surrogates _ high low =>
      cases hs
      exact .inr (by simp [high.length_eq, low.length_eq])

theorem unicodeEscape_anywhere {e : List Char} (hpoint : SpelledPoint p ('\\' :: 'u' :: e))
    (hbody : SpelledText t body)
    (h : unicodeEscape (e ++ (body ++ '"' :: after)) = .ok (p, e.length + 1)) :
    unicodeEscape (e ++ (body ++ '"' :: after')) = .ok (p, e.length + 1) := by
  by_cases hlong : 11 ≤ (e ++ body ++ ['"']).length
  · refine unicodeEscape_of_take ?_ h
    have hsplit : ∀ rest, e ++ (body ++ '"' :: rest) = (e ++ body ++ ['"']) ++ rest := by simp
    rw [hsplit, hsplit, List.take_append_of_le_length hlong, List.take_append_of_le_length hlong]
  -- Behind a short literal there is no second escape.
  · simp only [List.length_append, List.length_singleton] at hlong
    have hfour : e.length = 4 := hpoint.length_unit.resolve_right (by omega)
    have halone : ∀ rest, ((e ++ (body ++ '"' :: rest)).drop 4).take 2 ≠ ['\\', 'u'] := by
      intro rest hunit
      rw [List.drop_left' hfour] at hunit
      have := hbody.long_of_unit hunit
      omega
    have hlength : ∀ rest, 4 < (e ++ (body ++ '"' :: rest)).length := by
      intro rest
      simp only [List.length_append, List.length_cons]
      omega
    have hfirst : ∀ rest, hex4? (e ++ (body ++ '"' :: rest)) = hex4? e := by
      intro rest
      rw [← hex4?_take, List.take_left' hfour]
    cases hhigh : hex4? e with
    | none =>
      rw [unicodeEscape, if_neg (Nat.not_le.2 (hlength after)), hfirst, hhigh] at h
      cases h
    | some high =>
      rw [unicodeEscape_alone ((hfirst after).trans hhigh) (hlength after) (halone after)] at h
      rw [unicodeEscape_alone ((hfirst after').trans hhigh) (hlength after') (halone after'), h]

theorem SpelledPoint.ne_backslash {s : List Char} (h : SpelledPoint p s) : s ≠ ['\\'] := by
  rintro rfl
  cases h with
  | char h =>
    cases h with
    | plain _ _ backslash => exact backslash rfl

theorem escape_anywhere {opened : Nat} {e : List Char} (hpoint : SpelledPoint p ('\\' :: e))
    (hbody : SpelledText t body)
    (h : escape opened (e ++ (body ++ '"' :: after)) = .ok (p, e.length)) (opened' : Nat)
    (after' : List Char) :
    escape opened' (e ++ (body ++ '"' :: after')) = .ok (p, e.length) := by
  cases e with
  | nil => exact absurd rfl hpoint.ne_backslash
  | cons c e =>
    by_cases hc : c = 'u'
    · subst hc
      exact unicodeEscape_anywhere hpoint hbody h
    · generalize hs : '\\' :: c :: e = s at hpoint
      cases hpoint with
      | lone =>
        cases hs
        exact absurd rfl hc
      | char hchar =>
        cases hchar with
        | plain => cases hs
        | short hshort =>
          cases hs
          exact escape_short hshort opened' _
        | unit | surrogates =>
          cases hs
          exact absurd rfl hc

/-- The literal of a text is read as it in every document. -/
theorem scanText_anywhere {opened : Nat} {s : List Char}
    (h : scanText opened 0 s = .ok (t, after)) :
    ∃ body, s = body ++ '"' :: after ∧ SpelledText t body ∧
      ∀ opened' after', scanText opened' 0 (body ++ '"' :: after') = .ok (t, after') := by
  induction hlength : s.length using Nat.strongRecOn generalizing s t with
  | _ n ih =>
    cases s with
    | nil => cases h
    | cons c s =>
      rw [scanText] at h
      split at h
      · rename_i hquote
        cases h
        exact ⟨[], by rw [hquote]; rfl, .nil, fun _ _ => rfl⟩
      rename_i quote
      split at h
      · rename_i hbackslash
        split at h
        · cases h
        rename_i p taken hescape
        obtain ⟨e, rest, rfl, rfl, hpoint⟩ := escape_eq_ok hescape
        rw [scanText_skip] at h
        obtain ⟨⟨t', after'⟩, hrest, heq⟩ := map_eq_ok.1 h
        cases heq
        obtain ⟨body, rfl, hbody, hscan⟩ := ih rest.length (by simp at hlength; omega) hrest rfl
        refine ⟨'\\' :: e ++ body, by simp [hbackslash], .cons hpoint hbody, ?_⟩
        intro opened' after'
        rw [List.append_assoc, List.cons_append, scanText, if_neg (by decide), if_pos rfl,
          escape_anywhere hpoint hbody hescape opened' after']
        dsimp only
        rw [scanText_skip, hscan]
        rfl
      rename_i backslash
      split at h
      · cases h
      rename_i hcontrol
      obtain ⟨⟨t', after'⟩, hrest, heq⟩ := map_eq_ok.1 h
      cases heq
      obtain ⟨body, rfl, hbody, hscan⟩ := ih s.length (by simp at hlength; omega) hrest rfl
      refine ⟨[c] ++ body, rfl,
        .cons (.char (.plain (Nat.not_lt.1 hcontrol) quote backslash)) hbody, ?_⟩
      intro opened' after'
      rw [List.append_assoc, List.singleton_append, scanText, if_neg quote, if_neg backslash,
        if_neg hcontrol, hscan]
      rfl

end Literals

end Json

end LiveTemplates
