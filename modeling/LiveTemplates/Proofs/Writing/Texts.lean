import LiveTemplates.Proofs.Writing.Grammar

/-!
# Scanning written texts

Each way to write a character is read back as that character, whatever follows. Hence a text is
read up to the quote that ends it, however its characters are written.
-/

namespace LiveTemplates

theorem CodePoint.ofValue_toNat (c : Char) : ofValue c.toNat = .char c := by
  have hvalid : c.toNat < 0xD800 ∨ 0xDFFF < c.toNat ∧ c.toNat < 0x110000 := c.valid
  rw [ofValue, dif_neg (by omega), Char.ofNat_toNat]

namespace Json

theorem hexDigit?_of_hexDigit {n : Nat} {c : Char} (h : HexDigit n c) : hexDigit? c = some n := by
  have hlower : ∀ n < 16, ("0123456789abcdef".toList[n]?).bind hexDigit? = some n := by decide
  have hupper : ∀ n < 16, ("0123456789ABCDEF".toList[n]?).bind hexDigit? = some n := by decide
  rcases h with h | h
  · obtain ⟨hn, -⟩ := List.getElem?_eq_some_iff.1 h
    have hvalue := hlower n hn
    rwa [h] at hvalue
  · obtain ⟨hn, -⟩ := List.getElem?_eq_some_iff.1 h
    have hvalue := hupper n hn
    rwa [h] at hvalue

theorem HexUnit.length_eq {n : Nat} {s : List Char} (h : HexUnit n s) : s.length = 4 := by
  obtain ⟨a, b, c, d, w, x, y, z, -, rfl, -⟩ := h
  rfl

theorem HexUnit.hex4?_eq {n : Nat} {s : List Char} (h : HexUnit n s) (rest : List Char) :
    hex4? (s ++ rest) = some n := by
  obtain ⟨a, b, c, d, w, x, y, z, rfl, rfl, hw, hx, hy, hz⟩ := h
  simp [hex4?, hexDigit?_of_hexDigit hw, hexDigit?_of_hexDigit hx, hexDigit?_of_hexDigit hy,
    hexDigit?_of_hexDigit hz]

/-- The number of a character, unlike that of a high surrogate, stands for itself. -/
theorem unicodeEscape_unit {c : Char} {s rest : List Char} (h : HexUnit c.toNat s)
    (hrest : rest ≠ []) : unicodeEscape (s ++ rest) = .ok (.char c, 5) := by
  have hvalid : c.toNat < 0xD800 ∨ 0xDFFF < c.toNat ∧ c.toNat < 0x110000 := c.valid
  have hlong : ¬ (s ++ rest).length ≤ 4 := by
    have hpos := List.length_pos_iff.2 hrest
    rw [List.length_append, h.length_eq]
    omega
  -- Hence no second escape is looked for, even if one follows.
  have hsurrogate : isHighSurrogate c.toNat = false := by
    simp only [isHighSurrogate, Bool.and_eq_false_imp, decide_eq_true_eq, decide_eq_false_iff_not]
    omega
  rw [unicodeEscape, if_neg hlong, h.hex4?_eq]
  simp [hsurrogate, CodePoint.ofValue_toNat]

/-- The numbers of two surrogates join to that of the character that they encode. -/
theorem unicodeEscape_surrogates {c : Char} {n : Nat} {s t rest : List Char}
    (h : c.toNat = 0x10000 + n) (high : HexUnit (0xD800 + n / 0x400) s)
    (low : HexUnit (0xDC00 + n % 0x400) t) (hrest : rest ≠ []) :
    unicodeEscape (s ++ '\\' :: 'u' :: t ++ rest) = .ok (.char c, 11) := by
  have hvalid : c.toNat < 0xD800 ∨ 0xDFFF < c.toNat ∧ c.toNat < 0x110000 := c.valid
  have hpos := List.length_pos_iff.2 hrest
  have hlength : (s ++ '\\' :: 'u' :: t ++ rest).length = 10 + rest.length := by
    simp only [List.length_append, List.length_cons, high.length_eq, low.length_eq]
  have hhigh : isHighSurrogate (0xD800 + n / 0x400) = true := by
    simp only [isHighSurrogate, Bool.and_eq_true, decide_eq_true_eq]
    omega
  have hlow : isLowSurrogate (0xDC00 + n % 0x400) = true := by
    simp only [isLowSurrogate, Bool.and_eq_true, decide_eq_true_eq]
    omega
  have hjoined : joinSurrogates (0xD800 + n / 0x400) (0xDC00 + n % 0x400) = c.toNat := by
    unfold joinSurrogates
    omega
  have hfirst : hex4? (s ++ '\\' :: 'u' :: t ++ rest) = some (0xD800 + n / 0x400) := by
    rw [List.append_assoc]
    exact high.hex4?_eq _
  have hmark : ((s ++ '\\' :: 'u' :: t ++ rest).drop 4).take 2 = ['\\', 'u'] := by
    rw [List.append_assoc, List.drop_left' high.length_eq]
    rfl
  have hsecond : hex4? ((s ++ '\\' :: 'u' :: t ++ rest).drop 6) = some (0xDC00 + n % 0x400) := by
    have hsix : (s ++ ['\\', 'u']).length = 6 := by simp [high.length_eq]
    have hsplit : s ++ '\\' :: 'u' :: t ++ rest = (s ++ ['\\', 'u']) ++ (t ++ rest) := by simp
    rw [hsplit, List.drop_left' hsix, low.hex4?_eq]
  rw [unicodeEscape, if_neg (by omega), hfirst]
  simp only [hhigh, hlength, hmark, hsecond, hlow, hjoined, CodePoint.ofValue_toNat]
  simp [hpos]

theorem escape_short {c e : Char} (h : (e, c) ∈ shortEscapes) (opened : Nat) (rest : List Char) :
    escape opened (e :: rest) = .ok (.char c, 1) := by
  simp only [shortEscapes, List.mem_cons, Prod.mk.injEq, List.not_mem_nil, or_false] at h
  rcases h with ⟨rfl, rfl⟩ | ⟨rfl, rfl⟩ | ⟨rfl, rfl⟩ | ⟨rfl, rfl⟩ | ⟨rfl, rfl⟩ | ⟨rfl, rfl⟩ |
    ⟨rfl, rfl⟩ | ⟨rfl, rfl⟩ <;> rfl

theorem scanText_skip (opened : Nat) (s rest : List Char) :
    scanText opened s.length (s ++ rest) = scanText opened 0 rest := by
  induction s with
  | nil => rfl
  | cons c s ih => rw [List.cons_append, List.length_cons, scanText, ih]

/-- Reads on behind an escape that takes `s` along with its backslash. -/
theorem scanText_escape {opened : Nat} {c : Char} {s rest : List Char}
    (h : escape opened (s ++ rest) = .ok (.char c, s.length)) :
    scanText opened 0 ('\\' :: s ++ rest) =
      (scanText opened 0 rest).map fun (t, after) => (.char c :: t, after) := by
  rw [List.cons_append, scanText, if_neg (by decide), if_pos rfl, h]
  dsimp only
  rw [scanText_skip]

theorem scanText_char {c : Char} {s : List Char} (h : WrittenChar c s) (opened : Nat)
    {rest : List Char} (hrest : rest ≠ []) :
    scanText opened 0 (s ++ rest) =
      (scanText opened 0 rest).map fun (t, after) => (.char c :: t, after) := by
  cases h with
  | plain h quote backslash =>
    rw [List.singleton_append, scanText, if_neg quote, if_neg backslash, if_neg (by omega)]
  | @short e h => exact scanText_escape (s := [e]) (escape_short h opened rest)
  | @unit s h =>
    refine scanText_escape (s := 'u' :: s) ?_
    rw [List.length_cons, h.length_eq]
    exact unicodeEscape_unit h hrest
  | @surrogates n s t h high low =>
    have hlength : ('u' :: (s ++ '\\' :: 'u' :: t)).length = 11 := by
      simp [high.length_eq, low.length_eq]
    refine scanText_escape (s := 'u' :: (s ++ '\\' :: 'u' :: t)) ?_
    rw [hlength]
    exact unicodeEscape_surrogates h high low hrest

theorem scanText_text {t : Text} {s : List Char} (h : WrittenText t s) (opened : Nat)
    (rest : List Char) : scanText opened 0 (s ++ '"' :: rest) = .ok (t, rest) := by
  induction h with
  | nil => rfl
  | @cons c t s s' h _ ih =>
    rw [List.append_assoc, scanText_char h opened (by simp), ih]
    rfl

end Json

end LiveTemplates
