import Mathlib.Data.Nat.Digits.Defs
import LiveTemplates.Proofs.Reading.Nesting
import LiveTemplates.Proofs.Reading.Origins
import LiveTemplates.Proofs.Reading.Verbatim
import LiveTemplates.Proofs.Template.Reads

/-!
# Documents of what is kept

Whatever token was read can be written again, so that it is read back where a blank follows. So of
what is kept of a value that was read, where names repeat, there is a document as well: its tokens
with a blank behind each of them.
-/

namespace LiveTemplates

namespace Json

/-- A way to write a token, so that it is read back where a blank follows it, and stays as it is
where comments are stripped. -/
structure Spelling (t : Token) (s : List Char) : Prop where
  read : ∀ rest, ∃ left, lexemesFrom 0 (s ++ ' ' :: rest) = ⟨t, left⟩ :: lexemesFrom 0 rest
  kept : Comments.Strips .code s s .code
  head : ∃ c s', s = c :: s' ∧ c.toNat < 0x80

section Spellings

theorem endsNumeral_blank (rest : List Char) : EndsNumeral (' ' :: rest) := by
  rintro c hc
  cases hc
  decide

theorem lexemesFrom_space (rest : List Char) :
    lexemesFrom 0 (' ' :: rest) = lexemesFrom 0 rest := rfl

theorem spelling_written {t : Token} {s : List Char} (h : WrittenToken t s) : Spelling t s where
  read rest := by
    obtain ⟨left, hleft⟩ := lexemesFrom_token h (.inr (endsNumeral_blank rest))
    exact ⟨left, hleft⟩
  kept := Comments.strips_token h
  head := by
    obtain ⟨c, s', hs, -, hc⟩ := h.head
    exact ⟨c, s', hs, hc⟩

theorem read_of_tokenAt {t : Token} {c : Char} {s : List Char} (hc : isGap c = false)
    (h : ∀ rest, tokenAt c (s ++ ' ' :: rest) = (t, ' ' :: rest)) (rest : List Char) :
    ∃ left, lexemesFrom 0 (c :: s ++ ' ' :: rest) = ⟨t, left⟩ :: lexemesFrom 0 rest := by
  refine ⟨(s ++ ' ' :: rest).length + 1, ?_⟩
  have hskip : (s ++ ' ' :: rest).length - (' ' :: rest).length = s.length := by simp
  rw [List.cons_append, lexemesFrom, if_neg (by simp [hc]), h]
  dsimp only
  rw [hskip, lexemesFrom_skip, lexemesFrom_space]

theorem scanText_of_tokenAt {t : Text} {c : Char} {s : List Char} (h : (tokenAt c s).1 = .text t) :
    ∃ after, scanText (s.length + 1) 0 s = .ok (t, after) := by
  unfold tokenAt at h
  split at h
  case h_7 =>
    split at h
    · cases h
      exact ⟨_, ‹_›⟩
    · cases h
  case h_8 =>
    split at h
    · rename_i word token hfind
      have hword : ∀ w ∈ words, w.2 ≠ .text t := by simp [words]
      exact absurd h (hword _ (List.mem_of_find?_eq_some hfind))
    · cases hnumeral : numeral? (c :: s) with
      | none =>
        rw [hnumeral] at h
        cases h
      | some found =>
        obtain ⟨token, after⟩ := found
        obtain ⟨negative, whole, rest, -, -, htoken⟩ := numeral?_written hnumeral
        rw [hnumeral, Option.getD_some, htoken] at h
        unfold numeralToken at h
        split at h
        · split at h <;> cases h
        · cases h
  all_goals cases h

/-- A text that was read is written between its quotes as it was. -/
theorem exists_spelling_text {t : Text} {c : Char} {s : List Char} (h : (tokenAt c s).1 = .text t) :
    ∃ w, Spelling (.text t) w := by
  obtain ⟨after, hscan⟩ := scanText_of_tokenAt h
  obtain ⟨body, -, hbody, hanywhere⟩ := scanText_anywhere hscan
  refine ⟨'"' :: (body ++ ['"']), read_of_tokenAt (by decide) fun rest => ?_, ?_, ?_⟩
  · rw [List.append_assoc, List.singleton_append, tokenAt, hanywhere]
  · exact (Comments.strips_opening_quote.append (Comments.strips_inside hbody.inside)).append
      Comments.strips_closing_quote
  · exact ⟨'"', _, rfl, by decide⟩

end Spellings

section Decimals

theorem natOfDigits_lt {s : List Char} (h : ∀ c ∈ s, c.isDigit = true) :
    natOfDigits s < 10 ^ s.length := by
  induction s using List.reverseRecOn with
  | nil => decide
  | append_singleton s c ih =>
    have hs := ih fun d hd => h d (List.mem_append_left _ hd)
    have hc : c.toNat - '0'.toNat < 10 := by
      have hdigit := (Char.isDigit_iff_toNat.1 (h c (List.mem_append_right _ List.mem_cons_self))).2
      simp only [Char.reduceToNat] at hdigit ⊢
      omega
    rw [natOfDigits] at hs
    rw [natOfDigits, List.foldl_concat, List.length_append, List.length_singleton, Nat.pow_succ]
    omega

theorem toDigits_length_le {s : List Char} (h : Digits s) :
    (Nat.toDigits 10 (natOfDigits s)).length ≤ s.length :=
  Nat.toDigits_length 10 _ _ (List.length_pos_iff.2 h.1) (natOfDigits_lt h.2)

def exponentSpelling : Int → List Char
  | .ofNat n => '+' :: Nat.toDigits 10 n
  | .negSucc n => '-' :: Nat.toDigits 10 (n + 1)

def decimalSpelling (n : Nat) (e : Int) : List Char :=
  '0' :: '.' :: Nat.toDigits 10 n ++
    'e' :: exponentSpelling (e + (Nat.toDigits 10 n).length)

theorem exists_toDigits (n : Nat) : ∃ d digits, Nat.toDigits 10 n = d :: digits :=
  List.exists_cons_of_ne_nil Nat.toDigits_ne_nil

theorem span_digits_cons {digits : List Char} (h : ∀ d ∈ digits, d.isDigit = true) {c : Char}
    (hc : c.isDigit = false) (rest : List Char) :
    (digits ++ c :: rest).span Char.isDigit = (digits, c :: rest) := by
  rw [List.span_eq_takeWhile_dropWhile, List.takeWhile_append_of_pos h,
    List.dropWhile_append_of_pos h]
  simp [hc]

theorem exponentPart_spelling (e : Int) {rest : List Char} (hrest : EndsNumeral rest) :
    exponentPart ('e' :: exponentSpelling e ++ rest) = (some e, rest) := by
  have hdigits : ∀ n, ∃ d digits, Nat.toDigits 10 n = d :: digits ∧
      (d :: digits ++ rest).span Char.isDigit = (d :: digits, rest) ∧
      natOfDigits (d :: digits) = n := by
    intro n
    obtain ⟨d, digits, hn⟩ := exists_toDigits n
    refine ⟨d, digits, hn, ?_, ?_⟩
    · rw [← hn]
      exact span_digits (fun _ hd => isDigit_of_mem hd) hrest
    · rw [← hn, natOfDigits_toDigits]
  cases e with
  | ofNat n =>
    obtain ⟨d, digits, hn, hspan, hvalue⟩ := hdigits n
    rw [List.cons_append] at hspan
    simp [exponentSpelling, exponentPart, hn, hspan, hvalue, -List.span_eq_takeWhile_dropWhile]
  | negSucc n =>
    obtain ⟨d, digits, hn, hspan, hvalue⟩ := hdigits (n + 1)
    rw [List.cons_append] at hspan
    simp [exponentSpelling, exponentPart, hn, hspan, hvalue, -List.span_eq_takeWhile_dropWhile]
    omega

theorem fractionPart_spelling (n : Nat) (s : List Char) :
    fractionPart ('.' :: Nat.toDigits 10 n ++ 'e' :: s) = (Nat.toDigits 10 n, 'e' :: s) := by
  obtain ⟨d, digits, hn⟩ := exists_toDigits n
  have hdigits : ∀ d ∈ Nat.toDigits 10 n, d.isDigit = true := fun _ hd => isDigit_of_mem hd
  have hspan := span_digits_cons hdigits (by decide : 'e'.isDigit = false) s
  rw [hn, List.cons_append] at hspan
  simp [fractionPart, hn, hspan, -List.span_eq_takeWhile_dropWhile]

theorem numeral?_decimal (negative : Bool) (n : Nat) (e : Int) {rest : List Char}
    (hrest : EndsNumeral rest) :
    numeral? ((if negative then ['-'] else []) ++ decimalSpelling n e ++ rest) =
      some (.atom (.number (.float (.ofDecimal negative n e))), rest) := by
  have hfraction := fractionPart_spelling n
    (exponentSpelling (e + (Nat.toDigits 10 n).length) ++ rest)
  have hexponent := exponentPart_spelling (e + (Nat.toDigits 10 n).length) hrest
  have hvalue : natOfDigits ('0' :: Nat.toDigits 10 n) = n := natOfDigits_toDigits n
  rw [List.cons_append] at hfraction hexponent
  cases negative with
  | false =>
    simp [numeral?, decimalSpelling, wholePart?, hfraction, hexponent, hvalue]
  | true =>
    simp [numeral?, decimalSpelling, wholePart?, hfraction, hexponent, hvalue]

theorem mem_exponentSpelling {e : Int} {c : Char} (h : c ∈ exponentSpelling e) :
    c = '+' ∨ c = '-' ∨ c.isDigit = true := by
  unfold exponentSpelling at h
  split at h
  · exact (List.mem_cons.1 h).imp_right fun h => .inr (isDigit_of_mem h)
  · exact .inr ((List.mem_cons.1 h).imp_right isDigit_of_mem)

theorem plain_of_mem_decimalSpelling {n : Nat} {e : Int} {c : Char} (h : c ∈ decimalSpelling n e) :
    c ≠ '/' ∧ c ≠ '"' := by
  have hdigits : ∀ {n : Nat}, c ∈ Nat.toDigits 10 n → c ≠ '/' ∧ c ≠ '"' := fun h =>
    Comments.plain_of_isDigit (isDigit_of_mem h)
  rcases List.mem_append.1 h with h | h
  · rcases List.mem_cons.1 h with rfl | h
    · decide
    rcases List.mem_cons.1 h with rfl | h
    · decide
    · exact hdigits h
  · rcases List.mem_cons.1 h with rfl | h
    · decide
    rcases mem_exponentSpelling h with rfl | rfl | h
    · decide
    · decide
    · exact Comments.plain_of_isDigit h

theorem spelling_decimal (negative : Bool) (n : Nat) (e : Int) :
    ∃ w, Spelling (.atom (.number (.float (.ofDecimal negative n e)))) w := by
  have hplain := Comments.strips_code_all fun c (h : c ∈ decimalSpelling n e) =>
    plain_of_mem_decimalSpelling h
  cases negative with
  | false =>
    refine ⟨decimalSpelling n e, read_of_tokenAt (by decide) fun rest => ?_, hplain, '0', _, rfl,
      by decide⟩
    exact tokenAt_digit (by decide) (numeral?_decimal false n e (endsNumeral_blank rest))
  | true =>
    refine ⟨'-' :: decimalSpelling n e, read_of_tokenAt (by decide) fun rest => ?_, ?_, '-', _, rfl,
      by decide⟩
    · exact tokenAt_minus (by decide) (numeral?_decimal true n e (endsNumeral_blank rest))
    · exact (Comments.strips_code (by decide) (by decide)).cons hplain

/-- A number that was read is written again as an integer or a decimal. -/
theorem exists_spelling_numeral {s after : List Char} {x : Scalar}
    (h : numeral? s = some (.atom x, after)) : ∃ w, Spelling (.ofScalar x) w := by
  obtain ⟨negative, whole, rest, -, hdigits, htoken⟩ := numeral?_written h
  unfold numeralToken at htoken
  split at htoken
  · split at htoken
    · cases htoken
    · rename_i hshort
      have hlength := (toDigits_length_le hdigits).trans (Nat.not_lt.1 hshort)
      obtain rfl := Token.atom.inj htoken
      cases negative with
      | false => exact ⟨_, spelling_written (.natural _ hlength)⟩
      | true => exact ⟨_, spelling_written (.negative _ hlength)⟩
  · obtain rfl := Token.atom.inj htoken
    exact spelling_decimal negative _ _

end Decimals

section Scalars

def Spellable (x : Scalar) : Prop := ∃ w, Spelling (.ofScalar x) w

theorem spellable_of_atom {document : List Char} {l : Lexeme} (h : l ∈ lexemes document)
    {x : Scalar} (hl : l.token = .atom x) : Spellable x := by
  obtain ⟨c, rest, -, htoken⟩ := exists_tokenAt h
  have hcases := tokenAt_cases c rest
  rw [← htoken, hl] at hcases
  rcases hcases with ⟨t, _, _, heq, -⟩ | ⟨_, heq⟩ | ⟨after, hnumeral⟩ | hmark | hword | hother
  · cases heq
  · cases heq
  · exact exists_spelling_numeral hnumeral
  · simp [marks] at hmark
  · have hspelled : ∀ t ∈ words.map Prod.snd, ∀ x, t = .atom x → Spellable x := by
      simp only [words, List.map_cons, List.map_nil, List.forall_mem_cons, Token.atom.injEq,
        reduceCtorEq]
      exact ⟨fun _ h => h ▸ ⟨_, spelling_written .null⟩,
        fun _ h => h ▸ ⟨_, spelling_written .true⟩,
        fun _ h => h ▸ ⟨_, spelling_written .false⟩, by simp⟩
    exact hspelled _ hword x rfl
  · cases hother

theorem spellable_of_text {document : List Char} {l : Lexeme} (h : l ∈ lexemes document)
    {t : Text} (hl : l.token = .text t) : Spellable (.text t) := by
  obtain ⟨c, rest, -, htoken⟩ := exists_tokenAt h
  exact exists_spelling_text (htoken.symm.trans hl)

open Classical in
/-- No scalar of a value that was read is one that cannot be written. -/
theorem spellable_of_ofDocument {document : List Char} {v : Json}
    (h : Json.ofDocument document = .ok v) :
    v.anyScalar (fun x => !decide (Spellable x)) = false := by
  rw [anyScalar_of_ofDocument h, List.any_eq_false]
  intro l hl
  cases htoken : l.token with
  | text t => simp [Token.tells, spellable_of_text hl htoken]
  | atom x => simp [Token.tells, spellable_of_atom hl htoken]
  | _ => simp [Token.tells]

end Scalars

section Tokens

variable {p : Scalar → Bool} {P : Token → Prop}

-- What holds of all marks, and of all scalars that fail the test, holds of all tokens of a value
-- whose scalars fail it.
mutual

theorem forall_mem_tokens (mark : ∀ t ∈ marks.map Prod.fst, P t)
    (scalar : ∀ x, p x = false → P (.ofScalar x)) :
    (v : Json) → v.anyScalar p = false → ∀ t ∈ v.tokens, P t
  | .scalar x, h => List.forall_mem_singleton.2 (scalar x h)
  | .array items, h => by
    have hitems := forall_mem_itemTokens mark scalar items h
    refine List.forall_mem_append.2 ⟨List.forall_mem_cons.2 ⟨mark _ (by decide), hitems⟩, ?_⟩
    exact List.forall_mem_singleton.2 (mark _ (by decide))
  | .object members, h => by
    have hmembers := forall_mem_memberTokens mark scalar members h
    refine List.forall_mem_append.2 ⟨List.forall_mem_cons.2 ⟨mark _ (by decide), hmembers⟩, ?_⟩
    exact List.forall_mem_singleton.2 (mark _ (by decide))

theorem forall_mem_itemTokens (mark : ∀ t ∈ marks.map Prod.fst, P t)
    (scalar : ∀ x, p x = false → P (.ofScalar x)) :
    (items : List Json) → anyScalarItems p items = false → ∀ t ∈ itemTokens items, P t
  | [], _ => by simp [itemTokens]
  | [item], h => forall_mem_tokens mark scalar item (Bool.or_eq_false_iff.1 h).1
  | item :: next :: rest, h => by
    rw [anyScalarItems, Bool.or_eq_false_iff] at h
    have hrest := forall_mem_itemTokens mark scalar (next :: rest) h.2
    refine List.forall_mem_append.2 ⟨forall_mem_tokens mark scalar item h.1, ?_⟩
    exact List.forall_mem_cons.2 ⟨mark _ (by decide), hrest⟩

theorem forall_mem_memberTokens (mark : ∀ t ∈ marks.map Prod.fst, P t)
    (scalar : ∀ x, p x = false → P (.ofScalar x)) : (members : List (Text × Json)) →
    anyScalarMembers p members = false → ∀ t ∈ memberTokens members, P t
  | [], _ => by simp [memberTokens]
  | [(name, value)], h => by
    rw [anyScalarMembers, Bool.or_eq_false_iff, Bool.or_eq_false_iff] at h
    have hvalue := forall_mem_tokens mark scalar value h.1.2
    exact List.forall_mem_cons.2
      ⟨scalar (.text name) h.1.1, List.forall_mem_cons.2 ⟨mark _ (by decide), hvalue⟩⟩
  | (name, value) :: next :: rest, h => by
    rw [anyScalarMembers, Bool.or_eq_false_iff, Bool.or_eq_false_iff] at h
    have hvalue := forall_mem_tokens mark scalar value h.1.2
    have hrest := forall_mem_memberTokens mark scalar (next :: rest) h.2
    refine List.forall_mem_append.2 ⟨?_, List.forall_mem_cons.2 ⟨mark _ (by decide), hrest⟩⟩
    exact List.forall_mem_cons.2
      ⟨scalar (.text name) h.1.1, List.forall_mem_cons.2 ⟨mark _ (by decide), hvalue⟩⟩

end

theorem exists_spelling_mark {t : Token} (h : t ∈ marks.map Prod.fst) : ∃ w, Spelling t w := by
  obtain ⟨⟨t, c⟩, hmem, rfl⟩ := List.mem_map.1 h
  exact ⟨_, spelling_written (.mark hmem)⟩

open Classical in
/-- All tokens that are left of a value that was read can be written. -/
theorem exists_spelling_of_ofDocument {document : List Char} {v : Json}
    (h : Json.ofDocument document = .ok v) : ∀ t ∈ v.distinct.tokens, ∃ w, Spelling t w := by
  have hread := Bool.eq_false_iff.1 (spellable_of_ofDocument h)
  have hkept := Bool.eq_false_iff.2 fun hany => hread (anyScalar_of_distinct v hany)
  have hscalar : ∀ x, (!decide (Spellable x)) = false → Spellable x := fun x hx => by simpa using hx
  exact forall_mem_tokens (fun _ => exists_spelling_mark) hscalar _ hkept

end Tokens

section Documents

inductive Spaced : List Token → List Char → Prop
  | nil : Spaced [] []
  | cons {t : Token} {ts : List Token} {w s : List Char} (h : Spelling t w) (rest : Spaced ts s) :
    Spaced (t :: ts) (w ++ ' ' :: s)

theorem exists_spaced {ts : List Token} (h : ∀ t ∈ ts, ∃ w, Spelling t w) :
    ∃ document, Spaced ts document := by
  induction ts with
  | nil => exact ⟨[], .nil⟩
  | cons t ts ih =>
    obtain ⟨⟨w, hw⟩, hrest⟩ := List.forall_mem_cons.1 h
    obtain ⟨s, hs⟩ := ih hrest
    exact ⟨_, .cons hw hs⟩

namespace Spaced

variable {ts : List Token} {document : List Char}

theorem lexemes_eq (h : Spaced ts document) : (lexemes document).map Lexeme.token = ts := by
  unfold lexemes
  induction h with
  | nil => rfl
  | cons h _ ih =>
    obtain ⟨left, hread⟩ := h.read _
    rw [hread, List.map_cons, ih]

theorem strip_eq (h : Spaced ts document) : Comments.strip document = .ok document := by
  unfold Comments.strip
  induction h with
  | nil => rfl
  | @cons t ts w s h _ ih =>
    have hspace : Comments.Strips .code [' '] [' '] .code :=
      Comments.strips_code (by decide) (by decide)
    have hstrips := h.kept.append hspace s
    rw [ih, List.append_assoc, List.singleton_append] at hstrips
    rw [hstrips, Comments.keep, Except.map, List.append_assoc, List.singleton_append]

theorem head (h : Spaced ts document) (nonempty : ts ≠ []) :
    ∃ c rest, document = c :: rest ∧ c.toNat < 0x80 := by
  cases h with
  | nil => exact absurd rfl nonempty
  | cons h _ =>
    obtain ⟨c, w, rfl, hc⟩ := h.head
    exact ⟨c, _, rfl, hc⟩

theorem ofDocument_eq {v : Json} (h : Spaced v.tokens document) (shallow : v.depth ≤ nestingLimit) :
    Json.ofDocument document = .ok v := by
  obtain ⟨c, rest, hdocument, hc⟩ := h.head (tokens_ne_nil v)
  have hmark : document.head? ≠ some byteOrderMark := by
    rw [hdocument, List.head?_cons, ne_eq, Option.some.injEq]
    rintro rfl
    exact absurd hc (by decide)
  have hread := Reader.reads_tokens v [] (by simpa using shallow) (lexemes document) [] h.lexemes_eq
  rw [List.append_nil] at hread
  rw [Json.ofDocument, if_neg hmark, Reader.start, hread]
  rfl

end Spaced

end Documents

end Json

namespace Root

/-- Of what is kept of a value that is read there is a document. -/
theorem ReadAs.exists_distinct {contents : Bytes} {stripped : List Char} {v : Json}
    (h : ReadAs contents stripped v) :
    ∃ contents' stripped', ReadAs contents' stripped' v.distinct := by
  obtain ⟨-, -, -, hread⟩ := h
  obtain ⟨document, hdocument⟩ := Json.exists_spaced (Json.exists_spelling_of_ofDocument hread)
  have hshallow := (Json.depth_distinct_le v).trans (Json.depth_of_ofDocument hread)
  have hhead := hdocument.head (Json.tokens_ne_nil _)
  exact ⟨Utf8.encode document, document,
    readAs_encode hhead hdocument.strip_eq (hdocument.ofDocument_eq hshallow)⟩

end Root

end LiveTemplates
