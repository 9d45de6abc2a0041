import LiveTemplates.Proofs.Writing.Grammar
import LiveTemplates.Template.Comments

/-!
# Comments in written documents

Stripping a written document leaves its tokens as they are, and nothing but blanks in the gaps. It
goes from code to code over a token as well as over a gap, and within a text it stays in the
literal, since every escape takes its backslash along with the character behind it.
-/

namespace LiveTemplates

namespace Comments

section Modes

variable {α : Type} [DecidableEq α] [Glyph α]

omit [DecidableEq α] [Glyph α] in
theorem keep_keep (a b : List α) (rest : Except Unterminated (List α)) :
    keep a (keep b rest) = keep (a ++ b) rest := by
  cases rest <;> simp [keep, Except.map]

omit [DecidableEq α] [Glyph α] in
@[simp] theorem keep_nil (rest : Except Unterminated (List α)) : keep [] rest = rest := by
  cases rest <;> rfl

/-- Stripping puts `t` for `s`, whatever follows, and goes on in another mode behind it. -/
def Strips (m : Mode) (s t : List α) (m' : Mode) : Prop :=
  ∀ rest, stripFrom m (s ++ rest) = keep t (stripFrom m' rest)

theorem Strips.nil (m : Mode) : Strips m ([] : List α) [] m := fun _ => (keep_nil _).symm

theorem Strips.append {m m' m'' : Mode} {s s' t t' : List α} (h : Strips m s t m')
    (h' : Strips m' s' t' m'') : Strips m (s ++ s') (t ++ t') m'' := by
  intro rest
  rw [List.append_assoc, h, h', keep_keep]

theorem Strips.cons {m m' m'' : Mode} {c : α} {s t : List α} (h : Strips m [c] [c] m')
    (h' : Strips m' s t m'') : Strips m (c :: s) (c :: t) m'' := h.append h'

theorem keep_atEnd {m : Mode} (ends : atEnd m = .ok ([] : List α)) (t : List α) :
    keep t (stripFrom m []) = .ok t := by
  rw [stripFrom, ends, keep, Except.map, List.append_nil]

/-- A sequence that ends outside of block comments is stripped as a whole. -/
theorem Strips.whole {m m' : Mode} {s t : List α} (h : Strips m s t m')
    (ends : atEnd m' = .ok ([] : List α)) : stripFrom m s = .ok t := by
  have hend := h []
  rwa [List.append_nil, keep_atEnd ends] at hend

theorem stripFrom_cons {m m' : Mode} {c : α} {rest front : List α}
    (h : step m c rest = (front, m')) :
    stripFrom m (c :: rest) = keep front (stripFrom m' rest) := by
  rw [stripFrom, h]

theorem strips_one {m m' : Mode} {c : α} {front : List α}
    (h : ∀ rest, step m c rest = (front, m')) : Strips m [c] front m' :=
  fun rest => stripFrom_cons (h rest)

theorem step_line {c : α} {rest : List α} (h : c ≠ glyph '\n') :
    step .line c rest = ([], .line) := if_neg h

theorem strips_code {c : α} (slash : c ≠ glyph '/') (quote : c ≠ glyph '"') :
    Strips .code [c] [c] .code :=
  strips_one fun rest => by simp only [step, if_neg quote, slash, false_and, ↓reduceIte]

theorem strips_code_all {s : List α} (h : ∀ c ∈ s, c ≠ glyph '/' ∧ c ≠ glyph '"') :
    Strips .code s s .code := by
  induction s with
  | nil => exact .nil .code
  | cons c s ih =>
    obtain ⟨⟨slash, quote⟩, hrest⟩ := List.forall_mem_cons.1 h
    exact (strips_code slash quote).cons (ih hrest)

theorem strips_opening_quote : Strips .code [(glyph '"' : α)] [glyph '"'] .literal :=
  strips_one fun _ => if_pos rfl

theorem strips_closing_quote : Strips .literal [(glyph '"' : α)] [glyph '"'] .code :=
  strips_one fun _ => by simp only [step, ↓reduceIte]

theorem strips_literal {c : α} (quote : c ≠ glyph '"') (backslash : c ≠ glyph '\\') :
    Strips .literal [c] [c] .literal :=
  strips_one fun _ => by simp only [step, if_neg quote, if_neg backslash]

theorem strips_backslash : Strips .literal [(glyph '\\' : α)] [glyph '\\'] .escape :=
  strips_one fun _ => by simp [step]

theorem strips_escape (c : α) : Strips .literal [glyph '\\', c] [glyph '\\', c] .literal :=
  strips_backslash.cons (strips_one fun _ => rfl)

/-- Characters in which a block comment goes on do not begin with its closer. -/
theorem stripFrom_block {opened : Nat} {c : α} {rest : List α}
    (h : ¬ [glyph '*', glyph '/'] <+: c :: rest) :
    stripFrom (.block opened) (c :: rest) =
      keep (newlines [c]) (stripFrom (.block opened) rest) := by
  refine stripFrom_cons (if_neg ?_)
  rintro ⟨rfl, hslash⟩
  obtain ⟨rest', rfl⟩ := List.head?_eq_some_iff.1 hslash
  exact h ⟨rest', rfl⟩

theorem strips_closer (opened : Nat) :
    Strips (.block opened) [(glyph '*' : α), glyph '/'] [] .code := by
  intro rest
  have hstar : step (.block opened) (glyph '*') (glyph '/' :: rest) = ([], .closer) :=
    if_pos ⟨rfl, rfl⟩
  rw [List.cons_append, List.singleton_append, stripFrom_cons hstar, keep_nil]
  exact stripFrom_cons rfl

/-- A block comment ends at the first closer, even if its body ends like one begins. -/
theorem strips_block {body : List α} (h : ¬ [glyph '*', glyph '/'] <:+: body) (opened : Nat) :
    Strips (.block opened) (body ++ [glyph '*', glyph '/']) (newlines body) .code := by
  induction body with
  | nil => exact strips_closer opened
  | cons c body ih =>
    intro rest
    -- No closer begins in the body and ends behind it, since a star comes first there.
    have hopen : ¬ [glyph '*', glyph '/'] <+: c :: (body ++ [glyph '*', glyph '/'] ++ rest) := by
      intro hprefix
      obtain ⟨rfl, hslash⟩ := List.cons_prefix_cons.1 hprefix
      cases body with
      | nil => simp at hslash
      | cons d body =>
        obtain ⟨rfl, -⟩ := List.cons_prefix_cons.1 hslash
        exact h (List.prefix_append [glyph '*', glyph '/'] body).isInfix
    have hbody : ¬ [glyph '*', glyph '/'] <:+: body := fun hin =>
      h (hin.trans (List.suffix_cons c body).isInfix)
    rw [List.cons_append, List.cons_append, stripFrom_block hopen, ih hbody, keep_keep, newlines,
      newlines, ← List.filter_append, List.singleton_append]
    rfl

theorem strips_line {body : List α} (h : glyph '\n' ∉ body) :
    Strips .line (body ++ [glyph '\n']) [glyph '\n'] .code := by
  induction body with
  | nil => exact strips_one fun _ => if_pos rfl
  | cons c body ih =>
    rw [List.mem_cons, not_or] at h
    exact (strips_one fun _ => step_line (Ne.symm h.1)).append (ih h.2)

theorem stripFrom_line_opener (rest : List α) :
    stripFrom .code (glyph '/' :: glyph '/' :: rest) = stripFrom .line rest := by
  have hfirst : step .code (glyph '/') (glyph '/' :: rest) = ([], .line) := by simp [step]
  rw [stripFrom_cons hfirst, stripFrom_cons (step_line (by simp)), keep_nil, keep_nil]

theorem stripFrom_block_opener (rest : List α) :
    stripFrom .code (glyph '/' :: glyph '*' :: rest) =
      keep [glyph ' '] (stripFrom (.block (rest.length + 2)) rest) := by
  have hslash : step .code (glyph '/') (glyph '*' :: rest) =
      ([glyph ' '], .opener (rest.length + 2)) := by simp [step]
  have hstar : step (.opener (rest.length + 2)) (glyph '*') rest =
      ([], .block (rest.length + 2)) := rfl
  rw [stripFrom_cons hslash, stripFrom_cons hstar, keep_nil]

theorem strips_block_comment {body : List α} (h : ¬ [glyph '*', glyph '/'] <:+: body) :
    Strips .code (glyph '/' :: glyph '*' :: body ++ [glyph '*', glyph '/'])
      (glyph ' ' :: newlines body) .code := by
  intro rest
  rw [List.cons_append, List.cons_append, List.cons_append, List.cons_append,
    stripFrom_block_opener, strips_block h, keep_keep, List.singleton_append]

theorem strips_line_comment {body : List α} (h : glyph '\n' ∉ body) :
    Strips .code (glyph '/' :: glyph '/' :: body ++ [glyph '\n']) [glyph '\n'] .code := by
  intro rest
  rw [List.cons_append, List.cons_append, List.cons_append, List.cons_append,
    stripFrom_line_opener, strips_line h]

theorem stripFrom_line_end {body : List α} (h : glyph '\n' ∉ body) :
    stripFrom .line body = .ok [] := by
  induction body with
  | nil => rfl
  | cons c body ih =>
    rw [List.mem_cons, not_or] at h
    rw [stripFrom_cons (step_line (Ne.symm h.1)), keep_nil, ih h.2]

end Modes

open Json

section Tokens

theorem plain_of_hexDigit {n : Nat} {c : Char} (h : HexDigit n c) : c ≠ '"' ∧ c ≠ '\\' := by
  have hall : ∀ c ∈ "0123456789abcdef".toList ++ "0123456789ABCDEF".toList,
      c ≠ '"' ∧ c ≠ '\\' := by simp
  rcases h with h | h
  · exact hall c (List.mem_append_left _ (List.mem_of_getElem? h))
  · exact hall c (List.mem_append_right _ (List.mem_of_getElem? h))

theorem strips_unit {n : Nat} {s : List Char} (h : HexUnit n s) :
    Strips .literal ('\\' :: 'u' :: s) ('\\' :: 'u' :: s) .literal := by
  obtain ⟨a, b, c, d, w, x, y, z, -, rfl, hw, hx, hy, hz⟩ := h
  have digit : ∀ {n c}, HexDigit n c → Strips .literal [c] [c] .literal := fun h =>
    strips_literal (plain_of_hexDigit h).1 (plain_of_hexDigit h).2
  exact (strips_escape 'u').append
    ((digit hw).cons ((digit hx).cons ((digit hy).cons (digit hz))))

theorem strips_char {c : Char} {s : List Char} (h : WrittenChar c s) :
    Strips .literal s s .literal := by
  cases h with
  | plain _ quote backslash => exact strips_literal quote backslash
  | short => exact strips_escape _
  | unit h => exact strips_unit h
  | surrogates _ high low => exact (strips_unit high).append (strips_unit low)

theorem strips_text {t : Text} {s : List Char} (h : WrittenText t s) :
    Strips .literal s s .literal := by
  induction h with
  | nil => exact .nil .literal
  | cons h _ ih => exact (strips_char h).append ih

theorem plain_of_isDigit {c : Char} (h : c.isDigit = true) : c ≠ '/' ∧ c ≠ '"' := by
  constructor <;> rintro rfl <;> revert h <;> decide

theorem strips_natural (n : Nat) : Strips .code (Nat.toDigits 10 n) (Nat.toDigits 10 n) .code :=
  strips_code_all fun _ hc => plain_of_isDigit (isDigit_of_mem hc)

/-- A token is kept as it is written, also if it is a text that looks like a comment. -/
theorem strips_token {t : Token} {s : List Char} (h : WrittenToken t s) :
    Strips .code s s .code := by
  cases h with
  | mark h =>
    have hall : ∀ m ∈ marks, m.2 ≠ '/' ∧ m.2 ≠ '"' := by decide
    obtain ⟨slash, quote⟩ := hall _ h
    exact strips_code slash quote
  | null => exact strips_code_all (by simp)
  | true => exact strips_code_all (by simp)
  | false => exact strips_code_all (by simp)
  | natural n => exact strips_natural n
  | negative n => exact (strips_code (by decide) (by decide)).cons (strips_natural n)
  | text h => exact (strips_opening_quote.append (strips_text h)).append strips_closing_quote

end Tokens

section Gaps

theorem blank_newlines (body : List Char) : Blank (newlines body) := by
  intro c hc
  have hnewline : c = '\n' := by simpa using (List.mem_filter.1 hc).2
  subst hnewline
  decide

theorem blank_append {s t : List Char} (hs : Blank s) (ht : Blank t) : Blank (s ++ t) := by
  intro c hc
  exact (List.mem_append.1 hc).elim (hs c) (ht c)

/-- Of a gap nothing but blanks are left. -/
theorem strips_gap {g : List Char} (h : Gap g) : ∃ g', Blank g' ∧ Strips .code g g' .code := by
  induction h with
  | nil => exact ⟨[], by simp [Blank], .nil .code⟩
  | @blank c s h _ ih =>
    obtain ⟨g', hblank, hstrips⟩ := ih
    have hall : ∀ c ∈ blanks, c ≠ '/' ∧ c ≠ '"' := by simp [blanks]
    obtain ⟨slash, quote⟩ := hall c h
    exact ⟨c :: g', List.forall_mem_cons.2 ⟨h, hblank⟩, (strips_code slash quote).cons hstrips⟩
  | @block body s h _ ih =>
    obtain ⟨g', hblank, hstrips⟩ := ih
    have hwhole := (strips_block_comment h).append hstrips
    rw [List.append_assoc] at hwhole
    have hfront : Blank (' ' :: newlines body) :=
      List.forall_mem_cons.2 ⟨by decide, blank_newlines body⟩
    exact ⟨_, blank_append hfront hblank, hwhole⟩
  | @line body s h _ ih =>
    obtain ⟨g', hblank, hstrips⟩ := ih
    have hwhole := (strips_line_comment h).append hstrips
    rw [List.append_assoc] at hwhole
    have hnewline : Blank ['\n'] := by simp [Blank, blanks]
    exact ⟨_, blank_append hnewline hblank, hwhole⟩

theorem strip_lastGap {s : List Char} (h : LastGap s) :
    ∃ s', Blank s' ∧ stripFrom .code s = .ok s' := by
  cases h with
  | gap h =>
    obtain ⟨g', hblank, hstrips⟩ := strips_gap h
    exact ⟨g', hblank, hstrips.whole rfl⟩
  | @line g body h newline =>
    obtain ⟨g', hblank, hstrips⟩ := strips_gap h
    refine ⟨g', hblank, ?_⟩
    have hcomment : stripFrom .code ('/' :: '/' :: body) = .ok [] :=
      (stripFrom_line_opener body).trans (stripFrom_line_end newline)
    rw [hstrips, hcomment]
    simp [keep, Except.map]

/-- Stripping a document gives one of the same tokens that has no comments. -/
theorem strip_written {ts : List Token} {document : List Char}
    (h : Written Gap LastGap ts document) :
    ∃ stripped, strip document = .ok stripped ∧ Written Blank Blank ts stripped := by
  unfold strip
  induction h with
  | nil h =>
    obtain ⟨s', hblank, hstrip⟩ := strip_lastGap h
    exact ⟨s', hstrip, .nil hblank⟩
  | @cons t ts g s s' h token _ ih =>
    obtain ⟨g', hblank, hstrips⟩ := strips_gap h
    obtain ⟨stripped, hstrip, hrest⟩ := ih
    refine ⟨g' ++ s ++ stripped, ?_, .cons hblank token hrest⟩
    rw [(hstrips.append (strips_token token)), hstrip]
    rfl

end Gaps

end Comments

end LiveTemplates
