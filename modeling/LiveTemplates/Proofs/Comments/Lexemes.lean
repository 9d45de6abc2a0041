import LiveTemplates.Proofs.Comments.Places
import LiveTemplates.Proofs.Reading.Stops

/-!
# Lexemes of what stripping leaves

Whatever begins a lexeme of a stripped text was kept, since nothing but blanks is added. The texts
among its lexemes are the literals of the document: both end at the first quote that no backslash
escapes. Hence the flaws of a text stand at kept characters as well, even those at a newline.
-/

namespace LiveTemplates

namespace Comments

open Json

variable {segments later : List (Segment Char)} {left : Nat}

section Kept

def KeptAt (segments : List (Segment Char)) (left : Nat) : Prop :=
  ∃ pre c post, pieces segments = pre ++ .kept c :: post ∧ left = (results post).length + 1

theorem KeptAt.append (h : KeptAt later left) (before : List (Segment Char)) :
    KeptAt (before ++ later) left := by
  obtain ⟨pre, c, post, hpieces, hleft⟩ := h
  refine ⟨pieces before ++ pre, c, post, ?_, hleft⟩
  rw [pieces_append, hpieces, List.append_assoc]

theorem keptAt_other (c : Char) (later : List (Segment Char)) :
    KeptAt (.other c :: later) ((stripped later).length + 1) :=
  ⟨[], c, pieces later, rfl, by rw [results_pieces]⟩

theorem keptAt_literal {s : List Char} (hlow : (stripped later).length < left)
    (hhigh : left ≤ ('"' :: s).length + (stripped later).length) :
    KeptAt (.literal s :: later) left := by
  obtain ⟨i, hi⟩ : ∃ i, i = ('"' :: s).length + (stripped later).length - left := ⟨_, rfl⟩
  have hbound : i < ('"' :: s).length := by omega
  have hsplit : '"' :: s =
      ('"' :: s).take i ++ ('"' :: s)[i] :: ('"' :: s).drop (i + 1) := by
    rw [← List.drop_eq_getElem_cons hbound, List.take_append_drop]
  refine ⟨(('"' :: s).take i).map .kept, ('"' :: s)[i],
    (('"' :: s).drop (i + 1)).map .kept ++ pieces later, ?_, ?_⟩
  · have hpieces : pieces (.literal s :: later) = ('"' :: s).map .kept ++ pieces later := rfl
    rw [hpieces, ← List.cons_append, ← List.append_assoc, ← List.map_cons, ← List.map_append,
      ← hsplit]
  · rw [results_append, results_map_kept, results_pieces, List.length_append, List.length_drop]
    omega

end Kept

theorem Reading.tail {rest : List Char} {s : Segment Char} (h : Reading rest (s :: later)) :
    Reading rest later := by
  cases h with
  | other _ _ h => exact h
  | literal _ h => exact h
  | unclosed _ _ => exact .nil
  | line _ _ h => exact h
  | block _ h => exact h

theorem Reading.of_append {rest : List Char} {before : List (Segment Char)}
    (h : Reading rest (before ++ later)) : Reading rest later := by
  induction before with
  | nil => exact h
  | cons s before ih => exact ih h.tail

/-- Bare characters are characters outside of literals and comments, with line comments in between
at most. -/
theorem exists_later {taken after : List Char} (hbare : ∀ c ∈ taken, Bare c)
    (h : stripped segments = taken ++ after) :
    ∃ before later, segments = before ++ later ∧ stripped later = after := by
  induction segments generalizing taken with
  | nil =>
    obtain ⟨rfl, rfl⟩ := List.append_eq_nil_iff.1 h.symm
    exact ⟨[], [], rfl, rfl⟩
  | cons s segments ih =>
    cases taken with
    | nil => exact ⟨[], s :: segments, rfl, h⟩
    | cons c taken =>
      obtain ⟨hc, htaken⟩ := List.forall_mem_cons.1 hbare
      cases s with
      | other d =>
        obtain ⟨before, later, rfl, hlater⟩ := ih htaken (List.cons.inj h).2
        exact ⟨.other d :: before, later, rfl, hlater⟩
      | literal s => exact absurd (List.cons.inj h).1.symm hc.2
      | line body =>
        obtain ⟨before, later, rfl, hlater⟩ := ih hbare h
        exact ⟨.line body :: before, later, rfl, hlater⟩
      | block body =>
        obtain ⟨rfl, -⟩ := List.cons.inj h
        exact absurd hc.1 (by decide)

/-- A flaw stands within its literal, if no text that begins there goes beyond it. -/
theorem keptAt_flaw {s : List Char} {flaw : Flaw}
    (h : scanText ((s ++ stripped later).length + 1) 0 (s ++ stripped later) = .error flaw)
    (hs : ∀ u v, Inside u → u ++ v = s ++ stripped later → (stripped later).length ≤ v.length) :
    KeptAt (.literal s :: later) flaw.left := by
  have hlength : (s ++ stripped later).length + 1 =
      ('"' :: s).length + (stripped later).length := by
    simp only [List.length_append, List.length_cons]
    omega
  rcases scanText_eq_error h with hopened | ⟨u, v, hu, huv, hlow, hhigh⟩
  · rw [hopened, hlength]
    exact keptAt_literal (by simp only [List.length_cons]; omega) (Nat.le_refl _)
  · have hv := hs u v hu huv.symm
    exact keptAt_literal (by omega) (by omega)

structure LexemeAt (segments : List (Segment Char)) (l : Lexeme) : Prop where
  begins : KeptAt segments l.left
  flawed : ∀ flaw, l.token = .flawed flaw → KeptAt segments flaw.left

variable {l : Lexeme}

theorem LexemeAt.append (h : LexemeAt later l) (before : List (Segment Char)) :
    LexemeAt (before ++ later) l :=
  ⟨h.begins.append before, fun flaw hflaw => (h.flawed flaw hflaw).append before⟩

/-- A lexeme stands at the first character if that is bare, or later. -/
theorem lexemeAt_other {c : Char} (bare : Bare c)
    (hl : l ∈ lexemesFrom 0 (stripped (.other c :: later))) : LexemeAt (.other c :: later) l ∨
      ∃ before last, later = before ++ last ∧ l ∈ lexemesFrom 0 (stripped last) := by
  obtain ⟨token, after, hlexemes, ⟨taken, hbare, htaken⟩, hflawed⟩ :=
    lexemesFrom_bare bare (stripped later)
  rw [stripped_cons, Segment.stripped, List.singleton_append, hlexemes] at hl
  rcases List.mem_cons.1 hl with rfl | hbehind
  · exact .inl ⟨keptAt_other c later, fun flaw hflaw => absurd hflaw (hflawed flaw)⟩
  · obtain ⟨before, last, rfl, rfl⟩ := exists_later hbare htaken
    exact .inr ⟨before, last, rfl, hbehind⟩

/-- A lexeme is the text of the literal that comes first, or stands behind it. -/
theorem lexemeAt_closed {t : List Char} (inside : Inside t)
    (hl : l ∈ lexemesFrom 0 (stripped (.literal (t ++ ['"']) :: later))) :
    LexemeAt (.literal (t ++ ['"']) :: later) l ∨ l ∈ lexemesFrom 0 (stripped later) := by
  have hstripped : stripped (.literal (t ++ ['"']) :: later) =
      '"' :: t ++ '"' :: stripped later := by simp [Segment.stripped]
  have htext : t ++ ['"'] ++ stripped later = t ++ '"' :: stripped later := by simp
  have hquote : KeptAt (.literal (t ++ ['"']) :: later)
      ((t ++ '"' :: stripped later).length + 1) := by
    refine keptAt_literal ?_ (Nat.le_of_eq ?_)
    all_goals
      simp only [List.length_append, List.length_cons, List.length_nil]
      omega
  rw [hstripped] at hl
  cases hscan : scanText ((t ++ '"' :: stripped later).length + 1) 0
      (t ++ '"' :: stripped later) with
  | ok found =>
    obtain ⟨text, after⟩ := found
    obtain ⟨body, hbody, heq⟩ := scanText_eq_ok hscan
    obtain ⟨rfl, rfl⟩ := inside.closed_unique hbody.inside heq
    rw [lexemesFrom_text hscan] at hl
    refine (List.mem_cons.1 hl).imp_left ?_
    rintro rfl
    exact ⟨hquote, by simp⟩
  | error flaw =>
    rw [List.cons_append, lexemesFrom_flawed hscan, List.mem_singleton] at hl
    subst hl
    refine .inl ⟨hquote, ?_⟩
    rintro _ ⟨⟩
    rw [← htext] at hscan
    refine keptAt_flaw hscan fun u v hu huv => ?_
    rw [htext] at huv
    obtain ⟨w, -, -, rfl⟩ := hu.split inside huv
    simp only [List.length_append, List.length_cons]
    omega

theorem lexemeAt_unclosed {s : List Char} (unclosed : Unclosed s)
    (hl : l ∈ lexemesFrom 0 (stripped [.literal s])) : LexemeAt [.literal s] l := by
  have hstripped : stripped [.literal s] = '"' :: s := by simp [Segment.stripped]
  rw [hstripped] at hl
  cases hscan : scanText (s.length + 1) 0 s with
  | ok found =>
    obtain ⟨text, after⟩ := found
    obtain ⟨body, hbody, rfl⟩ := scanText_eq_ok hscan
    exact absurd unclosed hbody.inside.not_unclosed
  | error flaw =>
    rw [lexemesFrom_flawed hscan, List.mem_singleton] at hl
    subst hl
    refine ⟨keptAt_literal (by simp) (by simp), ?_⟩
    rintro _ ⟨⟩
    rw [← List.append_nil s] at hscan
    exact keptAt_flaw hscan fun _ _ _ _ => Nat.zero_le _

theorem lexemeAt_of_mem_lexemes (h : Reading [] segments)
    (hl : l ∈ lexemesFrom 0 (stripped segments)) : LexemeAt segments l := by
  induction hlength : segments.length using Nat.strongRecOn generalizing segments with
  | _ n ih =>
    have hlater : ∀ before later, segments = before ++ later → before ≠ [] →
        l ∈ lexemesFrom 0 (stripped later) → LexemeAt segments l := by
      rintro before later rfl hbefore hl
      have hshorter : later.length < n := by
        have := List.length_pos_iff.2 hbefore
        rw [List.length_append] at hlength
        omega
      exact (ih later.length hshorter h.of_append hl rfl).append before
    cases h with
    | nil => cases hl
    | @other c later quote _ _ =>
      by_cases hgap : isGap c = true
      · have hblank : Blank [c] := by simpa [Blank] using isGap_iff.1 hgap
        rw [stripped_cons, Segment.stripped, lexemesFrom_blank hblank] at hl
        exact hlater [.other c] later rfl (List.cons_ne_nil _ _) hl
      · rcases lexemeAt_other ⟨by simpa using hgap, quote⟩ hl with
          hfirst | ⟨before, last, rfl, hlast⟩
        · exact hfirst
        · exact hlater (.other c :: before) last rfl (List.cons_ne_nil _ _) hlast
    | @literal t later inside _ =>
      rcases lexemeAt_closed inside hl with hfirst | hl
      · exact hfirst
      · exact hlater [.literal _] later rfl (List.cons_ne_nil _ _) hl
    | unclosed unclosed _ => exact lexemeAt_unclosed unclosed hl
    | @line body later _ _ _ => exact hlater [.line body] later rfl (List.cons_ne_nil _ _) hl
    | @block body later _ _ =>
      have hblank : Blank (' ' :: newlines body) :=
        List.forall_mem_cons.2 ⟨by decide, blank_newlines body⟩
      rw [stripped_cons, Segment.stripped, glyph_char, lexemesFrom_blank hblank] at hl
      exact hlater [.block body] later rfl (List.cons_ne_nil _ _) hl

end Comments

end LiveTemplates
