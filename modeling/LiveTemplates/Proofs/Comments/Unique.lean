import Mathlib.Data.List.Count
import LiveTemplates.Proofs.Comments.Segments
import LiveTemplates.Template.Compile

/-!
# The one reading of a document

Every document is read in exactly one way: as segments up to its end, or up to the opener of a block
comment that has no end. Stripping goes segment by segment, and fails where a reading stops at such
an opener.
-/

namespace LiveTemplates

namespace Comments

variable {α : Type} [Glyph α]

/-- A document is read as these segments, and `rest` is what no reading goes past. -/
structure ReadsAs (document : List α) (segments : List (Segment α)) (rest : List α) : Prop where
  reading : Reading rest segments
  stops : Unreadable rest
  whole : document = written segments ++ rest

section Closing

variable {s t body : List α} {segments : List (Segment α)}

theorem OpensComment.of_append (h : OpensComment (s ++ t)) (length : 2 ≤ s.length) :
    OpensComment s :=
  h.imp (fun hline => List.prefix_of_prefix_length_le hline (List.prefix_append s t) length)
    fun hblock => List.prefix_of_prefix_length_le hblock (List.prefix_append s t) length

theorem EndsLine.append (h : EndsLine s) (nonempty : s ≠ []) : EndsLine (s ++ t) := by
  obtain ⟨c, s, rfl⟩ := List.exists_cons_of_ne_nil nonempty
  exact h

theorem written_snoc_block (segments : List (Segment α)) (body : List α) :
    written (segments ++ [.block body]) =
      written segments ++ glyph '/' :: glyph '*' :: body ++ [glyph '*', glyph '/'] := by
  simp [Segment.written]

/-- With a closer behind it, an opener that stopped a reading begins one more segment. -/
theorem Reading.closed (h : Reading (glyph '/' :: glyph '*' :: body) segments)
    (closer : ¬ [glyph '*', glyph '/'] <:+: body) : Reading [] (segments ++ [.block body]) := by
  induction h with
  | nil => exact .block closer .nil
  | other quote opener _ ih =>
    refine .other quote (fun hopens => opener ?_) ih
    rw [List.append_nil, List.append_eq, written_snoc_block, ← List.cons_append] at hopens
    exact hopens.of_append (by simp; omega)
  | literal inside _ ih => exact .literal inside ih
  | unclosed _ last => cases last
  | line newline ends _ ih =>
    refine .line newline ?_ ih
    rw [List.append_nil, List.append_eq, written_snoc_block]
    exact ends.append (by simp)
  | block closer' _ ih => exact .block closer' ih

end Closing

variable [DecidableEq α]

theorem exists_readsAs (document : List α) :
    ∃ segments rest, ReadsAs document segments rest := by
  obtain ⟨segments, rest, hreading, hstops, hwhole⟩ := readable document
  exact ⟨segments, rest, hreading, hstops, hwhole⟩

namespace ReadsAs

variable {document : List α} {segments segments' : List (Segment α)} {rest rest' : List α}

theorem strip_eq (h : ReadsAs document segments rest) :
    strip document = if rest = [] then .ok (stripped segments) else .error ⟨rest.length⟩ := by
  obtain ⟨hreading, rfl | ⟨body, hbody, rfl⟩, rfl⟩ := h
  · rw [List.append_nil, strip_written_reading hreading, if_pos rfl]
  · rw [strip_unended hreading hbody, if_neg (by simp)]
    rfl

/-- Whether a reading goes to the end is told by whether stripping succeeds. -/
theorem ends_iff (h : ReadsAs document segments rest) (h' : ReadsAs document segments' rest') :
    rest = [] ↔ rest' = [] := by
  have hends : ∀ {segments : List (Segment α)} {rest}, ReadsAs document segments rest →
      (rest = [] ↔ ∃ t, strip document = .ok t) := by
    intro segments rest h
    rw [h.strip_eq]
    by_cases hrest : rest = [] <;> simp [hrest]
  rw [hends h, hends h']

theorem unique (h : ReadsAs document segments rest) (h' : ReadsAs document segments' rest') :
    segments = segments' ∧ rest = rest' := by
  have hends := h.ends_iff h'
  obtain ⟨hreading, hstops, hwhole⟩ := h
  obtain ⟨hreading', hstops', hwhole'⟩ := h'
  have hsame : written segments ++ rest = written segments' ++ rest' := hwhole.symm.trans hwhole'
  rcases hstops with rfl | ⟨body, hbody, rfl⟩
  · obtain rfl := hends.1 rfl
    exact ⟨hreading.unique hreading' (List.append_cancel_right hsame), rfl⟩
  · obtain ⟨body', hbody', rfl⟩ := hstops'.resolve_left fun hnil => by simp [hnil] at hends
    -- Closed, both readings go to the end, so they are the same with the comment as well.
    have hclosed : segments ++ [.block body] = segments' ++ [.block body'] := by
      refine (hreading.closed hbody).unique (hreading'.closed hbody') ?_
      rw [written_snoc_block, written_snoc_block, hsame]
    obtain ⟨rfl, hlast⟩ := List.append_inj' hclosed rfl
    obtain rfl : body = body' := by simpa using hlast
    exact ⟨rfl, rfl⟩

/-- The comment is told by its line, which is one more than the newlines in front of it. -/
theorem line_eq (h : ReadsAs document segments rest) :
    (Position.before document rest.length).line = (written segments).count (glyph '\n') + 1 := by
  rw [h.whole, Position.before_append, Position.line_after, Nat.add_comm]
  rfl

end ReadsAs

section Characters

omit [DecidableEq α] in
theorem keep_map_glyph (front : List Char) (rest : Except Unterminated (List Char)) :
    keep (front.map glyph : List α) (rest.map (·.map glyph)) =
      (keep front rest).map (·.map glyph) := by
  cases rest <;> simp [keep, Except.map]

omit [DecidableEq α] in
theorem head?_map_glyph {c : Char} (chars : List Char) :
    (chars.map glyph : List α).head? = some (glyph c) ↔ chars.head? = some (glyph c) := by
  cases chars <;> simp

theorem newlines_map_glyph (chars : List Char) :
    newlines (chars.map glyph : List α) = (newlines chars).map glyph := by
  simp [newlines, List.filter_map, Function.comp_def]

theorem step_map_glyph (m : Mode) (c : Char) (chars : List Char) :
    step m (glyph c : α) (chars.map glyph) =
      ((step m c chars).1.map glyph, (step m c chars).2) := by
  cases m with
  | code =>
    simp only [step, glyph_eq_glyph, head?_map_glyph, glyph_char, List.length_map]
    split
    · rfl
    split
    · rfl
    split <;> rfl
  | literal => simp only [step, glyph_eq_glyph, glyph_char, List.map_singleton]
  | line =>
    simp only [step, glyph_eq_glyph, glyph_char]
    split <;> rfl
  | block opened =>
    simp only [step, glyph_eq_glyph, head?_map_glyph, glyph_char]
    split
    · rfl
    · rw [← newlines_map_glyph, List.map_singleton]
  | escape | opener | closer => rfl

/-- A document of characters is stripped like the text of these characters. -/
theorem stripFrom_map_glyph (m : Mode) (chars : List Char) :
    stripFrom m (chars.map glyph : List α) = (stripFrom m chars).map (·.map glyph) := by
  induction chars generalizing m with
  | nil => cases m <;> rfl
  | cons c chars ih =>
    rw [List.map_cons, stripFrom_cons (step_map_glyph m c chars), ih, keep_map_glyph, stripFrom]

omit [DecidableEq α] in
theorem glyph_injective : Function.Injective (glyph : Char → α) := fun _ _ => Glyph.glyph_inj

theorem line_before_map_glyph (chars : List Char) (left : Nat) :
    (Position.before (chars.map glyph : List α) left).line =
      (Position.before chars left).line := by
  rw [Position.before, Position.before, Position.line_after, Position.line_after,
    List.length_map, ← List.map_take, List.count_map_of_injective _ _ glyph_injective]
  rfl

theorem ReadsAs.ofDocument_eq {document : List α} {segments : List (Segment α)} {rest : List α}
    (h : ReadsAs document segments rest) (unended : rest ≠ []) {chars : List Char}
    (hchars : document = chars.map glyph) : Root.ofDocument chars =
      .error (.rejected (.unterminatedComment ((written segments).count (glyph '\n') + 1))) := by
  have hstrip : strip chars = .error ⟨rest.length⟩ := by
    have hglyphs := h.strip_eq
    rw [if_neg unended, hchars, strip, stripFrom_map_glyph] at hglyphs
    cases hplain : stripFrom .code chars with
    | ok t => simp [hplain, Except.map] at hglyphs
    | error comment =>
      rw [hplain] at hglyphs
      rw [strip, hplain, Except.error.inj hglyphs]
  rw [Root.ofDocument_unlimited, hstrip]
  dsimp only
  rw [← line_before_map_glyph (α := α), ← hchars, h.line_eq]

end Characters

/-- Every document has exactly one reading. If it goes to the end, stripping gives what it leaves of
the segments, one after the other. It fails if and only if the reading stops at a block comment that
has no end, and then tells where this comment begins. -/
theorem strip_goes_by_segments (α : Type) [DecidableEq α] [Glyph α] (document : List α) :
    ∃ segments rest, ReadsAs document segments rest ∧
      (∀ segments' rest', ReadsAs document segments' rest' →
        segments' = segments ∧ rest' = rest) ∧
      (rest = [] → strip document = .ok (segments.flatMap Segment.stripped)) ∧
      ((∃ comment, strip document = .error comment) ↔
        ∃ body, rest = glyph '/' :: glyph '*' :: body ∧ ¬ [glyph '*', glyph '/'] <:+: body) ∧
      (rest ≠ [] → strip document = .error ⟨rest.length⟩ ∧
        (Position.before document rest.length).line = (written segments).count (glyph '\n') + 1 ∧
        ∀ chars : List Char, document = chars.map glyph → Root.ofDocument chars =
          .error (.rejected
            (.unterminatedComment ((written segments).count (glyph '\n') + 1)))) := by
  obtain ⟨segments, rest, h⟩ := exists_readsAs document
  have hstrip := h.strip_eq
  refine ⟨segments, rest, h, fun segments' rest' h' => h'.unique h, fun hend => ?_, ?_, ?_⟩
  · rw [hstrip, if_pos hend]
    rfl
  · rw [hstrip]
    rcases h.stops with rfl | ⟨body, hbody, rfl⟩
    · simp
    · simpa using hbody
  · intro hopen
    rw [if_neg hopen] at hstrip
    exact ⟨hstrip, h.line_eq, fun chars hchars => h.ofDocument_eq hopen hchars⟩

/-- A block comment is not closed by the star of its own opener. -/
example : strip "a/*/ \"//".toList = .error ⟨7⟩ := rfl

end Comments

end LiveTemplates
