import LiveTemplates.Proofs.Comments.Unique

/-!
# Documents without comments

What stripping leaves of a document has no comment outside of its literals. A slash that is kept
never comes to stand before another slash or a star: a comment behind it would have begun at the
slash itself. Hence stripping a second time changes nothing, and stripping changes nothing at all
only where there is no comment.
-/

namespace LiveTemplates

namespace Comments

variable {α : Type} [Glyph α]
variable {document s t : List α} {segments : List (Segment α)} {rest : List α}

namespace Segment

def isComment : Segment α → Bool
  | .line _ | .block _ => true
  | _ => false

theorem opensComment_written {s : Segment α} (h : s.isComment) (segments : List (Segment α)) :
    OpensComment (Comments.written (s :: segments)) := by
  cases s with
  | other | literal => cases h
  | line body => exact opensComment_line body segments
  | block body => exact opensComment_block body segments

variable [DecidableEq α]

theorem stripped_eq_written {s : Segment α} (h : ¬ s.isComment) : s.stripped = s.written := by
  cases s with
  | other | literal => rfl
  | line | block => exact absurd rfl h

theorem length_stripped_lt {s : Segment α} (h : s.isComment) :
    s.stripped.length < s.written.length := by
  cases s with
  | other | literal => cases h
  | line body => simp [stripped, written]
  | block body =>
    have hle : (newlines body).length ≤ body.length := List.length_filter_le _ body
    simp only [stripped, written, List.length_append, List.length_cons, List.length_nil]
    omega

theorem length_stripped_le (s : Segment α) : s.stripped.length ≤ s.written.length := by
  by_cases h : s.isComment
  · exact Nat.le_of_lt (length_stripped_lt h)
  · exact Nat.le_of_eq (congrArg List.length (stripped_eq_written h))

end Segment

theorem opensComment_cons {c : α} : OpensComment (c :: s) ↔
    c = glyph '/' ∧ (s.head? = some (glyph '/') ∨ s.head? = some (glyph '*')) := by
  cases s <;> simp [OpensComment, List.cons_prefix_cons, eq_comm, and_or_left]

theorem written_map_other (s : List α) : written (s.map .other) = s := by
  induction s with
  | nil => rfl
  | cons c s ih => rw [List.map_cons, written_cons, ih, Segment.written, List.singleton_append]

section Lengths

variable [DecidableEq α]

theorem length_stripped_le (segments : List (Segment α)) :
    (stripped segments).length ≤ (written segments).length := by
  induction segments with
  | nil => exact Nat.le_refl _
  | cons s segments ih =>
    have hs := s.length_stripped_le
    rw [stripped_cons, written_cons, List.length_append, List.length_append]
    omega

/-- Stripping shortens every document that has a comment. -/
theorem stripped_eq_written_iff :
    stripped segments = written segments ↔ ∀ s ∈ segments, ¬ s.isComment := by
  constructor
  · intro h s hs hcomment
    obtain ⟨before, after, rfl⟩ := List.append_of_mem hs
    have hlength := congrArg List.length h
    have hbefore := length_stripped_le before
    have hafter := length_stripped_le after
    have hshorter := Segment.length_stripped_lt hcomment
    simp only [stripped_append, written_append, stripped_cons, written_cons,
      List.length_append] at hlength
    omega
  · intro h
    induction segments with
    | nil => rfl
    | cons s segments ih =>
      obtain ⟨hs, hsegments⟩ := List.forall_mem_cons.1 h
      rw [stripped_cons, written_cons, Segment.stripped_eq_written hs, ih hsegments]

end Lengths

section Leavings

variable [DecidableEq α]

def Segment.left : Segment α → List (Segment α)
  | .other c => [.other c]
  | .literal s => [.literal s]
  | .line _ => []
  | .block body => (glyph ' ' :: newlines body).map .other

def left (segments : List (Segment α)) : List (Segment α) := segments.flatMap Segment.left

@[simp] theorem left_cons (s : Segment α) (segments : List (Segment α)) :
    left (s :: segments) = s.left ++ left segments := rfl

theorem Segment.written_left (s : Segment α) : Comments.written s.left = s.stripped := by
  cases s with
  | other c => rfl
  | literal s => exact List.append_nil _
  | line body => rfl
  | block body => exact written_map_other _

theorem written_left (segments : List (Segment α)) :
    written (left segments) = stripped segments := by
  induction segments with
  | nil => rfl
  | cons s segments ih =>
    rw [left_cons, written_append, s.written_left, ih, stripped_cons]

theorem not_isComment_of_mem_left {u : Segment α} (h : u ∈ left segments) : ¬ u.isComment := by
  obtain ⟨s, -, hu⟩ := List.mem_flatMap.1 h
  cases s with
  | other | literal =>
    obtain rfl := List.mem_singleton.1 hu
    exact Bool.false_ne_true
  | line => cases hu
  | block =>
    obtain ⟨c, -, rfl⟩ := List.mem_map.1 hu
    exact Bool.false_ne_true

/-- A character that begins no comment begins none when what follows it is stripped. -/
theorem not_opensComment_stripped {c : α} (h : ¬ OpensComment (c :: written segments)) :
    ¬ OpensComment (c :: stripped segments) := by
  rw [opensComment_cons] at h ⊢
  rintro ⟨rfl, hnext⟩
  refine h ⟨rfl, ?_⟩
  cases segments with
  | nil => exact hnext
  | cons s segments =>
    cases s with
    | other | literal => exact hnext
    -- A comment that follows would have begun at the slash.
    | line | block => exact .inl rfl

omit [DecidableEq α] in
/-- Characters that begin neither a literal nor a comment are read by themselves. -/
theorem Reading.others (h : Reading rest segments)
    (plain : ∀ c ∈ s, c ≠ glyph '"' ∧ c ≠ glyph '/') :
    Reading rest (s.map .other ++ segments) := by
  induction s with
  | nil => exact h
  | cons c s ih =>
    obtain ⟨⟨quote, slash⟩, hrest⟩ := List.forall_mem_cons.1 plain
    refine .other quote ?_ (ih hrest)
    rw [opensComment_cons]
    exact fun hopens => slash hopens.1

/-- The segments that stripping leaves are read as such. -/
theorem Reading.left (h : Reading [] segments) : Reading [] (left segments) := by
  induction h with
  | nil => exact .nil
  | @other c segments quote opener _ ih =>
    rw [List.append_nil] at opener
    have hleft := not_opensComment_stripped opener
    rw [← written_left, ← List.append_nil (written _)] at hleft
    exact .other quote hleft ih
  | literal inside _ ih => exact .literal inside ih
  | unclosed inside last => exact .unclosed inside last
  | line _ _ _ ih => exact ih
  | @block body segments _ _ ih =>
    refine ih.others (List.forall_mem_cons.2 ⟨by simp, fun c hc => ?_⟩)
    have hnewline : c = glyph '\n' := by simpa using (List.mem_filter.1 hc).2
    simp [hnewline]

end Leavings

section Outside

inductive Outside : List α → Prop
  | nil : Outside []
  | other {c : α} {s : List α} (quote : c ≠ glyph '"') (rest : Outside s) : Outside (c :: s)
  | literal {t s : List α} (inside : Inside t) (rest : Outside s) :
    Outside (glyph '"' :: t ++ glyph '"' :: s)

def Uncommented (text : List α) : Prop :=
  ∀ front rest, text = front ++ rest → Outside front → ¬ OpensComment rest

theorem Reading.not_opensComment (h : Reading [] segments)
    (plain : ∀ s ∈ segments, ¬ s.isComment) : ¬ OpensComment (written segments) := by
  cases h with
  | nil => simp [OpensComment]
  | other _ opener _ => rwa [List.append_nil] at opener
  | literal | unclosed =>
    intro hopens
    exact absurd (opensComment_cons.1 hopens).1 (by simp)
  | line | block => exact absurd rfl (plain _ List.mem_cons_self)

/-- Where there are no comments, characters outside of literals are whole segments. -/
theorem Reading.exists_of_outside {front : List α} (h : Reading [] segments)
    (plain : ∀ s ∈ segments, ¬ s.isComment) (outside : Outside front)
    (hsplit : written segments = front ++ rest) :
    ∃ before after, segments = before ++ after ∧ written after = rest ∧ Reading [] after := by
  induction outside generalizing segments with
  | nil => exact ⟨[], segments, rfl, hsplit, h⟩
  | other quote _ ih =>
    cases h with
    | nil => cases hsplit
    | @other c segments _ _ later =>
      obtain ⟨before, after, rfl, hafter⟩ :=
        ih later (List.forall_mem_cons.1 plain).2 (List.cons.inj hsplit).2
      exact ⟨.other c :: before, after, rfl, hafter⟩
    | literal | unclosed => exact absurd (List.cons.inj hsplit).1.symm quote
    | line | block => exact absurd rfl (plain _ List.mem_cons_self)
  | @literal t s inside _ ih =>
    cases h with
    | nil => cases hsplit
    | other quote _ _ => exact absurd (List.cons.inj hsplit).1 quote
    | @literal u segments inside' later =>
      obtain ⟨-, hrest⟩ := inside'.closed_unique inside
        (by simpa [Segment.written] using hsplit)
      obtain ⟨before, after, rfl, hafter⟩ := ih later (List.forall_mem_cons.1 plain).2 hrest
      exact ⟨.literal (u ++ [glyph '"']) :: before, after, rfl, hafter⟩
    | @unclosed u unclosed _ =>
      have hsame : u = t ++ glyph '"' :: (s ++ rest) := by simpa [Segment.written] using hsplit
      exact absurd (hsame ▸ unclosed) inside.not_unclosed
    | line | block => exact absurd rfl (plain _ List.mem_cons_self)

theorem Reading.outside {before later : List (Segment α)} {s : Segment α}
    (h : Reading rest (before ++ s :: later)) (plain : ∀ u ∈ before, ¬ u.isComment) :
    Outside (written before) := by
  induction before with
  | nil => exact .nil
  | cons u before ih =>
    obtain ⟨hu, hbefore⟩ := List.forall_mem_cons.1 plain
    rw [List.cons_append] at h
    generalize hlater : before ++ s :: later = following at h
    cases h with
    | other quote _ h => exact .other quote (ih (hlater ▸ h) hbefore)
    | literal inside h =>
      have houtside := Outside.literal inside (ih (hlater ▸ h) hbefore)
      simpa [Segment.written] using houtside
    | unclosed _ _ => simp at hlater
    | line | block => exact absurd rfl hu

/-- A document has no comment outside of its literals if and only if it is read without any. -/
theorem Reading.uncommented_iff (h : Reading [] segments) :
    Uncommented (written segments) ↔ ∀ s ∈ segments, ¬ s.isComment := by
  constructor
  · intro huncommented
    -- In front of the first comment all quotes belong to literals.
    cases hfirst : segments.find? Segment.isComment with
    | none => exact List.find?_eq_none.1 hfirst
    | some s =>
      obtain ⟨hcomment, before, later, rfl, hbefore⟩ := List.find?_eq_some_iff_append.1 hfirst
      have houtside : Outside (written before) := h.outside (by simpa using hbefore)
      exact absurd (Segment.opensComment_written hcomment later)
        (huncommented _ _ (written_append before (s :: later)) houtside)
  · intro plain front rest hsplit houtside
    obtain ⟨before, after, rfl, rfl, hafter⟩ := h.exists_of_outside plain houtside hsplit
    exact hafter.not_opensComment fun s hs => plain s (List.mem_append_right before hs)

end Outside

/-- Stripping leaves no comment outside of literals, so that stripping again changes nothing. What
it leaves is no longer than the document, and is the document itself if and only if this has no
comment outside of its literals, which is to say that it is read without any. -/
theorem strip_leaves_no_comment [DecidableEq α] (h : strip document = .ok t) :
    Uncommented t ∧ strip t = .ok t ∧ t.length ≤ document.length ∧
      (t = document ↔ Uncommented document) ∧
      ∃ segments, ReadsAs document segments [] ∧
        (Uncommented document ↔ ∀ s ∈ segments, ¬ s.isComment) := by
  obtain ⟨segments, hreading, rfl, rfl⟩ := strip_eq_ok_iff.1 h
  have hleft := hreading.left
  have hplain : ∀ s ∈ left segments, ¬ s.isComment := fun _ => not_isComment_of_mem_left
  refine ⟨?_, ?_, length_stripped_le segments, ?_, ?_⟩
  · rw [← written_left, hleft.uncommented_iff]
    exact hplain
  · have hagain := strip_written_reading hleft
    rwa [stripped_eq_written_iff.2 hplain, written_left] at hagain
  · rw [hreading.uncommented_iff, stripped_eq_written_iff]
  · exact ⟨segments, ⟨hreading, .inl rfl, (List.append_nil _).symm⟩, hreading.uncommented_iff⟩

/-- A slash follows a block comment, a line comment begins with three, and the last literal is not
closed. -/
theorem strip_leaves_no_comment_slashes :
    let document := "/ /**// \"//\\\"\" ///*\n*/\"/*".toList
    let t := "/  / \"//\\\"\" \n*/\"/*".toList
    strip document = .ok t ∧ Uncommented t ∧ strip t = .ok t ∧ ¬ Uncommented document := by
  intro document t
  have hstrip : strip document = .ok t := by rfl
  obtain ⟨hnone, hagain, -, hsame, -⟩ := strip_leaves_no_comment hstrip
  have hchanged : t ≠ document := by decide
  exact ⟨hstrip, hnone, hagain, fun hplain => hchanged (hsame.2 hplain)⟩

end Comments

end LiveTemplates
