import LiveTemplates.Position
import LiveTemplates.Proofs.Comments.Segments

/-!
# Places in a document and in what stripping leaves of it

A document and its stripped text are aligned piece by piece: characters are kept, dropped with their
comments, or added in place of a comment. A character that is kept stays on its line, since every
newline of a comment is put back. Its column goes down by the characters of comments before it on
the line, less the spaces put for them, so it stays only where no comment stands before it.
-/

namespace LiveTemplates

namespace Position

theorem after_snoc {α : Type} [DecidableEq α] [Glyph α] (p : Position) (s : List α) (c : α) :
    p.after (s ++ [c]) =
      if c = glyph '\n' then ⟨(p.after s).line + 1, 1⟩
      else ⟨(p.after s).line, (p.after s).column + 1⟩ := by
  rw [after_append]
  rfl

end Position

namespace Comments

/-- How a character of a document or of its stripped text came about. -/
inductive Piece (α : Type) where
  | kept (c : α)
  | dropped (c : α)
  | added (c : α)
deriving DecidableEq

variable {α : Type}

namespace Piece

def source? : Piece α → Option α
  | .kept c | .dropped c => some c
  | .added _ => none

def result? : Piece α → Option α
  | .kept c | .added c => some c
  | .dropped _ => none

def isDropped : Piece α → Bool
  | .dropped _ => true
  | _ => false

def isAdded : Piece α → Bool
  | .added _ => true
  | _ => false

end Piece

def sources (pieces : List (Piece α)) : List α := pieces.filterMap Piece.source?

def results (pieces : List (Piece α)) : List α := pieces.filterMap Piece.result?

section Pieces

variable (c : α) (s : List α) (ps : List (Piece α))

@[simp] theorem sources_nil : sources ([] : List (Piece α)) = [] := rfl

@[simp] theorem sources_kept : sources (.kept c :: ps) = c :: sources ps := rfl

@[simp] theorem sources_dropped : sources (.dropped c :: ps) = c :: sources ps := rfl

@[simp] theorem sources_added : sources (.added c :: ps) = sources ps := rfl

@[simp] theorem results_nil : results ([] : List (Piece α)) = [] := rfl

@[simp] theorem results_kept : results (.kept c :: ps) = c :: results ps := rfl

@[simp] theorem results_dropped : results (.dropped c :: ps) = results ps := rfl

@[simp] theorem results_added : results (.added c :: ps) = c :: results ps := rfl

@[simp] theorem sources_append (qs : List (Piece α)) :
    sources (ps ++ qs) = sources ps ++ sources qs := List.filterMap_append

@[simp] theorem results_append (qs : List (Piece α)) :
    results (ps ++ qs) = results ps ++ results qs := List.filterMap_append

@[simp] theorem sources_map_kept : sources (s.map .kept) = s := by
  induction s with
  | nil => rfl
  | cons c s ih => rw [List.map_cons, sources_kept, ih]

@[simp] theorem results_map_kept : results (s.map .kept) = s := by
  induction s with
  | nil => rfl
  | cons c s ih => rw [List.map_cons, results_kept, ih]

@[simp] theorem sources_map_dropped : sources (s.map .dropped) = s := by
  induction s with
  | nil => rfl
  | cons c s ih => rw [List.map_cons, sources_dropped, ih]

@[simp] theorem results_map_dropped : results (s.map .dropped) = [] := by
  induction s with
  | nil => rfl
  | cons c s ih => rw [List.map_cons, results_dropped, ih]

end Pieces

variable [DecidableEq α] [Glyph α]

def bodyPieces (c : α) : List (Piece α) :=
  if c = glyph '\n' then [.dropped c, .added c] else [.dropped c]

def Segment.pieces : Segment α → List (Piece α)
  | .other c => [.kept c]
  | .literal s => .kept (glyph '"') :: s.map .kept
  | .line body => .dropped (glyph '/') :: .dropped (glyph '/') :: body.map .dropped
  | .block body =>
    .dropped (glyph '/') :: .dropped (glyph '*') :: .added (glyph ' ') ::
      body.flatMap bodyPieces ++ [.dropped (glyph '*'), .dropped (glyph '/')]

def pieces (segments : List (Segment α)) : List (Piece α) := segments.flatMap Segment.pieces

@[simp] theorem sources_body (s : List α) : sources (s.flatMap bodyPieces) = s := by
  induction s with
  | nil => rfl
  | cons c s ih =>
    rw [List.flatMap_cons, sources_append, ih]
    by_cases hc : c = glyph '\n' <;> simp [bodyPieces, hc]

@[simp] theorem results_body (s : List α) : results (s.flatMap bodyPieces) = newlines s := by
  induction s with
  | nil => rfl
  | cons c s ih =>
    rw [List.flatMap_cons, results_append, ih]
    by_cases hc : c = glyph '\n' <;> simp [bodyPieces, newlines, hc]

namespace Segment

theorem sources_pieces (s : Segment α) : sources s.pieces = s.written := by
  cases s <;> simp [pieces, written]

theorem results_pieces (s : Segment α) : results s.pieces = s.stripped := by
  cases s <;> simp [pieces, stripped]

end Segment

variable {segments : List (Segment α)} {rest : List α}

/-- The sources of the pieces are the document. -/
theorem sources_pieces (segments : List (Segment α)) :
    sources (pieces segments) = written segments := by
  induction segments with
  | nil => rfl
  | cons s segments ih =>
    rw [pieces, List.flatMap_cons, sources_append, s.sources_pieces, written_cons]
    exact congrArg (s.written ++ ·) ih

/-- The results of the pieces are the stripped text. -/
theorem results_pieces (segments : List (Segment α)) :
    results (pieces segments) = stripped segments := by
  induction segments with
  | nil => rfl
  | cons s segments ih =>
    rw [pieces, List.flatMap_cons, results_append, s.results_pieces, stripped_cons]
    exact congrArg (s.stripped ++ ·) ih

theorem pieces_append (a b : List (Segment α)) : pieces (a ++ b) = pieces a ++ pieces b :=
  List.flatMap_append

section Lines

def Piece.endsLine (p : Piece α) : Bool := p.result? = some (glyph '\n')

/-- The pieces behind the last newline of the stripped text. -/
def onLine (ps : List (Piece α)) : List (Piece α) :=
  (ps.reverse.takeWhile fun p => !p.endsLine).reverse

def lost (ps : List (Piece α)) : Nat := (onLine ps).countP Piece.isDropped

def gained (ps : List (Piece α)) : Nat := (onLine ps).countP Piece.isAdded

section Counting

variable (ps : List (Piece α)) (c : α)

theorem onLine_snoc (p : Piece α) :
    onLine (ps ++ [p]) = if p.endsLine then [] else onLine ps ++ [p] := by
  cases h : p.endsLine <;> simp [onLine, h]

theorem lost_kept : lost (ps ++ [.kept c]) = if c = glyph '\n' then 0 else lost ps := by
  by_cases hc : c = glyph '\n' <;>
    simp [lost, onLine_snoc, Piece.endsLine, Piece.result?, Piece.isDropped, hc]

theorem gained_kept : gained (ps ++ [.kept c]) = if c = glyph '\n' then 0 else gained ps := by
  by_cases hc : c = glyph '\n' <;>
    simp [gained, onLine_snoc, Piece.endsLine, Piece.result?, Piece.isAdded, hc]

theorem lost_dropped : lost (ps ++ [.dropped c]) = lost ps + 1 := by
  simp [lost, onLine_snoc, Piece.endsLine, Piece.result?, Piece.isDropped]

theorem gained_dropped : gained (ps ++ [.dropped c]) = gained ps := by
  simp [gained, onLine_snoc, Piece.endsLine, Piece.result?, Piece.isAdded]

theorem lost_added : lost (ps ++ [.added c]) = if c = glyph '\n' then 0 else lost ps := by
  by_cases hc : c = glyph '\n' <;>
    simp [lost, onLine_snoc, Piece.endsLine, Piece.result?, Piece.isDropped, hc]

theorem gained_added : gained (ps ++ [.added c]) = if c = glyph '\n' then 0 else gained ps + 1 := by
  by_cases hc : c = glyph '\n' <;>
    simp [gained, onLine_snoc, Piece.endsLine, Piece.result?, Piece.isAdded, hc]

end Counting

theorem lost_eq_zero_iff {ps : List (Piece α)} : lost ps = 0 ↔ ∀ c, .dropped c ∉ onLine ps := by
  rw [lost, List.countP_eq_zero]
  constructor
  · exact fun h c hc => h _ hc rfl
  · intro h p hp
    cases p with
    | dropped c => exact (h c hp).elim
    | _ => exact Bool.false_ne_true

/-- The two texts of some pieces end on one line, in columns that differ by what is lost and gained
there. More is lost than gained, unless no comment stands there. -/
structure Balanced (ps : List (Piece α)) : Prop where
  line : (Position.start.after (sources ps)).line = (Position.start.after (results ps)).line
  column : (Position.start.after (sources ps)).column + gained ps =
    (Position.start.after (results ps)).column + lost ps
  gained_lt : lost ps = 0 ∧ gained ps = 0 ∨ gained ps < lost ps

namespace Balanced

variable {ps : List (Piece α)}

theorem nil : Balanced ([] : List (Piece α)) := ⟨rfl, rfl, .inl ⟨rfl, rfl⟩⟩

theorem kept (h : Balanced ps) (c : α) : Balanced (ps ++ [.kept c]) := by
  obtain ⟨hline, hcolumn, hlt⟩ := h
  by_cases hc : c = glyph '\n'
  · constructor <;>
      simp only [sources_append, results_append, sources_kept, results_kept, sources_nil,
        results_nil, Position.after_snoc, lost_kept, gained_kept, if_pos hc, hline, and_self,
        true_or]
  · constructor <;>
      simp only [sources_append, results_append, sources_kept, results_kept, sources_nil,
        results_nil, Position.after_snoc, lost_kept, gained_kept, if_neg hc] <;>
      omega

theorem dropped (h : Balanced ps) {c : α} (hc : c ≠ glyph '\n') :
    Balanced (ps ++ [.dropped c]) := by
  obtain ⟨hline, hcolumn, hlt⟩ := h
  constructor <;>
    simp only [sources_append, results_append, sources_dropped, results_dropped, sources_nil,
      results_nil, List.append_nil, Position.after_snoc, lost_dropped, gained_dropped,
      if_neg hc] <;>
    omega

theorem opener (h : Balanced ps) :
    Balanced (ps ++ [.dropped (glyph '/'), .dropped (glyph '*'), .added (glyph ' ')]) := by
  have hslash : Balanced (ps ++ [.dropped (glyph '/')] ++ [.dropped (glyph '*')]) :=
    (h.dropped (by simp)).dropped (by simp)
  obtain ⟨hline, hcolumn, -⟩ := hslash
  have hlt := h.gained_lt
  have hsplit : ps ++ [.dropped (glyph '/'), .dropped (glyph '*'), .added (glyph ' ')] =
      ps ++ [.dropped (glyph '/')] ++ [.dropped (glyph '*')] ++ [.added (glyph ' ')] := by simp
  rw [hsplit]
  generalize hqs : ps ++ [.dropped (glyph '/')] ++ [.dropped (glyph '*')] = qs at hline hcolumn
  have hlost : lost qs = lost ps + 2 := by rw [← hqs, lost_dropped, lost_dropped]
  have hgained : gained qs = gained ps := by rw [← hqs, gained_dropped, gained_dropped]
  constructor <;>
    simp only [sources_append, results_append, sources_added, results_added, sources_nil,
      results_nil, List.append_nil, Position.after_snoc, lost_added, gained_added,
      if_neg (show glyph ' ' ≠ (glyph '\n' : α) by simp)] <;> omega

/-- A newline of a comment is put back, so both texts go on with a new line. -/
theorem body (h : Balanced ps) (c : α) : Balanced (ps ++ bodyPieces c) := by
  by_cases hc : c = glyph '\n'
  · have hsplit : ps ++ bodyPieces c = ps ++ [.dropped (glyph '\n')] ++ [.added (glyph '\n')] := by
      simp [bodyPieces, hc]
    rw [hsplit]
    constructor <;>
      simp only [sources_append, results_append, sources_dropped, results_dropped, sources_added,
        results_added, sources_nil, results_nil, List.append_nil, Position.after_snoc, lost_added,
        gained_added, ↓reduceIte, h.line, and_self, true_or]
  · rw [bodyPieces, if_neg hc]
    exact h.dropped hc

theorem flatMap {β : Type} {f : β → List (Piece α)} {xs : List β} (h : Balanced ps)
    (hf : ∀ ps, ∀ x ∈ xs, Balanced ps → Balanced (ps ++ f x)) : Balanced (ps ++ xs.flatMap f) := by
  induction xs generalizing ps with
  | nil => simpa using h
  | cons x xs ih =>
    rw [List.flatMap_cons, ← List.append_assoc]
    exact ih (hf ps x List.mem_cons_self h) fun qs y hy => hf qs y (List.mem_cons_of_mem x hy)

theorem keptAll (h : Balanced ps) (s : List α) : Balanced (ps ++ s.map .kept) := by
  rw [List.map_eq_flatMap]
  exact h.flatMap fun qs c _ hqs => hqs.kept c

theorem segment (h : Balanced ps) {s : Segment α}
    (hs : ∀ body, s = .line body → glyph '\n' ∉ body) : Balanced (ps ++ s.pieces) := by
  cases s with
  | other c => exact h.kept c
  | literal t => exact h.keptAll (glyph '"' :: t)
  | line body =>
    have hbody : glyph '\n' ∉ glyph '/' :: glyph '/' :: body := by simpa using hs body rfl
    have hpieces : (Segment.line body).pieces = (glyph '/' :: glyph '/' :: body).map .dropped := rfl
    rw [hpieces, List.map_eq_flatMap]
    exact h.flatMap fun qs c hc hqs => hqs.dropped fun heq => hbody (heq ▸ hc)
  | block body =>
    have hbody : Balanced (_ ++ body.flatMap bodyPieces) :=
      h.opener.flatMap fun qs c _ hqs => hqs.body c
    have hend := (hbody.dropped (c := glyph '*') (by simp)).dropped (c := glyph '/') (by simp)
    simpa [Segment.pieces] using hend

theorem readable (hs : ∀ body, .line body ∈ segments → glyph '\n' ∉ body) :
    Balanced (pieces segments) :=
  nil.flatMap fun _ _ hmem h => h.segment fun _ heq => hs _ (heq ▸ hmem)

end Balanced

end Lines

section Kept

variable {pre post : List (Piece α)} {c : α}

/-- A piece that is kept is a segment of its own or stands in a literal. -/
theorem exists_map_kept {s : Segment α} (h : s.pieces = pre ++ .kept c :: post) :
    ∃ front : List α, pre = front.map .kept := by
  have hkept : ∀ t : List α, t.map Piece.kept = pre ++ .kept c :: post →
      ∃ front : List α, pre = front.map .kept := by
    intro t ht
    obtain ⟨front, back, -, hfront, -⟩ := List.map_eq_append_iff.1 ht
    exact ⟨front, hfront.symm⟩
  have hmem : .kept c ∈ s.pieces := h ▸ List.mem_append_right pre List.mem_cons_self
  cases s with
  | other d => exact hkept [d] h
  | literal t => exact hkept (glyph '"' :: t) h
  | line body => simp [Segment.pieces] at hmem
  | block body =>
    have hbody : ∀ d ∈ body, .kept c ∉ bodyPieces d := by
      intro d _
      by_cases hd : d = glyph '\n' <;> simp [bodyPieces, hd]
    simp only [Segment.pieces, List.mem_cons, List.mem_append, List.mem_flatMap, reduceCtorEq,
      List.not_mem_nil, or_false, false_or] at hmem
    obtain ⟨d, hd, hc⟩ := hmem
    exact (hbody d hd hc).elim

theorem exists_of_pieces_eq (h : pieces segments = pre ++ .kept c :: post) :
    ∃ before s after, ∃ front : List α, segments = before ++ s :: after ∧
      pre = pieces before ++ front.map .kept := by
  induction segments generalizing pre with
  | nil => simp [pieces] at h
  | cons s segments ih =>
    have hcons : s.pieces ++ pieces segments = pre ++ .kept c :: post := h
    rcases List.append_eq_append_iff.1 hcons with ⟨later, rfl, hlater⟩ | ⟨kept, hs, hpost⟩
    · obtain ⟨before, s', after, front, rfl, rfl⟩ := ih hlater
      exact ⟨s :: before, s', after, front, rfl, by simp [pieces]⟩
    · cases kept with
      | nil =>
        rw [List.append_nil] at hs
        have hfirst : pieces segments = [] ++ .kept c :: post := hpost.symm
        obtain ⟨before, s', after, front, rfl, hpre⟩ := ih hfirst
        obtain ⟨hbefore, hfront⟩ := List.append_eq_nil_iff.1 hpre.symm
        have hpieces : pieces (s :: before) = s.pieces ++ pieces before := rfl
        exact ⟨s :: before, s', after, [], rfl, by rw [hpieces, hs, hbefore]; simp⟩
      | cons k kept =>
        obtain ⟨rfl, -⟩ := List.cons_eq_cons.1 hpost
        obtain ⟨front, rfl⟩ := exists_map_kept hs
        exact ⟨[], s, segments, front, rfl, rfl⟩

/-- What is known of the two texts up to a character that is kept. -/
theorem Reading.balanced (hreading : Reading rest segments)
    (h : pieces segments = pre ++ .kept c :: post) : Balanced pre := by
  obtain ⟨before, s, after, front, rfl, rfl⟩ := exists_of_pieces_eq h
  refine (Balanced.readable fun body hbody => ?_).keptAll front
  exact hreading.newline_notMem (List.mem_append_left _ hbody)

end Kept

end Comments

end LiveTemplates
