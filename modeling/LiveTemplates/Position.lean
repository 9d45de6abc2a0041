import LiveTemplates.Text.Glyph

/-!
# Positions in a text

A place in a text is told by its line and column, both counted from one. Only a newline ends a
line.
-/

namespace LiveTemplates

structure Position where
  line : Nat
  column : Nat
deriving DecidableEq

namespace Position

def start : Position := ⟨1, 1⟩

variable {α : Type} [DecidableEq α] [Glyph α]

/-- The place behind some characters, the first of which stands at `p`. -/
def after (p : Position) : List α → Position
  | [] => p
  | c :: rest =>
    if c = glyph '\n' then after ⟨p.line + 1, 1⟩ rest else after ⟨p.line, p.column + 1⟩ rest

/-- The place of a document from which `left` characters are left to its end. -/
def before (document : List α) (left : Nat) : Position :=
  start.after (document.take (document.length - left))

theorem before_append (front back : List α) :
    before (front ++ back) back.length = start.after front := by
  rw [before, List.length_append, Nat.add_sub_cancel, List.take_left]

theorem after_append (p : Position) (s t : List α) : p.after (s ++ t) = (p.after s).after t := by
  induction s generalizing p with
  | nil => rfl
  | cons c s ih =>
    by_cases h : c = glyph '\n' <;> simp [after, h, ih]

theorem line_after (p : Position) (s : List α) :
    (p.after s).line = p.line + s.count (glyph '\n') := by
  induction s generalizing p with
  | nil => rfl
  | cons c s ih =>
    by_cases h : c = glyph '\n'
    · subst h
      simp [after, ih]
      omega
    · simp [after, h, ih]

end Position

end LiveTemplates
