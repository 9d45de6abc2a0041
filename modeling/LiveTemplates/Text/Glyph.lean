import LiveTemplates.Text.Basic

/-!
# Glyphs

A document consists of characters, and a text of code points, among which all characters are. What
is done to sequences by comparing their items with characters is done to both alike.
-/

namespace LiveTemplates

/-- A type of items among which all characters are. -/
class Glyph (α : Type) where
  glyph : Char → α
  glyph_inj {c d : Char} : glyph c = glyph d → c = d

export Glyph (glyph)

instance : Glyph Char := ⟨fun c => c, id⟩

instance : Glyph CodePoint := ⟨.char, CodePoint.char.inj⟩

@[simp] theorem glyph_eq_glyph {α : Type} [Glyph α] {c d : Char} :
    (glyph c : α) = glyph d ↔ c = d :=
  ⟨Glyph.glyph_inj, congrArg glyph⟩

@[simp] theorem glyph_char (c : Char) : (glyph c : Char) = c := rfl

end LiveTemplates
