import LiveTemplates.Text.Glyph

/-!
# Comments

A document may hold line comments, from `//` to the end of the line, and block comments, from
`/*` to the next `*/`. Comments are found outside of string literals only. Stripping drops a line
comment and puts one space and the newlines of its body for a block comment, so every character
that is kept stays on its line.
-/

namespace LiveTemplates

namespace Comments

/-- What the characters read so far have begun. -/
inductive Mode where
  | code
  | literal
  | escape
  | line
  /-- Between the slash and the star of an opener, with the number of characters left at it. -/
  | opener (opened : Nat)
  | block (opened : Nat)
  /-- Between the star and the slash that end a block comment. -/
  | closer
deriving DecidableEq

/-- A block comment without an end, told by the number of characters left at its opener. -/
structure Unterminated where
  opened : Nat
deriving DecidableEq

variable {α : Type}

/-- Puts characters in front of a stripped rest. -/
def keep (front : List α) (rest : Except Unterminated (List α)) : Except Unterminated (List α) :=
  rest.map (front ++ ·)

variable [DecidableEq α] [Glyph α]

def newlines (s : List α) : List α := s.filter (· = glyph '\n')

/-- What is put for a character in view of what follows, and what the characters up to it have
begun. -/
def step : Mode → α → List α → List α × Mode
  | .code, c, rest =>
    if c = glyph '"' then ([c], .literal)
    else if c = glyph '/' ∧ rest.head? = some (glyph '/') then ([], .line)
    else if c = glyph '/' ∧ rest.head? = some (glyph '*') then
      ([glyph ' '], .opener (rest.length + 1))
    else ([c], .code)
  | .literal, c, _ =>
    ([c], if c = glyph '"' then .code else if c = glyph '\\' then .escape else .literal)
  | .escape, c, _ => ([c], .literal)
  | .line, c, _ => if c = glyph '\n' then ([c], .code) else ([], .line)
  | .opener opened, _, _ => ([], .block opened)
  | .block opened, c, rest =>
    if c = glyph '*' ∧ rest.head? = some (glyph '/') then ([], .closer)
    else (newlines [c], .block opened)
  | .closer, _, _ => ([], .code)

def atEnd : Mode → Except Unterminated (List α)
  | .opener opened | .block opened => .error ⟨opened⟩
  | .code | .literal | .escape | .line | .closer => .ok []

def stripFrom (m : Mode) : List α → Except Unterminated (List α)
  | [] => atEnd m
  | c :: rest => keep (step m c rest).1 (stripFrom (step m c rest).2 rest)

def strip (document : List α) : Except Unterminated (List α) := stripFrom .code document

example : strip "a//b\nc".toList = .ok "a\nc".toList := rfl
example : strip "a/*\n/*/b".toList = .ok "a \nb".toList := rfl
example : strip "1 /*/".toList = .error ⟨3⟩ := rfl
example : strip "\"//\\\"/*\" //".toList = .ok "\"//\\\"/*\" ".toList := rfl
example : strip [.lone 0, .char '/', .char '/', .lone 1] = .ok [CodePoint.lone 0] := rfl

end Comments

end LiveTemplates
