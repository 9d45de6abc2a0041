import LiveTemplates.Text.Printable

/-!
# Quoted texts

The quoted form names a text in a message. It stands between single quotes, or between double
quotes if the text holds a single quote and no double one. The chosen quote, backslashes and all
code points that are not printable are escaped.
-/

namespace LiveTemplates

def CodePoint.quoted (quote : Char) (p : CodePoint) : Text :=
  if p = .char quote ∨ p = .char '\\' then [.char '\\', p]
  else if p = .char '\t' then "\\t"
  else if p = .char '\n' then "\\n"
  else if p = .char '\r' then "\\r"
  else if p.isPrintable then [p]
  else if p.value < 0x100 then Text.ofString "\\x" ++ Text.hex 2 p.value
  else if p.value < 0x10000 then Text.ofString "\\u" ++ Text.hex 4 p.value
  else Text.ofString "\\U" ++ Text.hex 8 p.value

namespace Text

def quoteFor (t : Text) : Char :=
  if .char '\'' ∈ t ∧ .char '"' ∉ t then '"' else '\''

def quoted (t : Text) : Text :=
  let quote := t.quoteFor
  .char quote :: t.flatMap (CodePoint.quoted quote) ++ [.char quote]

example : quoted "it's" = "\"it's\"" := by decide +kernel
example : quoted "a\nb" = "'a\\nb'" := by decide +kernel
example : quoted "\u200b" = "'\\u200b'" := by decide +kernel

end Text

end LiveTemplates
