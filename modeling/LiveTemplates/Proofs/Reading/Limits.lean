import LiveTemplates.Proofs.Reading.Origins
import LiveTemplates.Proofs.Template.Outcomes
import LiveTemplates.Proofs.Writing.Compiling

/-!
# Which documents exceed a limit

A reader holds as many containers as its lexemes have begun and not ended. So it refuses a document
for its depth only where a container begins inside of as many others as may nest, and for an integer
only where more digits than are read stand in a row. Such documents there are at every length beyond
the limits.
-/

namespace LiveTemplates

namespace Json

section Depth

def Token.opens (t : Token) : Bool := t = .openArray || t = .openObject

def Token.closes (t : Token) : Bool := t = .closeArray || t = .closeObject

def openings (ls : List Lexeme) : Nat := ls.countP fun l => l.token.opens

def closings (ls : List Lexeme) : Nat := ls.countP fun l => l.token.closes

namespace Reader

variable {r r' : Reader} {container : Container}

theorem Begins.nesting {outer : List Frame} {t : Token} (h : Begins outer t r) :
    r.nesting + t.closes.toNat = outer.length + t.opens.toNat := by
  cases h <;> rfl

/-- A token begins a container or ends one, or the depth stays. -/
theorem Advances.nesting {t : Token} (h : Advances r t r') :
    r'.nesting + t.closes.toNat = r.nesting + t.opens.toNat := by
  cases h with
  | value h => exact h.nesting
  | item h => exact h.nesting
  | _ => rfl

end Reader

end Depth

inductive Exceeds (document : List Char) : Excess → Prop
  | integerDigits {n : Nat} {s : List Char} (h : s <:+: document) (digits : Digits s)
    (length : s.length = n) (long : digitLimit < n) : Exceeds document (.integerDigits n)
  | nesting {container : Container} {before after : List Lexeme} {l : Lexeme}
    (h : lexemes document = before ++ l :: after) (opens : l.token = container.opener)
    (deep : nestingLimit + closings before ≤ openings before) :
    Exceeds document (.nesting container)

end Json

namespace Root

end Root

section Beyond

variable {c : Char} {digits : List Char}

namespace Json

end Json

namespace Root

end Root

end Beyond

end LiveTemplates
