import LiveTemplates.Json.Lexeme
import LiveTemplates.Utf8

/-!
# The ways to write a JSON value

A value is written as a sequence of tokens. The value leaves open how they are spelled: every
character of a text can be escaped, often in several ways. It also leaves open what stands in the
gaps before, between and behind the tokens, which may hold comments besides blanks. What is
described here is what may be written, whatever a reader makes of it.
-/

namespace LiveTemplates

namespace Json

section Texts

def HexDigit (n : Nat) (c : Char) : Prop :=
  "0123456789abcdef".toList[n]? = some c ∨ "0123456789ABCDEF".toList[n]? = some c

def HexUnit (n : Nat) (s : List Char) : Prop :=
  ∃ a b c d w x y z, n = ((a * 16 + b) * 16 + c) * 16 + d ∧ s = [w, x, y, z] ∧
    HexDigit a w ∧ HexDigit b x ∧ HexDigit c y ∧ HexDigit d z

def shortEscapes : List (Char × Char) :=
  [('"', '"'), ('\\', '\\'), ('/', '/'), ('b', '\x08'), ('f', '\x0c'), ('n', '\n'), ('r', '\r'),
    ('t', '\t')]

/-- The ways to write a character of a text: as it is, by a short escape, by its number, or by the
numbers of the two surrogates that encode it. -/
inductive WrittenChar : Char → List Char → Prop where
  | plain {c : Char} (h : 0x20 ≤ c.toNat) (quote : c ≠ '"') (backslash : c ≠ '\\') :
    WrittenChar c [c]
  | short {c e : Char} (h : (e, c) ∈ shortEscapes) : WrittenChar c ['\\', e]
  | unit {c : Char} {s : List Char} (h : HexUnit c.toNat s) : WrittenChar c ('\\' :: 'u' :: s)
  | surrogates {c : Char} {n : Nat} {s t : List Char} (h : c.toNat = 0x10000 + n)
    (high : HexUnit (0xD800 + n / 0x400) s) (low : HexUnit (0xDC00 + n % 0x400) t) :
    WrittenChar c ('\\' :: 'u' :: s ++ '\\' :: 'u' :: t)

inductive WrittenText : Text → List Char → Prop where
  | nil : WrittenText [] []
  | cons {c : Char} {t : Text} {s s' : List Char} (h : WrittenChar c s) (rest : WrittenText t s') :
    WrittenText (.char c :: t) (s ++ s')

end Texts

section Tokens

def marks : List (Token × Char) :=
  [(.openArray, '['), (.closeArray, ']'), (.openObject, '\x7b'), (.closeObject, '\x7d'),
    (.comma, ','), (.colon, ':')]

inductive WrittenToken : Token → List Char → Prop where
  | mark {t : Token} {c : Char} (h : (t, c) ∈ marks) : WrittenToken t [c]
  | null : WrittenToken (.atom .null) ['n', 'u', 'l', 'l']
  | true : WrittenToken (.atom (.bool true)) ['t', 'r', 'u', 'e']
  | false : WrittenToken (.atom (.bool false)) ['f', 'a', 'l', 's', 'e']
  | natural (n : Nat) (short : (Nat.toDigits 10 n).length ≤ 4300) :
    WrittenToken (.atom (.number (.int n))) (Nat.toDigits 10 n)
  | negative (n : Nat) (short : (Nat.toDigits 10 n).length ≤ 4300) :
    WrittenToken (.atom (.number (.int (-n)))) ('-' :: Nat.toDigits 10 n)
  | text {t : Text} {s : List Char} (h : WrittenText t s) :
    WrittenToken (.text t) ('"' :: s ++ ['"'])

theorem isDigit_of_mem {n : Nat} {c : Char} (h : c ∈ Nat.toDigits 10 n) : c.isDigit = true :=
  Nat.isDigit_of_mem_toDigits (by decide) (by decide) h

def blanks : List Char := [' ', '\t', '\n', '\r']

def Blank (s : List Char) : Prop := ∀ c ∈ s, c ∈ blanks

inductive Gap : List Char → Prop where
  | nil : Gap []
  | blank {c : Char} {s : List Char} (h : c ∈ blanks) (rest : Gap s) : Gap (c :: s)
  | block {body s : List Char} (h : ¬ ['*', '/'] <:+: body) (rest : Gap s) :
    Gap ('/' :: '*' :: body ++ '*' :: '/' :: s)
  | line {body s : List Char} (h : '\n' ∉ body) (rest : Gap s) :
    Gap ('/' :: '/' :: body ++ '\n' :: s)

/-- What may stand behind the last token, where the end of the document ends a comment as well. -/
inductive LastGap : List Char → Prop where
  | gap {s : List Char} (h : Gap s) : LastGap s
  | line {s body : List Char} (h : Gap s) (newline : '\n' ∉ body) :
    LastGap (s ++ '/' :: '/' :: body)

/-- The ways to write tokens one after the other, with what may stand before each of them, and
behind them all. -/
inductive Written (gap lastGap : List Char → Prop) : List Token → List Char → Prop where
  | nil {s : List Char} (h : lastGap s) : Written gap lastGap [] s
  | cons {t : Token} {ts : List Token} {g s s' : List Char} (h : gap g) (token : WrittenToken t s)
    (rest : Written gap lastGap ts s') : Written gap lastGap (t :: ts) (g ++ s ++ s')

end Tokens

section Values

def Token.ofScalar : Scalar → Token
  | .text t => .text t
  | s => .atom s

mutual

def tokens : Json → List Token
  | .scalar s => [.ofScalar s]
  | .array items => .openArray :: itemTokens items ++ [.closeArray]
  | .object members => .openObject :: memberTokens members ++ [.closeObject]

def itemTokens : List Json → List Token
  | [] => []
  | [item] => tokens item
  | item :: next :: rest => tokens item ++ .comma :: itemTokens (next :: rest)

def memberTokens : List (Text × Json) → List Token
  | [] => []
  | [(name, value)] => .text name :: .colon :: tokens value
  | (name, value) :: next :: rest =>
    .text name :: .colon :: tokens value ++ .comma :: memberTokens (next :: rest)

end

mutual

def NoRepeats : Json → Prop
  | .scalar _ => True
  | .array items => NoItemRepeats items
  | .object members => (Keyed.keys members).Nodup ∧ NoMemberRepeats members

def NoItemRepeats : List Json → Prop
  | [] => True
  | item :: rest => NoRepeats item ∧ NoItemRepeats rest

def NoMemberRepeats : List (Text × Json) → Prop
  | [] => True
  | (_, value) :: rest => NoRepeats value ∧ NoMemberRepeats rest

end

theorem noItemRepeats_iff {items : List Json} :
    NoItemRepeats items ↔ ∀ item ∈ items, NoRepeats item := by
  induction items with
  | nil => simp [NoItemRepeats]
  | cons item rest ih => simp [NoItemRepeats, ih]

theorem noMemberRepeats_iff {members : List (Text × Json)} :
    NoMemberRepeats members ↔ ∀ name value, (name, value) ∈ members → NoRepeats value := by
  induction members with
  | nil => simp [NoMemberRepeats]
  | cons m rest ih =>
    obtain ⟨name, value⟩ := m
    simp only [NoMemberRepeats, ih, List.mem_cons, Prod.mk.injEq]
    constructor
    · rintro ⟨hvalue, hrest⟩ n u (⟨rfl, rfl⟩ | hmem)
      · exact hvalue
      · exact hrest n u hmem
    · intro h
      exact ⟨h name value (.inl ⟨rfl, rfl⟩), fun n u hmem => h n u (.inr hmem)⟩

/-- A document of a value, in UTF-8 and with or without a byte order mark. -/
def WrittenAs (v : Json) (contents : Bytes) : Prop :=
  ∃ document, Written Gap LastGap v.tokens document ∧
    (contents = Utf8.encode document ∨ contents = Utf8.byteOrderMark ++ Utf8.encode document)

end Values

end Json

end LiveTemplates
