import LiveTemplates.Json.Basic

/-!
# Writing JSON values

A value is written on one line, with a blank behind each comma and each colon. Whatever is no
visible character of ASCII is escaped, beyond the first 65536 code points by the two surrogates
that spell it.
-/

namespace LiveTemplates

namespace Json

def shortEscapeOf? : Char → Option Char
  | '"' => some '"'
  | '\\' => some '\\'
  | '\x08' => some 'b'
  | '\x0c' => some 'f'
  | '\n' => some 'n'
  | '\r' => some 'r'
  | '\t' => some 't'
  | _ => none

def writtenUnit (n : Nat) : Text := Text.ofString "\\u" ++ Text.hex 4 n

def writtenPoint : CodePoint → Text
  | .lone offset => writtenUnit (0xD800 + offset.val)
  | .char c =>
    match shortEscapeOf? c with
    | some e => [.char '\\', .char e]
    | none =>
      if ' ' ≤ c ∧ c ≤ '~' then [.char c]
      else if c.toNat < 0x10000 then writtenUnit c.toNat
      else
        let n := c.toNat - 0x10000
        writtenUnit (0xD800 + n / 0x400) ++ writtenUnit (0xDC00 + n % 0x400)

def writtenText (t : Text) : Text := .char '"' :: t.flatMap writtenPoint ++ [.char '"']

end Json

/-- The text of a number, where an infinite one is spelled out. -/
def Number.written : Number → Text
  | .float (.infinite true) => "-Infinity"
  | .float (.infinite false) => "Infinity"
  | n => n.text

def Scalar.written : Scalar → Text
  | .null => "null"
  | .bool true => "true"
  | .bool false => "false"
  | .number n => n.written
  | .text t => Json.writtenText t

namespace Json

mutual

def written : Json → Text
  | .scalar s => s.written
  | .array items => .char '[' :: writtenItems items ++ [.char ']']
  | .object members => .char '{' :: writtenMembers members ++ [.char '}']

def writtenItems : List Json → Text
  | [] => []
  | [item] => written item
  | item :: rest => written item ++ Text.ofString ", " ++ writtenItems rest

def writtenMembers : List (Text × Json) → Text
  | [] => []
  | [(name, value)] => writtenText name ++ Text.ofString ": " ++ written value
  | (name, value) :: rest =>
    writtenText name ++ Text.ofString ": " ++ written value ++ Text.ofString ", " ++
      writtenMembers rest

end

example : written (.object [("a", .array [.int 1, .null]), ("é", .object [])]) =
    "\x7b\"a\": [1, null], \"\\u00e9\": \x7b\x7d\x7d" := by decide +kernel
example : writtenText "😀\"\n" = "\"\\ud83d\\ude00\\\"\\n\"" := by decide +kernel

end Json

end LiveTemplates
