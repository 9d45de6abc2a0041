import LiveTemplates.Json.Lexeme
import LiveTemplates.Position
import LiveTemplates.Text.Quoted
import LiveTemplates.Utf8

/-!
# Rejections

The reasons for which contents are no valid template, and the message of each.
-/

namespace LiveTemplates

inductive Rejection where
  | notUtf8 (octets : Utf8.Malformed)
  | unterminatedComment (line : Nat)
  | syntaxFault (position : Position) (fault : Json.Fault)
  | constant (c : Json.Constant)
  | rootNotObject
  | blankSource
  | unterminatedExpression (value : Text) (key : Option Text)
  | emptyExpression (key : Option Text)
  | strayBrace (value : Text) (key : Option Text)
deriving DecidableEq

namespace Rejection

def quotedKey : Option Text → Text
  | none => "None"
  | some key => key.quoted

def message : Rejection → Text
  | .notUtf8 octets => Text.ofString "template is not valid UTF-8: " ++ octets.message
  | .unterminatedComment line =>
    Text.ofString "unterminated block comment at line " ++ Text.ofNat line
  | .syntaxFault position fault =>
    Text.ofString "invalid JSON at line " ++ Text.ofNat position.line ++
      Text.ofString " column " ++ Text.ofNat position.column ++ Text.ofString ": " ++
      Text.ofString fault.description
  | .constant c => Text.ofString "invalid JSON constant " ++ Text.ofString c.name
  | .rootNotObject => "template root must be a JSON object"
  | .blankSource => "$source must be a non-empty string"
  | .unterminatedExpression value key =>
    Text.ofString "unterminated expression " ++ value.quoted ++ Text.ofString " for key " ++
      quotedKey key
  | .emptyExpression key => Text.ofString "empty expression for key " ++ quotedKey key
  | .strayBrace value key =>
    Text.ofString "unexpected '\x7d' in expression " ++ value.quoted ++
      Text.ofString " for key " ++ quotedKey key

end Rejection

end LiveTemplates
