/-!
# Syntax faults

What can be wrong with the text of a JSON document. A flaw is a fault at its place, which is held
as the number of characters from there to the end, so that it does not depend on what precedes.
-/

namespace LiveTemplates

namespace Json

inductive Fault where
  | byteOrderMark
  | valueExpected
  | nameExpected
  | colonExpected
  | commaExpected
  | extraData
  | unterminatedText
  | controlCharacter
  | escape
  | unicodeEscape
deriving DecidableEq

def Fault.description : Fault → String
  | .byteOrderMark => "Unexpected UTF-8 BOM (decode using utf-8-sig)"
  | .valueExpected => "Expecting value"
  | .nameExpected => "Expecting property name enclosed in double quotes"
  | .colonExpected => "Expecting ':' delimiter"
  | .commaExpected => "Expecting ',' delimiter"
  | .extraData => "Extra data"
  | .unterminatedText => "Unterminated string starting at"
  | .controlCharacter => "Invalid control character at"
  | .escape => "Invalid \\escape"
  | .unicodeEscape => "Invalid \\uXXXX escape"

structure Flaw where
  fault : Fault
  left : Nat
deriving DecidableEq

end Json

end LiveTemplates
