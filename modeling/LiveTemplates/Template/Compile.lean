import LiveTemplates.Json.Reader
import LiveTemplates.Template.Comments
import LiveTemplates.Template.Stack

/-!
# Compiling templates

The contents of a template are UTF-8 octets of a JSON document with comments. Besides being
rejected, contents may exceed a limit: an integer with too many digits for the reader, or containers
nested too deep for the reader or for the stack that building takes.
-/

namespace LiveTemplates

/-- A limit that contents exceed. -/
inductive Excess where
  | integerDigits (digits : Nat)
  | nesting (container : Json.Container)
  /-- The tree cannot be built for want of stack. -/
  | stack
deriving DecidableEq

def Excess.message : Excess → Text
  | .integerDigits digits =>
    Text.ofString "Exceeds the limit (" ++ Text.ofNat Json.digitLimit ++
      Text.ofString " digits) for integer string conversion: value has " ++ Text.ofNat digits ++
      Text.ofString " digits; use sys.set_int_max_str_digits() to increase the limit"
  | .nesting .array =>
    "maximum recursion depth exceeded while decoding a JSON array from a unicode string"
  | .nesting .object =>
    "maximum recursion depth exceeded while decoding a JSON object from a unicode string"
  -- The interpreter may add what it was about to do.
  | .stack => "maximum recursion depth exceeded"

inductive TemplateFailure where
  | rejected (r : Rejection)
  | exceeded (e : Excess)
deriving DecidableEq

namespace TemplateFailure

/-- Why a document, given without its comments, could not be read. -/
def ofStop (stripped : List Char) : Json.Stop → TemplateFailure
  | .flaw flaw => .rejected (.syntaxFault (Position.before stripped flaw.left) flaw.fault)
  | .constant c => .rejected (.constant c)
  | .longInteger digits => .exceeded (.integerDigits digits)
  | .tooDeep container => .exceeded (.nesting container)

def message : TemplateFailure → Text
  | .rejected r => r.message
  | .exceeded e => e.message

end TemplateFailure

namespace Root

/-- The tree of a document. Without a number, there is room for everything. -/
def ofDocument (document : List Char) (room : Option Nat := none) : Except TemplateFailure Root :=
  match Comments.strip document with
  | .error comment =>
    .error (.rejected (.unterminatedComment (Position.before document comment.opened).line))
  | .ok stripped =>
    match Json.ofDocument stripped with
    | .error stop => .error (.ofStop stripped stop)
    | .ok value =>
      bif room.any (exhausts · value.distinct) then .error (.exceeded .stack)
      else
        match Root.ofJson value.distinct with
        | .error r => .error (.rejected r)
        | .ok root => .ok root

def ofBytes (contents : Bytes) (room : Option Nat := none) : Except TemplateFailure Root :=
  match Utf8.decodeDocument contents with
  | .error octets => .error (.rejected (.notUtf8 octets))
  | .ok document => ofDocument document room

theorem ofDocument_unlimited (document : List Char) : ofDocument document =
    match Comments.strip document with
    | .error comment =>
      .error (.rejected (.unterminatedComment (Position.before document comment.opened).line))
    | .ok stripped =>
      match Json.ofDocument stripped with
      | .error stop => .error (.ofStop stripped stop)
      | .ok value =>
        match Root.ofJson value.distinct with
        | .error r => .error (.rejected r)
        | .ok root => .ok root := rfl

end Root

end LiveTemplates
